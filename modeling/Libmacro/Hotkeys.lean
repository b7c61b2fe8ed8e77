import Libmacro.LivingReceivers
import Libmacro.Sharing

/-! # Hotkeys

What a client that configures its macros gets: the pairs that the dispatchers hold are those that
the enabled macros ask for by their activators and triggers, no more and no less
(`Memory.Exact`), as long as each call is tidy and the client registers nothing by hand. So a
dispatch starts the macros that are bound to the dispatcher and whose trigger fires, and no others
(`MacroEvent.dispatch_starts`). -/

namespace Libmacro

/-- **The client leaves the registering to the macro**: none of the calls that add or remove a
registration alone, and none that turns the registering off. -/
def PublicCall.automatic : PublicCall → Bool
  | block .removeDispatch | block .addDispatch | block (.addDispatchSignal _)
  | block (.addDispatchTrigger _) | block (.addDispatchPair _ _) => false
  | block (.setApplyDispatchEnabled val) => val
  | _ => true

namespace Memory

/-- **The macro binds the receiver to the dispatcher**: it is enabled and its activators and
triggers ask for the pair. -/
def Binds (mem : Memory) (m : MacroId) (d : DispatcherId) (r : Receiver) : Prop :=
  (mem.macros m).enabled = true ∧ mem.Wants m d r

/-- **The registrations are exact**: the pairs that the living macros bind are registered, and no
others. -/
structure Exact (live : Finset MacroId) (mem : Memory) : Prop where
  has : ∀ d r, Registry.Has mem.dispatchers d r ↔ ∃ m ∈ live, mem.Binds m d r
  /-- A living macro is the actor of its triggers. -/
  actors : ∀ m ∈ live, ∀ t ∈ (mem.macros m).triggers, mem.actorPtr t = some m
  flag : ∀ m ∈ live, (mem.macros m).applyDispatchFlag = true
  /-- What an enabled macro wants it can remove. -/
  backed : ∀ m ∈ live, (mem.macros m).Backed

section Change

variable {live : Finset MacroId} {mem mem' : Memory} {m m' : MacroId} {d : DispatcherId}
  {r : Receiver}

/-- What a macro binds is for it to remove. -/
theorem Exact.releases (h : mem.Exact live) (hm : m ∈ live) (hbinds : mem.Binds m d r) :
    mem.Releases m d r :=
  releases_of_wants hbinds.2 (h.backed m hm (h.flag m hm) hbinds.1)

/-- What a macro binds depends on its setup and on whether it is enabled. -/
theorem binds_congr (hsetup : SameSetup mem mem' m)
    (hen : (mem'.macros m).enabled = (mem.macros m).enabled) :
    mem'.Binds m d r ↔ mem.Binds m d r := by
  rw [Binds, Binds, hen, Wants.congr hsetup]

/-- What a macro binds that a change of another one leaves alone. -/
theorem binds_of_others (hmac : mem'.macros m = mem.macros m)
    (hgeneric : mem'.genericDispatcher = mem.genericDispatcher)
    (hptr : mem'.dispatcherPtr = mem.dispatcherPtr) :
    mem'.Binds m d r ↔ mem.Binds m d r :=
  binds_congr ⟨by rw [hmac], by rw [hmac], by rw [hmac], by rw [hmac], hgeneric, hptr⟩
    (by rw [hmac])

/-- **Exact registrations cover themselves**: each is for a living macro to remove. -/
theorem Exact.covered (h : mem.Exact live) : mem.Covered live := by
  refine ⟨fun d r hhas => ?_, h.actors⟩
  obtain ⟨m, hm, hbinds⟩ := (h.has d r).mp hhas
  have hrel := h.releases hm hbinds
  exact ⟨m, hm, Covered.target_of_releases (h.actors m hm) hrel, hrel⟩

/-- **What a call touches and is registered, the macro itself binds.** -/
theorem Exact.eq_of_touches {call : MacroCall} (h : mem.Exact live) (hm : m ∈ live)
    (hunshared : mem.Unshared live m (call.gives mem m)) (htouches : call.Touches mem m r)
    (hm' : m' ∈ live) (hbinds : mem.Binds m' d r) : m' = m := by
  by_contra hne
  rcases MacroCall.owner_of_wants hbinds.2 with rfl | ⟨t, ht, rfl⟩
  · rcases htouches with heq | ⟨t, -, heq⟩
    · exact hne (Receiver.ofMacro.inj heq)
    · cases heq
  · rcases htouches with heq | ⟨u, hu, heq⟩
    · cases heq
    · obtain rfl := Receiver.trigger.inj heq
      rcases hu with hold | hgiven
      · exact hne (Option.some.inj ((h.actors m' hm' t ht).symm.trans (h.actors m hm t hold)))
      · exact hunshared m' hm' hne t hgiven ht

/-- **A call that applies the dispatch** replaces what the macro binds. -/
theorem Exact.of_applies {call : MacroCall} (h : mem.Exact live) (hm : m ∈ live)
    (hcovered : mem'.Covered live) (hspec : MacroCall.Spec mem mem' m call)
    (hunshared : mem.Unshared live m (call.gives mem m)) (happlies : call.Applies mem m)
    (hclears : ∀ d r, mem.Releases m d r → call.Clears mem m d r)
    (hflag : (mem'.macros m).applyDispatchFlag = true) (hbacked : (mem'.macros m).Backed) :
    mem'.Exact live := by
  have hothers : ∀ m' ≠ m, ∀ d r, mem'.Binds m' d r ↔ mem.Binds m' d r := fun m' hne _ _ =>
    binds_of_others (hspec.others m' hne) hspec.genericDispatcher hspec.dispatcherPtr
  refine ⟨fun d r => ?_, hcovered.actors, fun m' hm' => ?_, fun m' hm' => ?_⟩
  · rw [hspec.has, h.has]
    constructor
    · rintro (⟨⟨m', hm', hbinds⟩, hnot⟩ | ⟨-, -, hadds⟩)
      · -- the pair is not the macro's own, which would have been cleared
        have hne : m' ≠ m := by
          rintro rfl
          exact hnot (hclears d r (h.releases hm hbinds))
        exact ⟨m', hm', (hothers m' hne d r).mpr hbinds⟩
      · exact ⟨m, hm, hadds⟩
    · rintro ⟨m', hm', hbinds⟩
      by_cases hne : m' = m
      · subst hne
        exact .inr ⟨happlies, hflag, hbinds⟩
      · have hold := (hothers m' hne d r).mp hbinds
        refine .inl ⟨⟨m', hm', hold⟩, fun hcl => hne ?_⟩
        exact h.eq_of_touches hm hunshared (MacroCall.touches_of_clears hcl) hm' hold
  · by_cases hne : m' = m
    · exact hne ▸ hflag
    · rw [hspec.others m' hne]
      exact h.flag m' hm'
  · by_cases hne : m' = m
    · exact hne ▸ hbacked
    · rw [hspec.others m' hne]
      exact h.backed m' hm'

/-- A change of the macro that its registrations do not depend on. -/
theorem Exact.of_setup (h : mem.Exact live)
    (hothers : ∀ m', m' ≠ m → mem'.macros m' = mem.macros m')
    (hsetup : SameSetup mem mem' m) (hen : (mem'.macros m).enabled = (mem.macros m).enabled)
    (hhas : ∀ d r, Registry.Has mem'.dispatchers d r ↔ Registry.Has mem.dispatchers d r)
    (hactor : ∀ t, mem'.actorPtr t = mem.actorPtr t) : mem'.Exact live := by
  -- no macro's setup has changed, so every macro binds what it bound
  have hsame : ∀ m', SameSetup mem mem' m' ∧
      (mem'.macros m').enabled = (mem.macros m').enabled := by
    intro m'
    by_cases hne : m' = m
    · exact hne ▸ ⟨hsetup, hen⟩
    · have hmac := hothers m' hne
      exact ⟨⟨by rw [hmac], by rw [hmac], by rw [hmac], by rw [hmac], hsetup.genericDispatcher,
        hsetup.dispatcherPtr⟩, by rw [hmac]⟩
  refine ⟨fun d r => ?_, fun m' hm' t ht => ?_, fun m' hm' => ?_, fun m' hm' => ?_⟩
  · rw [hhas, h.has]
    exact exists_congr fun m' => and_congr_right fun _ =>
      (binds_congr (hsame m').1 (hsame m').2).symm
  · rw [hactor]
    rw [(hsame m').1.triggers] at ht
    exact h.actors m' hm' t ht
  · rw [(hsame m').1.flag]
    exact h.flag m' hm'
  · rw [Macro.Backed, (hsame m').1.flag, (hsame m').1.activators, (hsame m').1.triggers,
      (hsame m').2]
    exact h.backed m' hm'

/-- A change of fields of the macro that its registrations do not depend on. -/
theorem Exact.modify (h : mem.Exact live) {f : Macro → Macro}
    (hact : (f (mem.macros m)).activators = (mem.macros m).activators)
    (htrig : (f (mem.macros m)).triggers = (mem.macros m).triggers)
    (hctx : (f (mem.macros m)).context = (mem.macros m).context)
    (hflag : (f (mem.macros m)).applyDispatchFlag = (mem.macros m).applyDispatchFlag)
    (hint : (f (mem.macros m)).interruptor = (mem.macros m).interruptor) :
    (mem.modify m f).Exact live :=
  h.of_setup (fun _ hne => mem.modify_macros_of_ne m f hne)
    (mem.sameSetup_modify m f hact htrig hctx hflag)
    (by rw [modify_macros_self, Macro.enabled, Macro.enabled, hint]) (fun _ _ => Iff.rfl)
    fun _ => rfl

end Change

end Memory

/-! ## Calls -/

section Calls

open Memory

variable {live : Finset MacroId} {mem mem' : Memory} {m : MacroId} {d : DispatcherId} {r : Receiver}

/-- A call of the macro does not turn the registering off. -/
theorem ConfigCall.configure_flag (call : ConfigCall) :
    ((call.configure mem m).macros m).applyDispatchFlag = (mem.macros m).applyDispatchFlag := by
  cases call <;> simp [configure]

/-- **A configuration call that applies the dispatch.** -/
theorem exact_of_config {call : ConfigCall} (h : mem.Exact live) (hm : m ∈ live)
    (hcovered : mem'.Covered live) (hrun : call.run mem m = some mem')
    (hunshared : mem.Unshared live m ((MacroCall.config call).gives mem m))
    (happlies : (MacroCall.config call).Applies mem m)
    (hclears : ∀ d r, mem.Releases m d r → (MacroCall.config call).Clears mem m d r)
    (hbacked : ((call.configure mem m).macros m).Backed) : mem'.Exact live := by
  obtain ⟨hsetup, hinterruptor⟩ := ConfigCall.setup_run hrun
  have hspec : MacroCall.Spec mem mem' m (.config call) := MacroCall.run_spec hrun
  refine h.of_applies hm hcovered hspec hunshared happlies hclears ?_
    (Changes.backed_of_setup hsetup hinterruptor hbacked)
  rw [hsetup.flag, call.configure_flag]
  exact h.flag m hm

/-- **A block of the client** that configures the macro. -/
theorem exact_of_block {b : Block} (h : mem.Exact live) (hm : m ∈ live)
    (hctx : (mem.macros m).context ≠ none) (htidy : b.Tidy live mem m)
    (hauto : (PublicCall.block b).automatic = true) (hb : b.apply m mem = some mem') :
    mem'.Exact live := by
  have hcovered := h.covered.change hm (Changes.of_block hctx htidy hb)
  -- the three calls that register, those that are not automatic, and the rest
  cases b with
  | setActivators array =>
    have hrun : (ConfigCall.setActivators array).run mem m = some mem' := hb
    refine exact_of_config h hm hcovered hrun (fun _ _ _ _ ht => absurd ht List.not_mem_nil) trivial
      (fun d r hrel => .inl hrel) ?_
    rw [ConfigCall.configure, modify_macros_self]
    exact htidy
  | setTriggers array =>
    have hrun : (ConfigCall.setTriggers array).run mem m = some mem' := hb
    refine exact_of_config h hm hcovered hrun htidy.2 trivial (fun d r hrel => .inl hrel) ?_
    rw [ConfigCall.configure, modify_macros_self]
    exact htidy.1
  | applyDispatch =>
    have hrun : ConfigCall.applyDispatch.run mem m = some mem' := hb
    exact exact_of_config h hm hcovered hrun (fun _ _ _ _ ht => absurd ht List.not_mem_nil) trivial
      (fun d r hrel => ⟨h.flag m hm, hrel⟩) htidy
  | removeDispatch | addDispatch | addDispatchSignal | addDispatchTrigger | addDispatchPair =>
    cases hauto
  | setApplyDispatchEnabled val =>
    -- registering is not turned off
    obtain rfl : val = true := hauto
    exact Option.some.inj hb ▸ h.modify rfl rfl rfl (h.flag m hm).symm rfl
  | setSignals array =>
    rw [Block.apply] at hb
    split_ifs at hb
    · exact Option.some.inj hb ▸ h
    · exact Option.some.inj hb ▸ h.modify rfl rfl rfl rfl rfl
  | _ => exact Option.some.inj hb ▸ h.modify rfl rfl rfl rfl rfl

/-- The member function that is the block, whether it throws or not. -/
theorem exact_of_block_call {b : Block} (h : mem.Exact live) (hm : m ∈ live)
    (hctx : (mem.macros m).context ≠ none) (htidy : b.Tidy live mem m)
    (hauto : (PublicCall.block b).automatic = true) : (b.call m mem).1.Exact live := by
  rw [Block.call]
  cases hb : b.apply m mem with
  | none => exact h
  | some mem' => exact exact_of_block h hm hctx htidy hauto hb

/-- **`setInterruptor`** registers and unregisters when it crosses `DISABLE`, and only then. -/
theorem exact_of_setInterruptor {val : Interrupt} {flag : Bool} (h : mem.Exact live) (hm : m ∈ live)
    (hset : mem.setInterruptor m val = some (mem', flag))
    (hbacked : { mem.macros m with interruptor := val }.Backed) : mem'.Exact live := by
  have hrun : (ConfigCall.setInterruptor val).run mem m = some mem' := by
    rw [ConfigCall.run, hset, Option.map_some]
  have hspec : MacroCall.Spec mem mem' m (.config (.setInterruptor val)) := MacroCall.run_spec hrun
  by_cases happlies : (MacroCall.config (.setInterruptor val)).Applies mem m
  · exact exact_of_config h hm (h.covered.change hm (Changes.of_setInterruptor hset hbacked)) hrun
      (fun _ _ _ _ ht => absurd ht List.not_mem_nil) happlies
      (fun d r hrel => ⟨happlies, h.flag m hm, hrel⟩) (Changes.backed_of_setInterruptor hbacked)
  · obtain ⟨hsetup, -⟩ := MacroCall.setup_setInterruptor hset
    refine h.of_setup hspec.others hsetup ?_ (fun d r => ?_) fun t => ?_
    · -- an enabled macro stays enabled, and a disabled one disabled
      rw [Macro.enabled, Macro.enabled, hspec.interruptor, MacroCall.interruptorAfter]
      split_ifs with hval
      · rw [hval]
      · have hcross : ¬ ((mem.macros m).interruptor = .disable ∨ val = .disable) := fun hcross =>
          happlies ⟨hval, hcross⟩
        obtain ⟨hne, hne'⟩ := not_or.mp hcross
        rw [Macro.interruptorAfter]
        split_ifs <;> simp [hne, hne']
    · rw [hspec.has, MacroCall.Clears, MacroCall.Adds]
      have hnot : ¬ (val ≠ (mem.macros m).interruptor ∧
          ((mem.macros m).interruptor = .disable ∨ val = .disable)) := happlies
      tauto
    · rw [hspec.actorPtr]
      exact if_neg List.not_mem_nil

/-- `interrupt`, whatever the value and however it ends. -/
theorem exact_of_interrupt {val : ℤ} {creates : Bool} (h : mem.Exact live) (hm : m ∈ live)
    (hbacked : ∀ v, Interrupt.ofCode? val = some v →
      { mem.macros m with interruptor := v }.Backed) :
    (mem.interrupt m val creates).1.Exact live := by
  rw [Memory.interrupt]
  split
  · exact h
  · next v hval =>
    split
    · exact h
    · next mem' flag hset => exact exact_of_setInterruptor h hm hset (hbacked v hval)

/-- `copy` registers the macro as the one it copies. -/
theorem exact_of_copy {other : MacroId} (h : mem.Exact live) (hm : m ∈ live) (hother : other ∈ live)
    (hcopy : mem.copy m other = some mem')
    (hunshared : mem.Unshared live m (mem.macros other).triggers) : mem'.Exact live := by
  by_cases hself : m = other
  · rw [Memory.copy, if_pos hself] at hcopy
    exact Option.some.inj hcopy ▸ h
  have hbacked := h.backed other hother
  obtain ⟨hflag, hiff⟩ := Changes.backed_copy hcopy hself
  refine h.of_applies hm (h.covered.change hm (Changes.of_copy hcopy hbacked hunshared))
    (MacroCall.spec_copy hcopy) ?_ hself (fun d r hrel => ⟨hself, .inl hrel⟩)
    (hflag.trans (h.flag other hother)) (hiff.mpr hbacked)
  rwa [MacroCall.gives, if_neg hself]

/-- A block of a sequence, and the rest of it. -/
theorem exact_runBlocks_cons {b : Block} {rest : List Block} (h : mem.Exact live) (hm : m ∈ live)
    (hctx : (mem.macros m).context ≠ none) (htidy : b.Tidy live mem m)
    (hauto : (PublicCall.block b).automatic = true)
    (hrest : ∀ mem' : Memory, mem'.Exact live → (mem'.macros m).context ≠ none →
      (runBlocks m rest mem').1.Exact live) : (runBlocks m (b :: rest) mem).1.Exact live := by
  have hcall := exact_of_block_call h hm hctx htidy hauto
  have hconf := b.confined_call m mem
  rw [runBlocks]
  split
  · next mem₁ heq =>
    rw [heq] at hcall hconf
    exact hrest mem₁ hcall (by rwa [hconf.context])
  · next mem₁ stop heq =>
    rw [heq] at hcall
    exact hcall

/-- **A tidy call keeps the registrations exact**, unless it registers by hand. -/
theorem exact_of_call {c : PublicCall} (h : mem.Exact live) (hm : m ∈ live)
    (hsource : ∀ other ∈ c.source, other ∈ live) (hctx : (mem.macros m).context ≠ none)
    (htidy : c.Tidy live mem m) (hauto : c.automatic = true) : (c.run mem m).1.Exact live := by
  cases c with
  | block b => exact exact_of_block_call h hm hctx htidy hauto
  | setInterruptor val creates => exact exact_of_interrupt h hm htidy
  | setEnabled val => exact exact_of_interrupt h hm (backed_of_setEnabled htidy)
  | clearAll =>
    refine exact_runBlocks_cons h hm hctx htidy rfl fun mem₁ h₁ hctx₁ => ?_
    refine exact_runBlocks_cons h₁ hm hctx₁ trivial rfl fun mem₂ h₂ hctx₂ => ?_
    refine exact_runBlocks_cons h₂ hm hctx₂ ⟨fun _ _ _ => rfl, fun _ _ _ t ht => ?_⟩ rfl
      fun mem₃ h₃ _ => h₃
    exact absurd ht List.not_mem_nil
  | copy other =>
    rw [PublicCall.run]
    cases hcopy : mem.copy m other with
    | none => exact h
    | some mem' => exact exact_of_copy h hm (hsource other rfl) hcopy htidy.2

end Calls

/-! ## A dispatch -/

section Dispatch

variable (triggers : TriggerId → Trigger) (worker : Memory → MacroId → Option ThreadId)
  (signalPtr : Option SignalId) (mods : ModFlags)

/-- The receiver starts its macro when it gets the signal. -/
def Receiver.fires : Receiver → Bool
  | .ofMacro _ => true
  | .trigger t => ((triggers t).receive signalPtr mods).1

namespace Memory

/-- What the receiver answers when it gets the signal: whether the dispatch stops at it. -/
def blocks (mem : Memory) : Receiver → Bool
  | .ofMacro m => (mem.macros m).blocking
  | .trigger t => ((triggers t).receive signalPtr mods).2

/-- The macros that a dispatch starts, in the order of their starts. -/
def startedBy (mem : Memory) (order : List (Option Receiver)) : List MacroId :=
  (mem.reached triggers worker signalPtr mods order).filterMap
    (mem.started triggers signalPtr mods)

/-- **The hotkeys of a dispatcher**: the living macros that bind a receiver that fires to it. -/
def hotkeys (live : Finset MacroId) (mem : Memory) (d : DispatcherId) : Set MacroId :=
  {m | m ∈ live ∧ ∃ r, mem.Binds m d r ∧ r.fires triggers signalPtr mods = true}

variable {triggers worker signalPtr mods} {mem : Memory} {live : Finset MacroId}
  {order : List (Option Receiver)} {r r' : Receiver} {d : DispatcherId}

/-- The answer of a receiver does not depend on what it starts. -/
theorem receive_snd : (mem.receive triggers worker signalPtr mods r).2 =
    mem.blocks triggers signalPtr mods r := by
  cases r with
  | ofMacro m => exact start_blocking mem m m _
  | trigger t => exact receive_trigger_snd triggers worker signalPtr mods mem t

/-- Nor does the answer of the next one. -/
theorem blocks_receive : (mem.receive triggers worker signalPtr mods r).1.blocks triggers signalPtr
    mods r' = mem.blocks triggers signalPtr mods r' := by
  rcases mem.receive_cases triggers worker signalPtr mods r with heq | ⟨m, heq⟩
  · rw [heq]
  · rw [heq]
    cases r' with
    | ofMacro m' => exact start_blocking mem m m' _
    | trigger t => rfl

/-- What a receiver starts does not depend on what was started before. -/
theorem started_receive : (mem.receive triggers worker signalPtr mods r).1.started triggers
    signalPtr mods = mem.started triggers signalPtr mods := by
  rcases mem.receive_cases triggers worker signalPtr mods r with heq | ⟨m, heq⟩
  · rw [heq]
  · rw [heq, (startFrame_start mem m (worker mem m)).rest]
    rfl

/-- Only receivers of the iteration are called by a dispatch. -/
theorem mem_of_mem_reached (h : r ∈ mem.reached triggers worker signalPtr mods order) :
    some r ∈ order := by
  induction order generalizing mem with
  | nil => cases h
  | cons iter rest ih =>
    cases iter with
    | none => exact List.mem_cons_of_mem _ (ih h)
    | some r₁ =>
      rw [reached] at h
      rcases List.mem_cons.mp h with rfl | h
      · exact List.mem_cons_self
      · split_ifs at h
        · cases h
        · exact List.mem_cons_of_mem _ (ih h)

/-- **Where nobody blocks all are called.** -/
theorem mem_reached_of_not_blocks
    (hnone : ∀ r, some r ∈ order → mem.blocks triggers signalPtr mods r = false)
    (h : some r ∈ order) : r ∈ mem.reached triggers worker signalPtr mods order := by
  induction order generalizing mem with
  | nil => cases h
  | cons iter rest ih =>
    cases iter with
    | none =>
      rcases List.mem_cons.mp h with heq | h
      · cases heq
      · exact ih (fun r hr => hnone r (List.mem_cons_of_mem _ hr)) h
    | some r₁ =>
      have hfirst : (mem.receive triggers worker signalPtr mods r₁).2 = false :=
        receive_snd.trans (hnone r₁ List.mem_cons_self)
      rw [reached]
      dsimp only
      rw [hfirst, if_neg Bool.false_ne_true]
      rcases List.mem_cons.mp h with heq | h
      · obtain rfl := Option.some.inj heq
        exact List.mem_cons_self
      · refine List.mem_cons_of_mem _ (ih (fun r hr => ?_) h)
        rw [blocks_receive]
        exact hnone r (List.mem_cons_of_mem _ hr)

/-- **A dispatch starts macros, one after the other**, and does no more. -/
theorem dispatch_fst : (mem.dispatch triggers worker signalPtr mods order).1 =
    (mem.startedBy triggers worker signalPtr mods order).foldl
      (fun mem m => mem.start m (worker mem m)) mem := by
  rw [dispatch_eq_foldl_reached, startedBy]
  generalize mem.reached triggers worker signalPtr mods order = called
  induction called generalizing mem with
  | nil => rfl
  | cons r called ih =>
    rw [List.foldl_cons, ih, started_receive, receive_fst]
    cases hstarted : mem.started triggers signalPtr mods r with
    | none => rw [List.filterMap_cons_none hstarted]
    | some m => rw [List.filterMap_cons_some hstarted, List.foldl_cons]

/-- The receiver that a macro binds starts that macro, if it fires. -/
theorem Exact.started_eq (h : mem.Exact live) {m : MacroId} (hm : m ∈ live)
    (hbinds : mem.Binds m d r) : mem.started triggers signalPtr mods r =
      if r.fires triggers signalPtr mods then some m else none := by
  rcases MacroCall.owner_of_wants hbinds.2 with rfl | ⟨t, ht, rfl⟩
  · rfl
  · rw [started, Receiver.fires, h.actors m hm t ht]

/-- **A dispatch starts hotkeys only**, and all of them where nobody blocks. -/
theorem Exact.mem_startedBy (h : mem.Exact live) (horder : (mem.dispatchers d).Enumerates order)
    (m : MacroId) : (m ∈ mem.startedBy triggers worker signalPtr mods order →
        m ∈ mem.hotkeys triggers signalPtr mods live d) ∧
      ((∀ r, Registry.Has mem.dispatchers d r → mem.blocks triggers signalPtr mods r = false) →
        m ∈ mem.hotkeys triggers signalPtr mods live d →
          m ∈ mem.startedBy triggers worker signalPtr mods order) := by
  constructor
  · intro hm
    obtain ⟨r, hr, hstarted⟩ := List.mem_filterMap.mp hm
    have hhas : Registry.Has mem.dispatchers d r := (horder.2 _).mp (mem_of_mem_reached hr)
    obtain ⟨m', hm', hbinds⟩ := (h.has d r).mp hhas
    rw [h.started_eq hm' hbinds] at hstarted
    split_ifs at hstarted with hfires
    obtain rfl := Option.some.inj hstarted
    exact ⟨hm', r, hbinds, hfires⟩
  · rintro hnone ⟨hm, r, hbinds, hfires⟩
    have hhas := (h.has d r).mpr ⟨m, hm, hbinds⟩
    refine List.mem_filterMap.mpr ⟨r, mem_reached_of_not_blocks (fun r hr => ?_)
      ((horder.2 _).mpr hhas), ?_⟩
    · exact hnone r ((horder.2 _).mp hr)
    · rw [h.started_eq hm hbinds, if_pos hfires]

end Memory

end Dispatch

/-! ## The whole life -/

namespace MacroEvent

/-- The event registers nothing by hand and does not turn the registering off. -/
def automatic : MacroEvent → Bool
  | call _ c => c.automatic
  | _ => true

section Events

variable {live : Finset MacroId} {mem mem' : Memory} {m : MacroId} {event : MacroEvent}
  {events later : List MacroEvent}

/-- Without macros nothing is registered in empty dispatchers. -/
theorem exact_empty (hempty : ∀ d r, ¬ Registry.Has mem.dispatchers d r) : mem.Exact ∅ := by
  refine ⟨fun d r => iff_of_false (hempty d r) ?_, fun m hm => ?_, fun m hm => ?_, fun m hm => ?_⟩
  · rintro ⟨m, hm, -⟩
    exact Finset.notMem_empty m hm
  all_goals exact absurd hm (Finset.notMem_empty m)

/-- A new macro is disabled, and binds nothing. -/
theorem exact_create (h : mem.Exact live) (hm : m ∉ live) (context : Option ContextId) :
    (mem.createMacro m context).Exact (insert m live) := by
  have hnew : (mem.createMacro m context).macros m = { context := context } := by
    rw [Memory.createMacro, Memory.modify_macros_self]
  have hsame : ∀ m' ∈ live, (mem.createMacro m context).macros m' = mem.macros m' :=
    fun m' hm' => mem.modify_macros_of_ne m _ fun heq => hm (heq ▸ hm')
  have hbinds : ∀ m' ∈ live, ∀ d r,
      (mem.createMacro m context).Binds m' d r ↔ mem.Binds m' d r := fun m' hm' d r =>
    Memory.binds_of_others (hsame m' hm') rfl rfl
  have hcovered := covered_create h.covered hm context
  refine ⟨fun d r => ?_, hcovered.actors, fun m' hm' => ?_, fun m' hm' => ?_⟩
  · refine (h.has d r).trans ⟨?_, ?_⟩
    · rintro ⟨m', hm', hold⟩
      exact ⟨m', Finset.mem_insert_of_mem hm', (hbinds m' hm' d r).mpr hold⟩
    · rintro ⟨m', hm', hold⟩
      rcases Finset.mem_insert.mp hm' with rfl | hm'
      -- a new macro is disabled and binds nothing
      · have hen := hold.1
        rw [hnew] at hen
        cases hen
      · exact ⟨m', hm', (hbinds m' hm' d r).mp hold⟩
  · rcases Finset.mem_insert.mp hm' with rfl | hm'
    · rw [hnew]
    · rw [hsame m' hm']
      exact h.flag m' hm'
  · rcases Finset.mem_insert.mp hm' with rfl | hm'
    · rw [hnew]
      exact fun _ _ _ => rfl
    · rw [hsame m' hm']
      exact h.backed m' hm'

/-- A destroyed macro leaves the registrations of the others. -/
theorem exact_destroy (h : mem.Exact live) (hm : m ∈ live)
    (hdestroy : mem.disableEverything m = some mem') : mem'.Exact (live.erase m) := by
  have hspec := MacroCall.spec_disableEverything hdestroy
  have hbinds : ∀ m', m' ≠ m → ∀ d r, mem'.Binds m' d r ↔ mem.Binds m' d r := fun m' hne _ _ =>
    Memory.binds_of_others (hspec.others m' hne) hspec.genericDispatcher hspec.dispatcherPtr
  have hcovered := covered_destroy h.covered hdestroy
  refine ⟨fun d r => ?_, hcovered.actors, fun m' hm' => ?_, fun m' hm' => ?_⟩
  · have hhas : Registry.Has mem'.dispatchers d r ↔
        Registry.Has mem.dispatchers d r ∧ ¬ mem.Releases m d r := by
      rw [hspec.has, MacroCall.Clears, MacroCall.Adds, MacroCall.Applies, false_and, or_false]
    rw [hhas, h.has]
    constructor
    · rintro ⟨⟨m', hm', hold⟩, hnot⟩
      have hne : m' ≠ m := by
        rintro rfl
        exact hnot (h.releases hm' hold)
      exact ⟨m', Finset.mem_erase.mpr ⟨hne, hm'⟩, (hbinds m' hne d r).mpr hold⟩
    · rintro ⟨m', hm', hnew⟩
      obtain ⟨hne, hm'⟩ := Finset.mem_erase.mp hm'
      have hold := (hbinds m' hne d r).mp hnew
      refine ⟨⟨m', hm', hold⟩, fun hrel => hne ?_⟩
      -- what the destructor removes and somebody binds was the macro's own
      have htouches : MacroCall.destroy.Touches mem m r := MacroCall.touches_of_releases hrel
      exact h.eq_of_touches hm (fun _ _ _ _ ht => absurd ht List.not_mem_nil) htouches hm' hold
  · obtain ⟨hne, hm'⟩ := Finset.mem_erase.mp hm'
    rw [hspec.others m' hne]
    exact h.flag m' hm'
  · obtain ⟨hne, hm'⟩ := Finset.mem_erase.mp hm'
    rw [hspec.others m' hne]
    exact h.backed m' hm'

/-- **An event** keeps the registrations exact. -/
theorem exact_step (h : mem.Exact live) (hallowed : event.Allowed live)
    (htidy : event.Tidy live mem) (hauto : event.automatic = true)
    (hctx : ∀ m ∈ live, (mem.macros m).context ≠ none) :
    (event.run mem).1.Exact (event.liveAfter live) := by
  cases event with
  | create m context => exact exact_create h hallowed context
  | call m c => exact exact_of_call h hallowed.1 hallowed.2 (hctx m hallowed.1) htidy hauto
  | destroy m =>
    have hsome : ((mem.macros m).context).isSome = true :=
      Option.isSome_iff_ne_none.mpr (hctx m hallowed)
    obtain ⟨mem', hdestroy⟩ := MacroCall.exists_disableEverything hsome
    rw [run, hdestroy]
    exact exact_destroy h hallowed hdestroy

/-- The events of a client that configures its macros keep the registrations exact. -/
theorem exact_runs (h : mem.Exact live) (hproper : Proper (events ++ later) live)
    (htidy : AllTidy events live mem) (hauto : ∀ event ∈ events, event.automatic = true)
    (hctx : ∀ m ∈ live, (mem.macros m).context ≠ none) :
    ∃ mem', runs events mem = some mem' ∧ mem'.Exact (events.foldl liveAfter live) := by
  induction events generalizing mem live with
  | nil => exact ⟨mem, rfl, h⟩
  | cons event rest ih =>
    obtain ⟨hdef, hctx'⟩ := context_step hproper.1 hctx fun m heq => by
      subst heq
      exact htidy.1 rfl
    obtain ⟨mem', hrest, hexact⟩ :=
      ih (exact_step h hproper.1 htidy.1 (hauto _ List.mem_cons_self) hctx) hproper.2 htidy.2
        (fun event hevent => hauto event (List.mem_cons_of_mem _ hevent)) hctx'
    exact ⟨mem', by rw [runs, if_neg hdef, hrest], hexact⟩

/-- **Hotkeys start their macros.** At any time of a client that uses its macros properly and
tidily, registers nothing by hand and began with empty dispatchers: a dispatch starts macros, one
after the other; each of them lives, is enabled and binds a receiver that fires to the dispatcher;
and where no registered receiver blocks, each such macro is started. -/
theorem dispatch_starts (triggers : TriggerId → Trigger)
    (worker : Memory → MacroId → Option ThreadId) (signalPtr : Option SignalId) (mods : ModFlags)
    (hproper : Proper (events ++ later) ∅) (htidy : AllTidy events ∅ mem)
    (hauto : ∀ event ∈ events, event.automatic = true)
    (hempty : ∀ d r, ¬ Registry.Has mem.dispatchers d r) :
    ∃ mem', runs events mem = some mem' ∧
      ∀ d order, (mem'.dispatchers d).Enumerates order → ∃ starts : List MacroId,
        (mem'.dispatch triggers worker signalPtr mods order).1 =
          starts.foldl (fun mem m => mem.start m (worker mem m)) mem' ∧
        (∀ m ∈ starts, m ∈ mem'.hotkeys triggers signalPtr mods (living events) d) ∧
        ((∀ r, Registry.Has mem'.dispatchers d r →
            mem'.blocks triggers signalPtr mods r = false) →
          ∀ m ∈ mem'.hotkeys triggers signalPtr mods (living events) d, m ∈ starts) := by
  obtain ⟨mem', hruns, hexact⟩ := exact_runs (exact_empty hempty) hproper htidy hauto
    fun m hm => absurd hm (Finset.notMem_empty m)
  refine ⟨mem', hruns, fun d order horder => ⟨_, Memory.dispatch_fst, fun m hm => ?_,
    fun hnone m hm => ?_⟩⟩
  · exact (hexact.mem_startedBy horder m).1 hm
  · exact (hexact.mem_startedBy horder m).2 hnone hm

/-- Two macros with the same activator, of which one has a trigger and is enabled. -/
def sameActivator : List MacroEvent :=
  [.create 0 (some 0), .call 0 (.block (.setActivators [7])), .call 0 (.block (.setTriggers [5])),
    .call 0 (.setEnabled true), .create 1 (some 1), .call 1 (.block (.setActivators [7]))]

/-- The calls of the two macros are tidy. -/
theorem allTidy_sameActivator : AllTidy sameActivator ∅ (.ofMacro {}) := by
  refine ⟨Option.some_ne_none 0, ?_, ⟨?_, ?_⟩, ?_, Option.some_ne_none 1, ?_, trivial⟩
  · show Macro.Backed _
    decide
  · show Macro.Backed _
    decide
  · intro m' hm' hne
    exact absurd (Finset.mem_singleton.mp hm') hne
  · intro _
    show Macro.Backed _
    decide
  · show Macro.Backed _
    decide

/-- The enabled macro is started when its signal comes without modifiers, and the other is not. -/
theorem dispatch_starts_one : ∃ mem', runs sameActivator (.ofMacro {}) = some mem' ∧
    ∀ order, (mem'.dispatchers 1).Enumerates order → ∃ starts : List MacroId,
      (mem'.dispatch (fun _ => ⟨.action 0 .equal, false⟩) (fun _ _ => some 9) (some 7) 0 order).1 =
        starts.foldl (fun mem m => mem.start m (some 9)) mem' ∧ 0 ∈ starts ∧ 1 ∉ starts := by
  obtain ⟨mem', hruns, hall⟩ := @dispatch_starts (.ofMacro {}) sameActivator
    [.destroy 0, .destroy 1] (fun _ => ⟨.action 0 .equal, false⟩) (fun _ _ => some 9) (some 7) 0
    (by decide) allTidy_sameActivator (by decide) fun d r => Finset.notMem_empty _
  refine ⟨mem', hruns, fun order horder => ?_⟩
  obtain ⟨starts, hstarts, honly, hmust⟩ := hall 1 order horder
  have hsetup : (runs sameActivator (.ofMacro {})).map (fun mem =>
      ((mem.dispatchers 1).receivers, (mem.macros 0).enabled, (mem.macros 1).enabled)) =
        some ({some (.trigger 5)}, true, false) := by decide
  have hwants : (runs sameActivator (.ofMacro {})).map (fun mem =>
      ((mem.macros 0).activators, (mem.macros 0).triggers, mem.contextDispatcher 0,
        mem.dispatcherPtr 7)) = some ([7], [5], some (some 0), some 1) := by decide
  rw [hruns, Option.map_some, Option.some_inj] at hsetup hwants
  simp only [Prod.mk.injEq] at hsetup hwants
  obtain ⟨hregistered, hen, hdis⟩ := hsetup
  obtain ⟨hact, htrig, hctx, hptr⟩ := hwants
  refine ⟨starts, hstarts, hmust ?_ 0 ⟨by decide, .trigger 5, ⟨hen, some 0, hctx, ?_⟩, by decide⟩,
    fun hone => ?_⟩
  · -- the trigger does not block
    intro r hhas
    have hr : some r ∈ (mem'.dispatchers 1).receivers := hhas
    rw [hregistered, Finset.mem_singleton] at hr
    obtain rfl := Option.some.inj hr
    rfl
  · rw [Memory.Wanted, hact, htrig, if_neg (List.cons_ne_nil _ _), if_neg (List.cons_ne_nil _ _)]
    refine ⟨⟨7, List.mem_singleton_self 7, hptr⟩, 5, ?_, rfl⟩
    rw [htrig]
    exact List.mem_singleton_self 5
  · obtain ⟨-, r, hbinds, -⟩ := honly 1 hone
    rw [hbinds.1] at hdis
    cases hdis

end Events

end MacroEvent

end Libmacro
