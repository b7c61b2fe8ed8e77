import Libmacro.ContextChange
import Libmacro.NullContext

/-! # Receivers that live

A dispatcher keeps raw pointers: the receivers it calls have to live. Over the whole life of a
client's macros (`MacroEvent`), from their creation to their destruction, every registered pair
stays one that the destructor of a living macro takes away (`Memory.Covered`), as long as no call
puts a pair where `_removeDispatch` does not look for it (`PublicCall.Tidy`): a trigger on the
generic dispatcher, an activator that the macro does not have, or a trigger of two macros.

`registered_live`: such a client reads no null context, a dispatch at any time starts living macros
only, and nothing is registered any more when the last macro has been destroyed. -/

namespace Libmacro

namespace Memory

/-- The macro that the receiver is, or that it starts as a trigger. -/
def target (mem : Memory) : Receiver → Option MacroId
  | .ofMacro m => some m
  | .trigger t => mem.actorPtr t

/-- **The registrations are covered**: `_removeDispatch` of a living macro removes each pair, and
the receiver starts this macro. -/
structure Covered (live : Finset MacroId) (mem : Memory) : Prop where
  has : ∀ d r, Registry.Has mem.dispatchers d r →
    ∃ m ∈ live, mem.target r = some m ∧ mem.Releases m d r
  /-- A living macro is the actor of its triggers. -/
  actors : ∀ m ∈ live, ∀ t ∈ (mem.macros m).triggers, mem.actorPtr t = some m

/-- No other living macro has one of the triggers, so that they have one actor to serve. -/
def Unshared (live : Finset MacroId) (mem : Memory) (m : MacroId) (array : List TriggerId) : Prop :=
  ∀ m' ∈ live, m' ≠ m → ∀ t ∈ array, t ∉ (mem.macros m').triggers

end Memory

/-- **The macro registers what it can remove**: triggers only together with activators. -/
def Macro.Backed (mac : Macro) : Prop :=
  mac.applyDispatchFlag = true → mac.enabled = true → mac.activators = [] → mac.triggers = []

/-- Whether a macro is backed is read off its flag, its interruptor and two of its lists. -/
instance (mac : Macro) : Decidable mac.Backed := inferInstanceAs (Decidable (_ → _ → _ → _))

/-- **The block is tidy**: `_removeDispatch` finds what it registers. -/
def Block.Tidy (live : Finset MacroId) (mem : Memory) (m : MacroId) : Block → Prop
  | setActivators array => { mem.macros m with activators := array }.Backed
  | setTriggers array =>
    { mem.macros m with triggers := array }.Backed ∧ mem.Unshared live m array
  | applyDispatch => (mem.macros m).Backed
  | addDispatch => (mem.macros m).activators = [] → (mem.macros m).triggers = []
  | addDispatchSignal signalPtr =>
    ∀ d, mem.dispatcherPtr signalPtr = some d → mem.Releases m d (.ofMacro m)
  | addDispatchTrigger trigPtr =>
    ∀ d, mem.contextDispatcher m = some (some d) → mem.Releases m d (.trigger trigPtr)
  | addDispatchPair signalPtr trigPtr =>
    ∀ d, mem.dispatcherPtr signalPtr = some d → mem.Releases m d (.trigger trigPtr)
  | _ => True

/-- **The call is tidy.** `clearAll` takes the activators first, while the triggers are there. -/
def PublicCall.Tidy (live : Finset MacroId) (mem : Memory) (m : MacroId) : PublicCall → Prop
  | block b => b.Tidy live mem m
  | setInterruptor val _ =>
    ∀ v, Interrupt.ofCode? val = some v → { mem.macros m with interruptor := v }.Backed
  | setEnabled val => val = true → { mem.macros m with interruptor := .continue }.Backed
  | clearAll => { mem.macros m with activators := [] }.Backed
  | copy other => (mem.macros other).Backed ∧ mem.Unshared live m (mem.macros other).triggers

namespace MacroEvent

/-- The event is tidy, and gives a new macro a context. -/
def Tidy (live : Finset MacroId) (mem : Memory) : MacroEvent → Prop
  | create _ context => context ≠ none
  | call m c => c.Tidy live mem m
  | destroy _ => True

/-- Every event of the client is tidy in the memory in which it comes. -/
def AllTidy : List MacroEvent → Finset MacroId → Memory → Prop
  | [], _, _ => True
  | event :: rest, live, mem =>
    event.Tidy live mem ∧ AllTidy rest (event.liveAfter live) (event.run mem).1

/-- The macros that live after the events, when none lived before. -/
def living (events : List MacroEvent) : Finset MacroId := events.foldl liveAfter ∅

end MacroEvent

/-! ## What a change of one macro does to the registrations -/

section Changes

variable {live : Finset MacroId} {mem mem' : Memory} {m : MacroId} {d : DispatcherId} {r : Receiver}

/-- **The memories differ by a change of macro `m`** that registers nothing it will not remove. -/
structure Changes (live : Finset MacroId) (m : MacroId) (mem mem' : Memory) : Prop where
  others : ∀ m', m' ≠ m → mem'.macros m' = mem.macros m'
  genericDispatcher : mem'.genericDispatcher = mem.genericDispatcher
  dispatcherPtr : mem'.dispatcherPtr = mem.dispatcherPtr
  /-- A trigger that gets the macro as its actor is no other macro's. -/
  actorPtr : ∀ t, mem'.actorPtr t = mem.actorPtr t ∨
    mem'.actorPtr t = some m ∧ mem.Unshared live m [t]
  triggers : ∀ t ∈ (mem'.macros m).triggers,
    t ∈ (mem.macros m).triggers ∨ mem'.actorPtr t = some m
  /-- A pair that stays is still removed, and so is one that is new. -/
  has : ∀ d r, Registry.Has mem'.dispatchers d r →
    Registry.Has mem.dispatchers d r ∧ (mem.Releases m d r → mem'.Releases m d r) ∨
      mem'.Releases m d r

namespace Memory

/-- The receiver that is removed is the macro or a trigger of it. -/
theorem Covered.target_of_releases
    (hactors : ∀ t ∈ (mem.macros m).triggers, mem.actorPtr t = some m)
    (h : mem.Releases m d r) : mem.target r = some m := by
  rcases MacroCall.owner_of_releases h with rfl | ⟨t, ht, rfl⟩
  · rfl
  · exact hactors t ht

/-- What `_removeDispatch` removes depends on the activators, the triggers and the context. -/
theorem releases_congr {m' : MacroId}
    (hmac : (mem'.macros m').activators = (mem.macros m').activators ∧
      (mem'.macros m').triggers = (mem.macros m').triggers ∧
      (mem'.macros m').context = (mem.macros m').context)
    (hgeneric : mem'.genericDispatcher = mem.genericDispatcher)
    (hptr : mem'.dispatcherPtr = mem.dispatcherPtr) :
    mem'.Releases m' d r ↔ mem.Releases m' d r := by
  obtain ⟨hact, htrig, hctx⟩ := hmac
  simp only [Releases, contextDispatcher, Released, IsTrigger, DispatcherOf, hact, htrig, hctx,
    hgeneric, hptr]

/-- **What is wanted is removed again**, of a macro that has activators for its triggers. -/
theorem releases_of_wants (h : mem.Wants m d r)
    (hbacked : (mem.macros m).activators = [] → (mem.macros m).triggers = []) :
    mem.Releases m d r := by
  obtain ⟨g, hg, hw⟩ := h
  refine ⟨g, hg, ?_⟩
  by_contra hnot
  obtain ⟨ha, -, t, ht, -⟩ := wanted_not_released_iff.mp ⟨hw, hnot⟩
  rw [hbacked ha] at ht
  cases ht

/-- **A change keeps the registrations covered.** -/
theorem Covered.change (h : mem.Covered live) (hm : m ∈ live) (hchange : Changes live m mem mem') :
    mem'.Covered live := by
  have hactors : ∀ m' ∈ live, ∀ t ∈ (mem'.macros m').triggers, mem'.actorPtr t = some m' := by
    intro m' hm' t ht
    by_cases heq : m' = m
    · subst heq
      rcases hchange.triggers t ht with hold | hnew
      · rcases hchange.actorPtr t with hsame | ⟨hnew, -⟩
        · rw [hsame]
          exact h.actors m' hm' t hold
        · exact hnew
      · exact hnew
    · -- the trigger of another macro is not given away
      rw [hchange.others m' heq] at ht
      rcases hchange.actorPtr t with hsame | ⟨-, hunshared⟩
      · rw [hsame]
        exact h.actors m' hm' t ht
      · exact absurd ht (hunshared m' hm' heq t (List.mem_singleton.mpr rfl))
  refine ⟨fun d r hhas => ?_, hactors⟩
  have hown : mem'.Releases m d r →
      ∃ m' ∈ live, mem'.target r = some m' ∧ mem'.Releases m' d r :=
    fun hrel => ⟨m, hm, Covered.target_of_releases (hactors m hm) hrel, hrel⟩
  rcases hchange.has d r hhas with ⟨hold, hkept⟩ | hrel
  · obtain ⟨m', hm', -, hrel⟩ := h.has d r hold
    by_cases heq : m' = m
    · subst heq
      exact hown (hkept hrel)
    · have hrel' : mem'.Releases m' d r := by
        have hmac := hchange.others m' heq
        exact (releases_congr (by rw [hmac]; exact ⟨rfl, rfl, rfl⟩) hchange.genericDispatcher
          hchange.dispatcherPtr).mpr hrel
      exact ⟨m', hm', Covered.target_of_releases (hactors m' hm') hrel', hrel'⟩
  · exact hown hrel

end Memory

/-! ## Calls -/

namespace Changes

open Memory

/-- A change that changes nothing registers nothing. -/
theorem refl (live : Finset MacroId) (m : MacroId) (mem : Memory) : Changes live m mem mem where
  others := fun _ _ => rfl
  genericDispatcher := rfl
  dispatcherPtr := rfl
  actorPtr := fun _ => .inl rfl
  triggers := fun _ ht => .inl ht
  has := fun _ _ hhas => .inl ⟨hhas, fun hrel => hrel⟩

/-- Registrations that change alone: a new pair is one that the macro would remove. -/
theorem withDispatchers {reg : Registry}
    (hhas : ∀ d r, reg.Has d r → Registry.Has mem.dispatchers d r ∨ mem.Releases m d r) :
    Changes live m mem { mem with dispatchers := reg } :=
  { refl live m mem with has := fun d r h => (hhas d r h).imp_left fun hold => ⟨hold, id⟩ }

/-- Fields of the macro that its registration does not depend on. -/
theorem modify {f : Macro → Macro}
    (hact : (f (mem.macros m)).activators = (mem.macros m).activators)
    (htrig : (f (mem.macros m)).triggers = (mem.macros m).triggers)
    (hctx : (f (mem.macros m)).context = (mem.macros m).context) :
    Changes live m mem (mem.modify m f) where
  others := fun m' hm => mem.modify_macros_of_ne m f hm
  genericDispatcher := rfl
  dispatcherPtr := rfl
  actorPtr := fun _ => .inl rfl
  triggers := fun t ht => .inl (by rwa [modify_macros_self, htrig] at ht)
  has := fun d r hhas => .inl ⟨hhas, fun hrel => by
    have hiff : (mem.modify m f).Releases m d r ↔ mem.Releases m d r :=
      releases_congr (by simpa using ⟨hact, htrig, hctx⟩) rfl rfl
    exact hiff.mpr hrel⟩

/-- **A call that applies the dispatch**, given what it does to the dispatchers. -/
theorem of_spec {call : MacroCall} (h : MacroCall.Spec mem mem' m call)
    (hunshared : mem.Unshared live m (call.gives mem m)) (hbacked : (mem'.macros m).Backed)
    (hkept : ∀ d r, ¬ call.Clears mem m d r → mem.Releases m d r → mem'.Releases m d r) :
    Changes live m mem mem' where
  others := h.others
  genericDispatcher := h.genericDispatcher
  dispatcherPtr := h.dispatcherPtr
  actorPtr := fun t => by
    rw [h.actorPtr]
    split_ifs with ht
    · refine .inr ⟨rfl, fun m' hm' hne t' ht' => ?_⟩
      rw [List.mem_singleton.mp ht']
      exact hunshared m' hm' hne t ht
    · exact .inl rfl
  triggers := fun t ht => (h.triggers t ht).imp_right fun hgiven => by
    rw [h.actorPtr, if_pos hgiven]
  has := fun d r hhas => by
    rcases (h.has d r).mp hhas with ⟨hold, hclears⟩ | ⟨-, hflag, hen, hwants⟩
    · exact .inl ⟨hold, hkept d r hclears⟩
    · exact .inr (releases_of_wants hwants (hbacked hflag hen))

/-- A macro configured as one that is backed. -/
theorem backed_of_setup {mem₁ : Memory} (hsetup : Memory.SameSetup mem₁ mem' m)
    (hinterruptor : (mem'.macros m).interruptor = (mem₁.macros m).interruptor)
    (h : (mem₁.macros m).Backed) : (mem'.macros m).Backed := by
  rw [Macro.Backed, hsetup.flag, hsetup.activators, hsetup.triggers, Macro.enabled, hinterruptor]
  exact h

/-- `setActivators` and `setTriggers` remove what was registered, with the old configuration. -/
theorem of_config {call : ConfigCall} (h : call.run mem m = some mem')
    (hunshared : mem.Unshared live m ((MacroCall.config call).gives mem m))
    (hbacked : ((call.configure mem m).macros m).Backed)
    (hkept : ∀ d r, ¬ (MacroCall.config call).Clears mem m d r → mem.Releases m d r →
      mem'.Releases m d r) : Changes live m mem mem' := by
  obtain ⟨hsetup, hinterruptor⟩ := ConfigCall.setup_run h
  have hspec : MacroCall.Spec mem mem' m (.config call) := MacroCall.run_spec h
  exact of_spec hspec hunshared (backed_of_setup hsetup hinterruptor hbacked) hkept

/-- **A tidy block** changes the macro and registers nothing it will not remove. -/
theorem of_block {b : Block} (hctx : (mem.macros m).context ≠ none) (htidy : b.Tidy live mem m)
    (h : b.apply m mem = some mem') : Changes live m mem mem' := by
  obtain ⟨ctx, hm⟩ := Option.ne_none_iff_exists'.mp hctx
  have hdisp := contextDispatcher_of_context hm
  cases b with
  | setActivators array =>
    -- the old pairs are removed, and the new ones are backed
    have hrun : (ConfigCall.setActivators array).run mem m = some mem' := h
    exact of_config hrun (fun _ _ _ _ ht => absurd ht List.not_mem_nil)
      (by rw [ConfigCall.configure, modify_macros_self]; exact htidy)
      fun d r hclears hrel => absurd (.inl hrel) hclears
  | setTriggers array =>
    have hrun : (ConfigCall.setTriggers array).run mem m = some mem' := h
    exact of_config hrun htidy.2
      (by rw [ConfigCall.configure, modify_macros_self]; exact htidy.1)
      fun d r hclears hrel => absurd (.inl hrel) hclears
  | applyDispatch =>
    obtain ⟨reg, -, rfl⟩ := Option.map_eq_some_iff.mp h
    have hrun : ConfigCall.applyDispatch.run mem m = some _ := h
    exact of_config hrun (fun _ _ _ _ ht => absurd ht List.not_mem_nil) htidy
      fun d r _ hrel => hrel
  | removeDispatch =>
    obtain ⟨reg, hreg, rfl⟩ := Option.map_eq_some_iff.mp h
    exact withDispatchers fun d r hhas => .inl ((has_removeDispatch_of_eq hreg).mp hhas).1
  | addDispatch =>
    obtain ⟨reg, hreg, rfl⟩ := Option.map_eq_some_iff.mp h
    obtain ⟨reg', hreg', hhas⟩ := has_addDispatch mem.dispatchers hdisp
    obtain rfl := Option.some.inj (hreg.symm.trans hreg')
    -- what is added by hand is removed again because the block is tidy
    refine withDispatchers fun d r hr => ((hhas d r).mp hr).imp_right fun hwanted => ?_
    exact releases_of_wants ⟨_, hdisp, hwanted⟩ htidy
  | addDispatchSignal signalPtr =>
    obtain rfl := Option.some.inj h
    refine withDispatchers fun d r hr => (has_addDispatchSignal.mp hr).imp_right ?_
    rintro ⟨hptr, rfl⟩
    exact htidy d hptr
  | addDispatchTrigger trigPtr =>
    obtain ⟨reg, hreg, rfl⟩ := Option.map_eq_some_iff.mp h
    rw [addDispatchTrigger_eq hdisp] at hreg
    obtain rfl := Option.some.inj hreg
    refine withDispatchers fun d r hr => ?_
    -- without a generic dispatcher nothing is added
    cases hg : mem.genericDispatcher ctx with
    | none =>
      rw [hg] at hr
      exact .inl hr
    | some g =>
      rw [hg] at hr
      rcases Registry.has_add.mp hr with ⟨rfl, rfl⟩ | hold
      · exact .inr (htidy d (by rw [hdisp, hg]))
      · exact .inl hold
  | addDispatchPair signalPtr trigPtr =>
    obtain rfl := Option.some.inj h
    refine withDispatchers fun d r hr => (has_addDispatchPair.mp hr).imp_right ?_
    rintro ⟨hptr, rfl⟩
    exact htidy d hptr
  | setSignals array =>
    rw [Block.apply] at h
    split_ifs at h
    · exact Option.some.inj h ▸ refl live m mem
    · exact Option.some.inj h ▸ modify rfl rfl rfl
  | _ => exact Option.some.inj h ▸ modify rfl rfl rfl

/-- The member function that is the block, whether it throws or not. -/
theorem of_block_call {b : Block} (hctx : (mem.macros m).context ≠ none)
    (htidy : b.Tidy live mem m) : Changes live m mem (b.call m mem).1 := by
  rw [Block.call]
  cases h : b.apply m mem with
  | none => exact refl live m mem
  | some mem' => exact of_block hctx htidy h

/-- The stored value enables and disables like the given one. -/
theorem backed_of_setInterruptor {val : Interrupt}
    (hbacked : { mem.macros m with interruptor := val }.Backed) :
    (((ConfigCall.setInterruptor val).configure mem m).macros m).Backed := by
  have henabled : (MacroCall.config (.setInterruptor val)).interruptorAfter mem m ≠ .disable →
      val ≠ .disable := by
    rintro hafter rfl
    refine hafter ?_
    rw [MacroCall.interruptorAfter, Macro.interruptorAfter]
    split_ifs with hsame hall
    · rfl
    · exact absurd hall.1 (by decide)
    · rfl
  rw [ConfigCall.configure, modify_macros_self]
  exact fun hflag hen => hbacked hflag (Macro.enabled_iff.mpr (henabled (Macro.enabled_iff.mp hen)))

/-- `setInterruptor` keeps the configuration, and so what the macro would remove. -/
theorem of_setInterruptor {val : Interrupt} {flag : Bool}
    (h : mem.setInterruptor m val = some (mem', flag))
    (hbacked : { mem.macros m with interruptor := val }.Backed) : Changes live m mem mem' := by
  have hrun : (ConfigCall.setInterruptor val).run mem m = some mem' := by
    rw [ConfigCall.run, h, Option.map_some]
  obtain ⟨hsetup, -⟩ := MacroCall.setup_setInterruptor h
  exact of_config hrun (fun _ _ _ _ ht => absurd ht List.not_mem_nil)
    (backed_of_setInterruptor hbacked) fun d r _ hrel => (Releases.congr hsetup).mpr hrel

/-- `interrupt`, whatever the value and however it ends. -/
theorem of_interrupt {val : ℤ} {creates : Bool}
    (hbacked : ∀ v, Interrupt.ofCode? val = some v →
      { mem.macros m with interruptor := v }.Backed) :
    Changes live m mem (mem.interrupt m val creates).1 := by
  rw [Memory.interrupt]
  split
  · exact refl live m mem
  · next v hval =>
    split
    · exact refl live m mem
    · next mem' flag hset => exact of_setInterruptor hset (hbacked v hval)

/-- `copy` leaves the configuration of the macro it copies. -/
theorem backed_copy {other : MacroId} (h : mem.copy m other = some mem') (hself : m ≠ other) :
    (mem'.macros m).applyDispatchFlag = (mem.macros other).applyDispatchFlag ∧
      ((mem'.macros m).Backed ↔ (mem.macros other).Backed) := by
  rw [Memory.copy, if_neg hself] at h
  obtain ⟨mem₁, h₁, h⟩ := Option.bind_eq_some_iff.mp h
  obtain ⟨reg, -, rfl⟩ := Option.map_eq_some_iff.mp h
  have hother := (MacroCall.spec_disableEverything h₁).others other (Ne.symm hself)
  obtain ⟨n, q, hlimit⟩ := Macro.limitMaxThreads_frame (mem₁.copyFrom m other).threadLimit
    ((mem₁.copyFrom m other).macros m)
  dsimp only
  rw [modify_macros_self, hlimit, MacroCall.macros_copyFrom, hother]
  exact ⟨rfl, Iff.rfl⟩

/-- `copy` of a macro that is backed. -/
theorem of_copy {other : MacroId} (h : mem.copy m other = some mem')
    (hbacked : (mem.macros other).Backed)
    (hunshared : mem.Unshared live m (mem.macros other).triggers) : Changes live m mem mem' := by
  have hspec := MacroCall.spec_copy h
  by_cases hself : m = other
  · rw [Memory.copy, if_pos hself] at h
    exact Option.some.inj h ▸ refl live m mem
  refine of_spec hspec ?_ ((backed_copy h hself).2.mpr hbacked)
    fun d r hclears hrel => absurd ⟨hself, .inl hrel⟩ hclears
  rwa [MacroCall.gives, if_neg hself]

end Changes

/-- A block of a sequence, and the rest of it. -/
theorem covered_runBlocks_cons {b : Block} {rest : List Block} (h : mem.Covered live)
    (hm : m ∈ live) (hctx : (mem.macros m).context ≠ none) (htidy : b.Tidy live mem m)
    (hrest : ∀ mem' : Memory, mem'.Covered live → (mem'.macros m).context ≠ none →
      (runBlocks m rest mem').1.Covered live) : (runBlocks m (b :: rest) mem).1.Covered live := by
  have hcall := h.change hm (Changes.of_block_call hctx htidy)
  have hconf := b.confined_call m mem
  rw [runBlocks]
  split
  · next mem₁ heq =>
    rw [heq] at hcall hconf
    exact hrest mem₁ hcall (by rwa [hconf.context])
  · next mem₁ stop heq =>
    rw [heq] at hcall
    exact hcall

/-- `setEnabled` is `setInterruptor` with `CONTINUE` or `DISABLE`. -/
theorem backed_of_setEnabled {val : Bool}
    (hbacked : val = true → { mem.macros m with interruptor := .continue }.Backed) (v : Interrupt)
    (hv : Interrupt.ofCode? (if val then Interrupt.continue else Interrupt.disable).code = some v) :
    { mem.macros m with interruptor := v }.Backed := by
  cases val with
  | true =>
    obtain rfl : Interrupt.continue = v := by simpa using hv
    exact hbacked rfl
  | false =>
    obtain rfl : Interrupt.disable = v := by simpa using hv
    exact fun _ hen => absurd rfl (Macro.enabled_iff.mp hen)

/-- **A tidy call keeps the registrations covered.** -/
theorem PublicCall.covered {c : PublicCall} (h : mem.Covered live) (hm : m ∈ live)
    (hctx : (mem.macros m).context ≠ none) (htidy : c.Tidy live mem m) :
    (c.run mem m).1.Covered live := by
  cases c with
  | block b => exact h.change hm (Changes.of_block_call hctx htidy)
  | setInterruptor val creates => exact h.change hm (Changes.of_interrupt htidy)
  | setEnabled val => exact h.change hm (Changes.of_interrupt (backed_of_setEnabled htidy))
  | clearAll =>
    refine covered_runBlocks_cons h hm hctx htidy fun mem₁ h₁ hctx₁ => ?_
    refine covered_runBlocks_cons h₁ hm hctx₁ trivial fun mem₂ h₂ hctx₂ => ?_
    refine covered_runBlocks_cons h₂ hm hctx₂ ⟨fun _ _ _ => rfl, fun _ _ _ t ht => ?_⟩
      fun mem₃ h₃ _ => h₃
    exact absurd ht List.not_mem_nil
  | copy other =>
    rw [PublicCall.run]
    cases hcopy : mem.copy m other with
    | none => exact h
    | some mem' => exact h.change hm (Changes.of_copy hcopy htidy.1 htidy.2)

end Changes

/-! ## The whole life -/

namespace MacroEvent

section Events

variable {live : Finset MacroId} {mem mem' : Memory} {m : MacroId} {event : MacroEvent}
  {events before later : List MacroEvent} {d : DispatcherId} {r : Receiver}

/-- A new macro has nothing registered. -/
theorem covered_create (h : mem.Covered live) (hm : m ∉ live) (context : Option ContextId) :
    (mem.createMacro m context).Covered (insert m live) := by
  have hsame : ∀ m' ∈ live, (mem.createMacro m context).macros m' = mem.macros m' := by
    intro m' hm'
    exact mem.modify_macros_of_ne m _ fun heq => hm (heq ▸ hm')
  constructor
  · intro d r hhas
    obtain ⟨m', hm', htarget, hrel⟩ := h.has d r hhas
    refine ⟨m', Finset.mem_insert_of_mem hm', htarget, ?_⟩
    have hiff : (mem.createMacro m context).Releases m' d r ↔ mem.Releases m' d r :=
      Memory.releases_congr (by rw [hsame m' hm']; exact ⟨rfl, rfl, rfl⟩) rfl rfl
    exact hiff.mpr hrel
  · intro m' hm' t ht
    rcases Finset.mem_insert.mp hm' with rfl | hm'
    · rw [Memory.createMacro, Memory.modify_macros_self] at ht
      cases ht
    · rw [hsame m' hm'] at ht
      exact h.actors m' hm' t ht

/-- A destroyed macro has nothing registered. -/
theorem covered_destroy (h : mem.Covered live) (hdestroy : mem.disableEverything m = some mem') :
    mem'.Covered (live.erase m) := by
  have hspec := MacroCall.spec_disableEverything hdestroy
  have hactor : mem'.actorPtr = mem.actorPtr :=
    funext fun t => (hspec.actorPtr t).trans (if_neg List.not_mem_nil)
  constructor
  · intro d r hhas
    have hold : Registry.Has mem.dispatchers d r ∧ ¬ mem.Releases m d r := by
      rcases (hspec.has d r).mp hhas with hold | ⟨happlies, -⟩
      · exact hold
      · exact happlies.elim
    obtain ⟨m', hm', htarget, hrel⟩ := h.has d r hold.1
    -- the pair has outlived the destructor, so it is another macro's
    have hne : m' ≠ m := fun heq => hold.2 (heq ▸ hrel)
    refine ⟨m', Finset.mem_erase.mpr ⟨hne, hm'⟩, ?_, ?_⟩
    · cases r with
      | ofMacro m => exact htarget
      | trigger t => exact (congrFun hactor t).trans htarget
    · refine (Memory.releases_congr ?_ hspec.genericDispatcher hspec.dispatcherPtr).mpr hrel
      rw [hspec.others m' hne]
      exact ⟨rfl, rfl, rfl⟩
  · intro m' hm' t ht
    obtain ⟨hne, hm'⟩ := Finset.mem_erase.mp hm'
    rw [hspec.others m' hne] at ht
    rw [hactor]
    exact h.actors m' hm' t ht

/-- **A tidy event** keeps the registrations covered. -/
theorem covered_step (h : mem.Covered live) (hallowed : event.Allowed live)
    (htidy : event.Tidy live mem) (hctx : ∀ m ∈ live, (mem.macros m).context ≠ none) :
    (event.run mem).1.Covered (event.liveAfter live) := by
  cases event with
  | create m context => exact covered_create h hallowed context
  | call m c => exact PublicCall.covered h hallowed.1 (hctx m hallowed.1) htidy
  | destroy m =>
    have hsome : ((mem.macros m).context).isSome = true :=
      Option.isSome_iff_ne_none.mpr (hctx m hallowed)
    obtain ⟨mem', hdestroy⟩ := MacroCall.exists_disableEverything hsome
    rw [run, hdestroy]
    exact covered_destroy h hdestroy

/-- Tidy events, each of them possible: they read no null context, and keep the registrations
covered. -/
theorem covered_runs (h : mem.Covered live) (hproper : Proper (events ++ later) live)
    (htidy : AllTidy (events ++ later) live mem)
    (hctx : ∀ m ∈ live, (mem.macros m).context ≠ none) :
    ∃ mem', runs events mem = some mem' ∧ mem'.Covered (events.foldl liveAfter live) := by
  induction events generalizing mem live with
  | nil => exact ⟨mem, rfl, h⟩
  | cons event rest ih =>
    obtain ⟨hdef, hctx'⟩ := context_step hproper.1 hctx fun m heq => by
      subst heq
      exact htidy.1 rfl
    obtain ⟨mem', hrest, hcovered⟩ :=
      ih (covered_step h hproper.1 htidy.1 hctx) hproper.2 htidy.2 hctx'
    refine ⟨mem', ?_, hcovered⟩
    rw [runs, if_neg hdef, hrest]

/-- Nothing lives when a proper client is done. -/
theorem foldl_liveAfter_of_proper (h : Proper events live) : events.foldl liveAfter live = ∅ := by
  induction events generalizing live with
  | nil => exact h
  | cons event rest ih => exact ih h.2

/-- **Registered receivers live.** A client that uses its macros properly and tidily, on
dispatchers that are empty when it begins: at any time each registered receiver starts a living
macro whose destructor takes it away; and when the client has destroyed its macros, nothing is
registered any more. -/
theorem registered_live (hproper : Proper events ∅) (htidy : AllTidy events ∅ mem)
    (hempty : ∀ d r, ¬ Registry.Has mem.dispatchers d r) :
    (∃ mem', runs events mem = some mem' ∧ ∀ d r, ¬ Registry.Has mem'.dispatchers d r) ∧
      ∀ before later, events = before ++ later →
        ∃ mem', runs before mem = some mem' ∧ ∀ d r, Registry.Has mem'.dispatchers d r →
          ∃ m ∈ living before, mem'.target r = some m ∧ mem'.Releases m d r := by
  have hbegin : mem.Covered ∅ :=
    ⟨fun d r hhas => absurd hhas (hempty d r), fun m hm => absurd hm (Finset.notMem_empty m)⟩
  have hall : ∀ before later, events = before ++ later →
      ∃ mem', runs before mem = some mem' ∧ mem'.Covered (living before) := by
    rintro before later rfl
    exact covered_runs hbegin hproper htidy fun m hm => absurd hm (Finset.notMem_empty m)
  refine ⟨?_, fun before later heq => ?_⟩
  · obtain ⟨mem', hruns, hcovered⟩ := hall events [] (List.append_nil events).symm
    rw [living, foldl_liveAfter_of_proper hproper] at hcovered
    refine ⟨mem', hruns, fun d r hhas => ?_⟩
    obtain ⟨m, hm, -⟩ := hcovered.has d r hhas
    exact absurd hm (Finset.notMem_empty m)
  · obtain ⟨mem', hruns, hcovered⟩ := hall before later heq
    exact ⟨mem', hruns, hcovered.has⟩

/-- A macro with an activator and a trigger, and one that is enabled, gets an activator and is
cleared. -/
theorem registered_live_two :
    ∃ mem', runs [.create 0 (some 0), .call 0 (.block (.setActivators [7])),
        .call 0 (.block (.setTriggers [5])), .call 0 (.setEnabled true), .create 1 (some 1),
        .call 1 (.setEnabled true), .call 1 (.block (.setActivators [7])), .destroy 0,
        .call 1 .clearAll, .destroy 1] (.ofMacro {}) = some mem' ∧
      ∀ d r, ¬ Registry.Has mem'.dispatchers d r := by
  refine (registered_live (by decide) ?_ fun d r => Finset.notMem_empty _).1
  refine ⟨Option.some_ne_none 0, ?_, ⟨?_, ?_⟩, ?_, Option.some_ne_none 1, ?_, ?_, trivial, ?_,
    trivial, trivial⟩
  · show Macro.Backed _
    decide
  · show Macro.Backed _
    decide
  -- the triggers are given while macro 0 is the only one
  · intro m' hm' hne
    exact absurd (Finset.mem_singleton.mp hm') hne
  · intro _
    show Macro.Backed _
    decide
  · intro _
    show Macro.Backed _
    decide
  · show Macro.Backed _
    decide
  · show Macro.Backed _
    decide

/-- A macro that has triggers cannot be cleared while it is enabled: its trigger stays with the
generic dispatcher, and outlives it. -/
example : ((runs [.create 0 (some 0), .call 0 (.block (.setActivators [7])),
      .call 0 (.block (.setTriggers [5])), .call 0 (.setEnabled true), .call 0 .clearAll,
      .destroy 0] (.ofMacro {})).map fun mem =>
    (decide (Registry.Has mem.dispatchers 0 (.trigger 5)), mem.target (.trigger 5))) =
      some (true, some 0) := by
  decide

end Events

end MacroEvent

end Libmacro
