import Libmacro.ExactRegistration

/-! # The calls of a client on a macro

`copy` and the destructor, run with nothing else going on but the macro's own workers, and all
calls of a client that change the configuration of a macro as one type (`MacroCall`).

What a call does to the dispatchers is one statement for all of them (`MacroCall.has_run`): it
clears some pairs, and a call that applies the dispatch of an enabled macro adds the wanted ones.
A call on one macro changes no other macro (`MacroCall.frame`). -/

namespace Libmacro

namespace Macro

/-- `MacroImpl::dequeue`: the queue is emptied, the interruptor written and the waiting threads are
notified. -/
def dequeue (val : Interrupt) (mac : Macro) : Macro :=
  { mac with queued := 0, interruptor := val, notified := mac.notified + 1 }

/-- What `clearThreads(DISABLE, true)` does to the macro: the counted workers leave at their next
check and notify, and the handles are joined. -/
def stopWorkers (mac : Macro) : Macro :=
  let mac := mac.dequeue .disable
  let mac := if mac.running then mac.dequeue .disable else mac
  { mac with threadCount := 0, threads := [], notified := mac.notified + mac.threadCount }

/-- `stopWorkers` writes the running state only. -/
theorem stopWorkers_frame (mac : Macro) : ∃ n, mac.stopWorkers =
    { mac with
      queued := 0
      interruptor := .disable
      threadCount := 0
      threads := []
      notified := n } := by
  rw [stopWorkers]
  split_ifs
  · exact ⟨_, rfl⟩
  · exact ⟨_, rfl⟩

/-- `MacroImpl::limitMaxThreads`: `_threadMax` is corrected, and a longer queue is emptied; the
comparison converts `_queued`. -/
def limitMaxThreads (limit : ℕ) (mac : Macro) : Macro :=
  let mac := mac.clampThreadMax limit
  if toUnsigned mac.queued > mac.threadMax then { mac with queued := 0 } else mac

/-- `limitMaxThreads` writes `_threadMax` and `_queued` only. -/
theorem limitMaxThreads_frame (limit : ℕ) (mac : Macro) :
    ∃ n q, mac.limitMaxThreads limit = { mac with threadMax := n, queued := q } := by
  obtain ⟨n, hclamp⟩ := mac.clampThreadMax_frame limit
  rw [limitMaxThreads, hclamp]
  dsimp only
  split_ifs
  · exact ⟨n, 0, rfl⟩
  · exact ⟨n, mac.queued, rfl⟩

end Macro

namespace Memory

/-- `clearThreads(DISABLE, true)`: each counted worker gives its slot back when it leaves. -/
def clearThreads (mem : Memory) (m : MacroId) : Memory :=
  { mem with activeThreadCount := mem.activeThreadCount - (mem.macros m).threadCount }.modify m
    Macro.stopWorkers

/-- `MacroImpl::disableEverything` on an idle macro; the destructor does no more, and `copy` begins
with it. -/
def disableEverything (mem : Memory) (m : MacroId) : Option Memory := do
  let mem := mem.modify m (Macro.dequeue .disable)
  let reg ← mem.removeDispatch m mem.dispatchers
  some ({ mem with dispatchers := reg }.clearThreads m)

/-- `MacroImpl::copy`: the macro is disabled, assigned from the other one, limited and registered;
copying itself does nothing. -/
def copy (mem : Memory) (m other : MacroId) : Option Memory :=
  if m = other then some mem
  else do
    let mem ← mem.disableEverything m
    let mem := mem.copyFrom m other
    let mem := mem.modify m (Macro.limitMaxThreads mem.threadLimit)
    Block.applyDispatch.apply m mem

end Memory

/-- A call of the client that changes the configuration of a macro. -/
inductive MacroCall where
  /-- `setActivators`, `setTriggers`, `setInterruptor`, `applyDispatch` or `removeDispatch`. -/
  | config (call : ConfigCall)
  /-- `setBlocking`. -/
  | setBlocking (val : Bool)
  /-- `setApplyDispatchEnabled`. -/
  | setApplyDispatchEnabled (val : Bool)
  /-- `copy(other)`. -/
  | copy (other : MacroId)
  /-- `~MacroImpl`. -/
  | destroy

namespace MacroCall

/-- The call on macro `m` run on its own; `none` when it reads a null context. -/
def run (mem : Memory) (m : MacroId) : MacroCall → Option Memory
  | config call => call.run mem m
  | setBlocking val => (Block.setBlocking val).apply m mem
  | setApplyDispatchEnabled val => (Block.setApplyDispatchEnabled val).apply m mem
  | copy other => mem.copy m other
  | destroy => mem.disableEverything m

/-- The triggers that the call gives to the macro, which is their actor afterwards. -/
def gives (mem : Memory) (m : MacroId) : MacroCall → List TriggerId
  | config (.setTriggers array) => array
  | copy other => if m = other then [] else (mem.macros other).triggers
  | _ => []

/-- The interruptor after the call, in terms of the state before it. -/
def interruptorAfter (mem : Memory) (m : MacroId) : MacroCall → Interrupt
  | config (.setInterruptor val) =>
    if val = (mem.macros m).interruptor then val else (mem.macros m).interruptorAfter val
  | copy other =>
    if m = other then (mem.macros m).interruptor else (mem.macros other).interruptor
  | destroy => .disable
  | _ => (mem.macros m).interruptor

/-- `blocking()` after the call, in terms of the state before it: `setBlocking` and `copy` may
change it. -/
def blockingAfter (mem : Memory) (m : MacroId) : MacroCall → Bool
  | setBlocking val => val
  | copy other => if m = other then (mem.macros m).blocking else (mem.macros other).blocking
  | _ => (mem.macros m).blocking

end MacroCall

/-! ## What a call clears -/

namespace Memory

/-- `_removeDispatch` of the macro, in its present configuration, removes the pair. -/
def Releases (mem : Memory) (m : MacroId) (d : DispatcherId) (r : Receiver) : Prop :=
  ∃ g, mem.contextDispatcher m = some g ∧ mem.Released m g d r

/-- `_addDispatch` of the macro, in its present configuration, adds the pair. -/
def Wants (mem : Memory) (m : MacroId) (d : DispatcherId) (r : Receiver) : Prop :=
  ∃ g, mem.contextDispatcher m = some g ∧ mem.Wanted m g d r

/-- `_applyDispatch` of the macro removes the pair, unless the flag is off. -/
def ApplyReleases (mem : Memory) (m : MacroId) (d : DispatcherId) (r : Receiver) : Prop :=
  (mem.macros m).applyDispatchFlag = true ∧ mem.Releases m d r

end Memory

namespace MacroCall

/-- **The pairs a call clears**, in terms of the state before it. -/
def Clears (mem : Memory) (m : MacroId) (d : DispatcherId) (r : Receiver) : MacroCall → Prop
  | config (.setActivators array) =>
    mem.Releases m d r ∨
      (mem.modify m fun mac => { mac with activators := array }).ApplyReleases m d r
  | config (.setTriggers array) =>
    mem.Releases m d r ∨
      (mem.modify m fun mac => { mac with triggers := array }).ApplyReleases m d r
  | config (.setInterruptor val) =>
    (val ≠ (mem.macros m).interruptor ∧
      ((mem.macros m).interruptor = .disable ∨ val = .disable)) ∧ mem.ApplyReleases m d r
  | config .applyDispatch => mem.ApplyReleases m d r
  | config .removeDispatch => mem.Releases m d r
  | copy other => m ≠ other ∧
    (mem.Releases m d r ∨ (mem.copyFrom m other).ApplyReleases m d r)
  | destroy => mem.Releases m d r
  | setBlocking _ | setApplyDispatchEnabled _ => False

end MacroCall

namespace Memory

variable {mem mem' : Memory} {m m' : MacroId} {reg reg' : Registry} {d : DispatcherId}
  {r : Receiver}

/-- A call of `_removeDispatch` that returned found a context. -/
theorem has_removeDispatch_of_eq (h : mem.removeDispatch m reg = some reg') :
    reg'.Has d r ↔ reg.Has d r ∧ ¬ mem.Releases m d r := by
  cases hctx : mem.contextDispatcher m with
  | none =>
    rw [removeDispatch, hctx] at h
    cases h
  | some g =>
    have hreleases : mem.Releases m d r ↔ mem.Released m g d r := by
      rw [Releases, hctx]
      simp
    rw [hreleases, has_removeDispatch hctx h]

/-- `_applyDispatch`, whatever the flag: it removes what it releases and adds what an enabled
macro wants. -/
theorem has_applyDispatch_of_eq (h : mem.applyDispatch m reg = some reg') :
    reg'.Has d r ↔ (reg.Has d r ∧ ¬ mem.ApplyReleases m d r) ∨
      ((mem.macros m).applyDispatchFlag = true ∧ (mem.macros m).enabled = true ∧
        mem.Wants m d r) := by
  rw [ApplyReleases]
  cases hflag : (mem.macros m).applyDispatchFlag with
  -- without the flag `_applyDispatch` returns at once
  | false =>
    rw [applyDispatch, hflag, if_neg Bool.false_ne_true, Option.some_inj] at h
    rw [← h]
    simp
  | true =>
    cases hctx : mem.contextDispatcher m with
    | none =>
      -- a null context is dereferenced
      rw [applyDispatch, if_pos hflag, removeDispatch, hctx] at h
      cases h
    | some g =>
      obtain ⟨reg₁, hreg₁, hhas⟩ := has_applyDispatch reg hctx hflag
      obtain rfl := Option.some.inj (h.symm.trans hreg₁)
      have hreleases : mem.Releases m d r ↔ mem.Released m g d r := by
        rw [Releases, hctx]
        simp
      have hwants : mem.Wants m d r ↔ mem.Wanted m g d r := by
        rw [Wants, hctx]
        simp
      rw [hhas, hreleases, hwants]
      simp

/-- The parts of two memories that the registration of a macro reads are the same. -/
structure SameSetup (mem mem' : Memory) (m : MacroId) : Prop where
  activators : (mem'.macros m).activators = (mem.macros m).activators
  triggers : (mem'.macros m).triggers = (mem.macros m).triggers
  context : (mem'.macros m).context = (mem.macros m).context
  flag : (mem'.macros m).applyDispatchFlag = (mem.macros m).applyDispatchFlag
  genericDispatcher : mem'.genericDispatcher = mem.genericDispatcher
  dispatcherPtr : mem'.dispatcherPtr = mem.dispatcherPtr

/-- A change of other fields of the macro. -/
theorem sameSetup_modify (mem : Memory) (m : MacroId) (f : Macro → Macro)
    (hact : (f (mem.macros m)).activators = (mem.macros m).activators)
    (htrig : (f (mem.macros m)).triggers = (mem.macros m).triggers)
    (hctx : (f (mem.macros m)).context = (mem.macros m).context)
    (hflag : (f (mem.macros m)).applyDispatchFlag = (mem.macros m).applyDispatchFlag) :
    SameSetup mem (mem.modify m f) m :=
  ⟨by simpa, by simpa, by simpa, by simpa, rfl, rfl⟩

/-- What is released depends on the setup of the macro only. -/
theorem Releases.congr (h : SameSetup mem mem' m) :
    mem'.Releases m d r ↔ mem.Releases m d r := by
  simp only [Releases, contextDispatcher, Released, IsTrigger, DispatcherOf, h.activators,
    h.triggers, h.context, h.genericDispatcher, h.dispatcherPtr]

/-- What is wanted depends on the setup of the macro only, and so survives whatever else a call
writes. -/
theorem Wants.congr (h : SameSetup mem mem' m) : mem'.Wants m d r ↔ mem.Wants m d r := by
  simp only [Wants, contextDispatcher, Wanted, IsTrigger, DispatcherOf, h.activators, h.triggers,
    h.context, h.genericDispatcher, h.dispatcherPtr]

/-- A macro without activators and triggers wants one pair: itself on the generic dispatcher of its
context. -/
theorem wants_of_bare (hact : (mem.macros m).activators = [])
    (htrig : (mem.macros m).triggers = []) :
    mem.Wants m d r ↔ mem.contextDispatcher m = some (some d) ∧ r = .ofMacro m := by
  simp only [Wants, Wanted, if_pos hact, if_pos htrig]
  constructor
  · rintro ⟨_, hg, rfl, hr⟩
    exact ⟨hg, hr⟩
  · rintro ⟨hg, hr⟩
    exact ⟨_, hg, rfl, hr⟩

/-- What `_applyDispatch` removes depends on the setup of the macro only, its flag included. -/
theorem ApplyReleases.congr (h : SameSetup mem mem' m) :
    mem'.ApplyReleases m d r ↔ mem.ApplyReleases m d r := by
  rw [ApplyReleases, ApplyReleases, Releases.congr h, h.flag]

end Memory

namespace MacroCall

variable {mem mem' : Memory} {m : MacroId} {call : MacroCall} {d : DispatcherId} {r : Receiver}

/-- The call ends with `_applyDispatch`, which may still find its flag off. -/
def Applies (mem : Memory) (m : MacroId) : MacroCall → Prop
  | config (.setInterruptor val) => val ≠ (mem.macros m).interruptor ∧
    ((mem.macros m).interruptor = .disable ∨ val = .disable)
  | config (.setActivators _) | config (.setTriggers _) | config .applyDispatch => True
  | copy other => m ≠ other
  | config .removeDispatch | destroy | setBlocking _ | setApplyDispatchEnabled _ => False

/-- The call adds the pair: it applies the dispatch of an enabled macro that wants it, `mem'` being
the state after the call. -/
def Adds (mem mem' : Memory) (m : MacroId) (call : MacroCall) (d : DispatcherId) (r : Receiver) :
    Prop :=
  call.Applies mem m ∧ (mem'.macros m).applyDispatchFlag = true ∧
    (mem'.macros m).enabled = true ∧ mem'.Wants m d r

/-! ## One call -/

/-- What a call does: to the dispatchers, to the actors of the triggers and to the macro. -/
structure Spec (mem mem' : Memory) (m : MacroId) (call : MacroCall) : Prop where
  /-- The dispatchers. -/
  has : ∀ d r, Registry.Has mem'.dispatchers d r ↔
    (Registry.Has mem.dispatchers d r ∧ ¬ call.Clears mem m d r) ∨ call.Adds mem mem' m d r
  /-- The actors: the triggers given get the macro. -/
  actorPtr : ∀ t, mem'.actorPtr t = if t ∈ call.gives mem m then some m else mem.actorPtr t
  /-- The interruptor. -/
  interruptor : (mem'.macros m).interruptor = call.interruptorAfter mem m
  /-- The blocking flag. -/
  blocking : (mem'.macros m).blocking = call.blockingAfter mem m
  /-- The triggers: nothing but the old and the given ones. -/
  triggers : ∀ t ∈ (mem'.macros m).triggers, t ∈ (mem.macros m).triggers ∨ t ∈ call.gives mem m
  /-- The context: its own or that of the macro copied. -/
  context : ∃ m', (mem'.macros m).context = (mem.macros m').context
  /-- The other macros. -/
  others : ∀ m', m' ≠ m → mem'.macros m' = mem.macros m'
  /-- The generic dispatchers. -/
  genericDispatcher : mem'.genericDispatcher = mem.genericDispatcher
  /-- The dispatchers of the signals. -/
  dispatcherPtr : mem'.dispatcherPtr = mem.dispatcherPtr

/-- Giving triggers to a macro one by one makes it the actor of each, and of no other. -/
theorem foldl_update_actorPtr (actorPtr : TriggerId → Option MacroId) (m : MacroId)
    (array : List TriggerId) (t : TriggerId) :
    array.foldl (fun actorPtr trig => Function.update actorPtr trig (some m)) actorPtr t
      = if t ∈ array then some m else actorPtr t := by
  induction array generalizing actorPtr with
  | nil => rfl
  | cons trig array ih =>
    rw [List.foldl_cons, ih, Function.update_apply]
    by_cases ht : t ∈ array
    · rw [if_pos ht, if_pos (List.mem_cons_of_mem _ ht)]
    · rw [if_neg ht]
      by_cases htrig : t = trig
      · rw [if_pos htrig, if_pos (List.mem_cons.mpr (Or.inl htrig))]
      · rw [if_neg htrig, if_neg (by simp [htrig, ht])]

/-- A setter that releases the old configuration, changes the macro to `mac'` and applies the
dispatch. -/
theorem has_of_release_apply {mem₁ : Memory} {reg reg' : Registry}
    (hreg : mem.removeDispatch m mem.dispatchers = some reg)
    (hreg' : mem₁.applyDispatch m reg = some reg') :
    reg'.Has d r ↔
      (Registry.Has mem.dispatchers d r ∧
        ¬ (mem.Releases m d r ∨ mem₁.ApplyReleases m d r)) ∨
      ((mem₁.macros m).applyDispatchFlag = true ∧ (mem₁.macros m).enabled = true ∧
        mem₁.Wants m d r) := by
  rw [Memory.has_applyDispatch_of_eq hreg', Memory.has_removeDispatch_of_eq hreg, and_assoc,
    not_or]

/-- A call that gives no trigger and changes nothing but the registrations. -/
theorem spec_withDispatchers {reg : Registry} (hgives : call.gives mem m = [])
    (hint : call.interruptorAfter mem m = (mem.macros m).interruptor)
    (hblock : call.blockingAfter mem m = (mem.macros m).blocking)
    (hhas : ∀ d r, Registry.Has reg d r ↔ (Registry.Has mem.dispatchers d r ∧
      ¬ call.Clears mem m d r) ∨ call.Adds mem { mem with dispatchers := reg } m d r) :
    Spec mem { mem with dispatchers := reg } m call where
  has := hhas
  actorPtr := fun t => by rw [hgives, if_neg List.not_mem_nil]
  interruptor := hint.symm
  blocking := hblock.symm
  triggers := fun t ht => Or.inl ht
  context := ⟨m, rfl⟩
  others := fun _ _ => rfl
  genericDispatcher := rfl
  dispatcherPtr := rfl

/-- A call that gives no trigger and changes nothing but fields of the macro. -/
theorem spec_modify {f : Macro → Macro} (hgives : call.gives mem m = [])
    (hint : call.interruptorAfter mem m = (f (mem.macros m)).interruptor)
    (hblock : call.blockingAfter mem m = (f (mem.macros m)).blocking)
    (htrig : (f (mem.macros m)).triggers = (mem.macros m).triggers)
    (hctx : (f (mem.macros m)).context = (mem.macros m).context)
    (hclears : ∀ d r, ¬ call.Clears mem m d r) (happlies : ¬ call.Applies mem m) :
    Spec mem (mem.modify m f) m call where
  has := fun d r => by
    have hadds : ¬ call.Adds mem (mem.modify m f) m d r := fun h => happlies h.1
    rw [or_iff_left hadds, and_iff_left (hclears d r), Memory.modify_dispatchers]
  actorPtr := fun t => by
    rw [hgives, if_neg List.not_mem_nil]
    rfl
  interruptor := by rw [Memory.modify_macros_self, hint]
  blocking := by rw [Memory.modify_macros_self, hblock]
  triggers := fun t ht => by
    rw [Memory.modify_macros_self, htrig] at ht
    exact Or.inl ht
  context := ⟨m, by rw [Memory.modify_macros_self, hctx]⟩
  others := fun m' hm => Memory.modify_macros_of_ne mem m f hm
  genericDispatcher := rfl
  dispatcherPtr := rfl

/-- `setActivators` removes what is registered under the old activators, stores the new ones and
applies the dispatch. -/
theorem spec_setActivators {array : List SignalId}
    (h : mem.setActivators m array = some mem') :
    Spec mem mem' m (.config (.setActivators array)) := by
  obtain ⟨reg, hreg, h⟩ := Option.bind_eq_some_iff.mp h
  obtain ⟨reg', hreg', h⟩ := Option.bind_eq_some_iff.mp h
  obtain rfl := Option.some.inj h
  exact {
    has := fun d r => by
      rw [show Registry.Has _ d r ↔ _ from has_of_release_apply hreg hreg', Adds, Applies,
        true_and]
      rfl
    actorPtr := fun t => (if_neg List.not_mem_nil).symm
    interruptor := by simp [interruptorAfter]
    blocking := by simp [blockingAfter]
    triggers := fun t ht => Or.inl (by simpa using ht)
    context := ⟨m, by simp⟩
    others := fun m' hm => by simp [hm]
    genericDispatcher := rfl
    dispatcherPtr := rfl }

/-- `setTriggers` does the same with the triggers, and makes the macro the actor of each new
one. -/
theorem spec_setTriggers {array : List TriggerId} (h : mem.setTriggers m array = some mem') :
    Spec mem mem' m (.config (.setTriggers array)) := by
  obtain ⟨reg, hreg, h⟩ := Option.bind_eq_some_iff.mp h
  obtain ⟨reg', hreg', h⟩ := Option.bind_eq_some_iff.mp h
  obtain rfl := Option.some.inj h
  exact {
    has := fun d r => by
      rw [show Registry.Has _ d r ↔ _ from has_of_release_apply hreg hreg', Adds, Applies,
        true_and]
      rfl
    actorPtr := fun t => foldl_update_actorPtr mem.actorPtr m array t
    interruptor := by simp [interruptorAfter]
    blocking := by simp [blockingAfter]
    triggers := fun t ht => Or.inr (by simpa [gives] using ht)
    context := ⟨m, by simp⟩
    others := fun m' hm => by simp [hm]
    genericDispatcher := rfl
    dispatcherPtr := rfl }

/-- `setInterruptor` touches the registrations only where it crosses `DISABLE`, in either
direction. -/
theorem spec_setInterruptor {val : Interrupt} {flag : Bool}
    (h : mem.setInterruptor m val = some (mem', flag)) :
    Spec mem mem' m (.config (.setInterruptor val)) := by
  obtain ⟨q, n, hmac⟩ := Macro.storeInterruptor_frame val (mem.macros m)
  rw [Memory.setInterruptor] at h
  dsimp only at h
  by_cases hval : val = (mem.macros m).interruptor
  · -- the value is the current one
    rw [if_neg (not_not_intro hval), Option.some_inj, Prod.mk.injEq] at h
    obtain ⟨rfl, -⟩ := h
    refine spec_withDispatchers rfl ?_ rfl fun d r => by simp [Clears, Adds, Applies, hval]
    rw [interruptorAfter, if_pos hval, hval]
  · rw [if_pos hval] at h
    by_cases hcross : (mem.macros m).interruptor = .disable ∨ val = .disable
    · -- `DISABLE` is crossed: the dispatch is applied after the store
      rw [if_pos hcross] at h
      obtain ⟨mem₁, h, hmem⟩ := Option.map_eq_some_iff.mp h
      obtain ⟨reg, hreg, rfl⟩ := Option.map_eq_some_iff.mp h
      rw [Prod.mk.injEq] at hmem
      obtain ⟨rfl, -⟩ := hmem
      exact {
        has := fun d r => by
          have hhas := Memory.has_applyDispatch_of_eq (d := d) (r := r) hreg
          have hrel := @Memory.ApplyReleases.congr mem _ m d r
            (mem.sameSetup_modify m (fun _ => ((mem.macros m).storeInterruptor val).1)
              (by simp [hmac]) (by simp [hmac]) (by simp [hmac]) (by simp [hmac]))
          rw [hrel] at hhas
          simp only [Clears, Adds, Applies, ne_eq, hval, hcross, not_false_eq_true, true_and]
          exact hhas
        actorPtr := fun t => (if_neg List.not_mem_nil).symm
        interruptor := by rw [interruptorAfter, if_neg hval]; simp
        blocking := by simp [blockingAfter, hmac]
        triggers := fun t ht => Or.inl (by simpa [hmac] using ht)
        context := ⟨m, by simp [hmac]⟩
        others := fun m' hm => by simp [hm]
        genericDispatcher := rfl
        dispatcherPtr := rfl }
    · -- `DISABLE` is not crossed: the value is stored and that is all
      rw [if_neg hcross, Option.some_inj, Prod.mk.injEq] at h
      obtain ⟨rfl, -⟩ := h
      refine spec_modify rfl ?_ (by simp [blockingAfter, hmac]) (by rw [hmac]) (by rw [hmac])
        (fun d r hclears => hcross hclears.1.2) (fun happlies => hcross happlies.2)
      rw [interruptorAfter, if_neg hval, Macro.storeInterruptor_interruptor]

/-- `setInterruptor` changes no setup, and starts a reset thread for a running macro that
`INTERRUPT_ALL` changes. -/
theorem setup_setInterruptor {val : Interrupt} {flag : Bool}
    (h : mem.setInterruptor m val = some (mem', flag)) : Memory.SameSetup mem mem' m ∧
      (flag = true ↔ val ≠ (mem.macros m).interruptor ∧ val = .interruptAll ∧
        (mem.macros m).running = true) := by
  obtain ⟨q, n, hmac⟩ := Macro.storeInterruptor_frame val (mem.macros m)
  have hsetup := mem.sameSetup_modify m (fun _ => ((mem.macros m).storeInterruptor val).1)
    (by rw [hmac]) (by rw [hmac]) (by rw [hmac]) (by rw [hmac])
  have hflag : val ≠ (mem.macros m).interruptor →
      (((mem.macros m).storeInterruptor val).2 = true ↔ val ≠ (mem.macros m).interruptor ∧
        val = .interruptAll ∧ (mem.macros m).running = true) := by
    intro hval
    rw [Macro.storeInterruptor_snd, Bool.and_eq_true, decide_eq_true_eq]
    tauto
  rw [Memory.setInterruptor] at h
  dsimp only at h
  split_ifs at h with hval hcross
  · -- the registrations are rewritten, the setup is not
    obtain ⟨mem₁, h, hmem⟩ := Option.map_eq_some_iff.mp h
    obtain ⟨reg, hreg, rfl⟩ := Option.map_eq_some_iff.mp h
    rw [Prod.mk.injEq] at hmem
    obtain ⟨rfl, rfl⟩ := hmem
    exact ⟨⟨hsetup.activators, hsetup.triggers, hsetup.context, hsetup.flag, rfl, rfl⟩, hflag hval⟩
  · rw [Option.some_inj, Prod.mk.injEq] at h
    obtain ⟨rfl, rfl⟩ := h
    exact ⟨hsetup, hflag hval⟩
  · rw [Option.some_inj, Prod.mk.injEq] at h
    obtain ⟨rfl, rfl⟩ := h
    exact ⟨⟨rfl, rfl, rfl, rfl, rfl, rfl⟩, by simp [hval]⟩

/-- The macro after `disableEverything`: its queue is empty, its interruptor `DISABLE`, and no
worker is counted. -/
theorem macros_disableEverything {reg : Registry} : ∃ n,
    (Memory.clearThreads { mem.modify m (Macro.dequeue .disable) with dispatchers := reg } m).macros
      m = { mem.macros m with
        queued := 0
        interruptor := .disable
        threadCount := 0
        threads := []
        notified := n } := by
  obtain ⟨n, hn⟩ := Macro.stopWorkers_frame ((mem.macros m).dequeue .disable)
  refine ⟨n, ?_⟩
  rw [Memory.clearThreads, Memory.modify_macros_self]
  dsimp only
  rw [Memory.modify_macros_self, hn]
  rfl

/-- `disableEverything`, and so the destructor, removes what is registered and applies nothing. -/
theorem spec_disableEverything (h : mem.disableEverything m = some mem') :
    Spec mem mem' m .destroy := by
  obtain ⟨reg, hreg, h⟩ := Option.bind_eq_some_iff.mp h
  obtain rfl := Option.some.inj h
  obtain ⟨n, hmac⟩ := @macros_disableEverything mem m reg
  have hsetup := mem.sameSetup_modify m (Macro.dequeue .disable) rfl rfl rfl rfl
  exact {
    has := fun d r => by
      have hhas := Memory.has_removeDispatch_of_eq (d := d) (r := r) hreg
      rw [Memory.Releases.congr hsetup] at hhas
      simp only [Clears, Adds, Applies, false_and, or_false]
      exact hhas
    actorPtr := fun t => (if_neg List.not_mem_nil).symm
    interruptor := by rw [hmac]; rfl
    blocking := by rw [hmac]; rfl
    triggers := fun t ht => Or.inl (by rwa [hmac] at ht)
    context := ⟨m, by rw [hmac]⟩
    others := fun m' hm => by simp [Memory.clearThreads, Memory.modify, hm]
    genericDispatcher := rfl
    dispatcherPtr := rfl }

/-- The macro after the guarded block of `copy`. -/
theorem macros_copyFrom (mem : Memory) (m other : MacroId) :
    (mem.copyFrom m other).macros m =
      { mem.macros m with
        activators := (mem.macros other).activators
        name := (mem.macros other).name
        signals := (mem.macros other).signals
        triggers := (mem.macros other).triggers
        blocking := (mem.macros other).blocking
        interruptor := (mem.macros other).interruptor
        sticky := (mem.macros other).sticky
        threadMax := (mem.macros other).threadMax
        context := (mem.macros other).context
        applyDispatchFlag := (mem.macros other).applyDispatchFlag } := by
  rw [Memory.copyFrom, Memory.modify_macros_self]

/-- `copy` disables the macro, takes the configuration of the other one with its triggers, and
applies the dispatch with it. -/
theorem spec_copy {other : MacroId} (h : mem.copy m other = some mem') :
    Spec mem mem' m (.copy other) := by
  rw [Memory.copy] at h
  by_cases hself : m = other
  · rw [if_pos hself, Option.some_inj] at h
    subst h
    exact {
      has := fun d r => by simp [Clears, Adds, Applies, hself]
      actorPtr := fun t => by simp [gives, hself]
      interruptor := by rw [interruptorAfter, if_pos hself]
      blocking := by rw [blockingAfter, if_pos hself]
      triggers := fun t ht => Or.inl ht
      context := ⟨m, rfl⟩
      others := fun _ _ => rfl
      genericDispatcher := rfl
      dispatcherPtr := rfl }
  · rw [if_neg hself] at h
    obtain ⟨mem₁, h₁, h⟩ := Option.bind_eq_some_iff.mp h
    obtain ⟨reg, hreg, rfl⟩ := Option.map_eq_some_iff.mp h
    have hspec := spec_disableEverything h₁
    -- the source is another macro, and still as it was
    have hother : mem₁.macros other = mem.macros other := hspec.others other (Ne.symm hself)
    obtain ⟨n, q, hlimit⟩ := Macro.limitMaxThreads_frame mem₁.threadLimit
      ((mem₁.copyFrom m other).macros m)
    have hmac : (((mem₁.copyFrom m other).modify m
        (Macro.limitMaxThreads (mem₁.copyFrom m other).threadLimit)).macros m) =
        { (mem₁.copyFrom m other).macros m with threadMax := n, queued := q } := by
      rw [Memory.modify_macros_self]
      exact hlimit
    have hsetup : Memory.SameSetup (mem.copyFrom m other) ((mem₁.copyFrom m other).modify m
        (Macro.limitMaxThreads (mem₁.copyFrom m other).threadLimit)) m := by
      refine ⟨?_, ?_, ?_, ?_, hspec.genericDispatcher, hspec.dispatcherPtr⟩
      all_goals rw [hmac, macros_copyFrom, macros_copyFrom, hother]
    exact {
      has := fun d r => by
        have hhas₁ : Registry.Has mem₁.dispatchers d r ↔
            Registry.Has mem.dispatchers d r ∧ ¬ mem.Releases m d r := by
          rw [hspec.has, Clears, Adds, Applies, false_and, or_false]
        have hhas : Registry.Has reg d r ↔ (Registry.Has mem₁.dispatchers d r ∧ _) ∨ _ :=
          Memory.has_applyDispatch_of_eq hreg
        rw [Memory.ApplyReleases.congr hsetup, hhas₁, and_assoc] at hhas
        simp only [Clears, Adds, Applies, ne_eq, hself, not_false_eq_true, true_and, not_or]
        exact hhas
      actorPtr := fun t => by
        have hactor : mem₁.actorPtr t = mem.actorPtr t := by
          rw [hspec.actorPtr]
          exact if_neg List.not_mem_nil
        have hfold := foldl_update_actorPtr mem₁.actorPtr m (mem₁.macros other).triggers t
        rw [gives, if_neg hself, ← hother, ← hactor]
        exact hfold
      interruptor := by
        rw [interruptorAfter, if_neg hself, ← hother]
        exact (congrArg Macro.interruptor hmac).trans (by rw [macros_copyFrom])
      blocking := by
        rw [blockingAfter, if_neg hself, ← hother]
        exact (congrArg Macro.blocking hmac).trans (by rw [macros_copyFrom])
      triggers := fun t ht => by
        rw [gives, if_neg hself, ← hother]
        refine Or.inr ?_
        have htrig := congrArg Macro.triggers hmac
        rw [macros_copyFrom] at htrig
        exact htrig ▸ ht
      context := ⟨other, by
        rw [← hother]
        exact (congrArg Macro.context hmac).trans (by rw [macros_copyFrom])⟩
      others := fun m' hm => by
        have hframe := hspec.others m' hm
        simpa [Memory.modify, Memory.copyFrom, hm] using hframe
      genericDispatcher := hspec.genericDispatcher
      dispatcherPtr := hspec.dispatcherPtr }

/-- **What a call does**, for every call that returns. -/
theorem run_spec (h : call.run mem m = some mem') : Spec mem mem' m call := by
  cases call with
  | config call =>
    cases call with
    | setActivators array => exact spec_setActivators h
    | setTriggers array => exact spec_setTriggers h
    | setInterruptor val =>
      obtain ⟨⟨mem₁, flag⟩, hset, rfl⟩ := Option.map_eq_some_iff.mp h
      exact spec_setInterruptor hset
    | applyDispatch =>
      obtain ⟨reg, hreg, rfl⟩ := Option.map_eq_some_iff.mp h
      refine spec_withDispatchers rfl rfl rfl fun d r => ?_
      have hhas := Memory.has_applyDispatch_of_eq (d := d) (r := r) hreg
      simp only [Clears, Adds, Applies, true_and]
      exact hhas
    | removeDispatch =>
      obtain ⟨reg, hreg, rfl⟩ := Option.map_eq_some_iff.mp h
      refine spec_withDispatchers rfl rfl rfl fun d r => ?_
      have hhas := Memory.has_removeDispatch_of_eq (d := d) (r := r) hreg
      simp only [Clears, Adds, Applies, false_and, or_false]
      exact hhas
  | setBlocking val =>
    obtain rfl := Option.some.inj h
    exact spec_modify rfl rfl rfl rfl rfl (fun _ _ h => h) fun h => h
  | setApplyDispatchEnabled val =>
    obtain rfl := Option.some.inj h
    exact spec_modify rfl rfl rfl rfl rfl (fun _ _ h => h) fun h => h
  | copy other => exact spec_copy h
  | destroy => exact spec_disableEverything h

/-! ## Calls return -/

/-- Every macro has a context, so that no call on one dereferences a null pointer. -/
def Contexts (mem : Memory) : Prop := ∀ m, ((mem.macros m).context).isSome = true

/-- New macros have a context: the constructor is given one. -/
theorem contexts_fresh : Contexts ConfigCall.fresh := fun _ => rfl

end MacroCall

namespace Memory

variable {mem : Memory} {m : MacroId}

/-- A macro with a context reaches the generic dispatcher of this context, if it has one. -/
theorem contextDispatcher_of_context {ctx : ContextId} (h : (mem.macros m).context = some ctx) :
    mem.contextDispatcher m = some (mem.genericDispatcher ctx) := by
  rw [contextDispatcher, h, Option.map_some]

/-- `_removeDispatch` dereferences the context at once, so it reads a null context whenever there
is none. -/
theorem removeDispatch_eq_none_iff (mem : Memory) (m : MacroId) (reg : Registry) :
    mem.removeDispatch m reg = none ↔ (mem.macros m).context = none := by
  cases hctx : (mem.macros m).context with
  | none =>
    rw [removeDispatch, contextDispatcher, hctx]
    exact iff_of_true rfl rfl
  | some ctx =>
    obtain ⟨reg', hreg'⟩ := removeDispatch_isSome reg (contextDispatcher_of_context hctx)
    rw [hreg']
    exact iff_of_false (Option.some_ne_none _) (Option.some_ne_none _)

/-- `_applyDispatch` reads a null context only when its flag is set: without the flag it returns
first. -/
theorem applyDispatch_eq_none_iff (mem : Memory) (m : MacroId) (reg : Registry) :
    mem.applyDispatch m reg = none ↔
      (mem.macros m).applyDispatchFlag = true ∧ (mem.macros m).context = none := by
  cases hflag : (mem.macros m).applyDispatchFlag with
  | false =>
    rw [applyDispatch, hflag, if_neg Bool.false_ne_true]
    exact iff_of_false (Option.some_ne_none _) fun h => Bool.false_ne_true h.1
  | true =>
    cases hctx : (mem.macros m).context with
    | none =>
      rw [applyDispatch, if_pos hflag, (removeDispatch_eq_none_iff mem m reg).mpr hctx]
      exact iff_of_true rfl ⟨rfl, rfl⟩
    | some ctx =>
      obtain ⟨reg', hreg', -⟩ :=
        has_applyDispatch reg (contextDispatcher_of_context hctx) hflag
      rw [hreg']
      exact iff_of_false (Option.some_ne_none _) fun h => Option.some_ne_none _ h.2

/-- **`setInterruptor(val)` reads a null context**: it crosses `DISABLE` on a macro without
context whose dispatch is enabled. -/
def ReadsNullContext (mem : Memory) (m : MacroId) (val : Interrupt) : Prop :=
  (val ≠ (mem.macros m).interruptor ∧
    ((mem.macros m).interruptor = .disable ∨ val = .disable)) ∧
  (mem.macros m).applyDispatchFlag = true ∧ (mem.macros m).context = none

/-- Whether the call would read a null context is computed from three fields of the macro. -/
instance (mem : Memory) (m : MacroId) (val : Interrupt) :
    Decidable (mem.ReadsNullContext m val) :=
  inferInstanceAs (Decidable ((_ ∧ _) ∧ _ ∧ _))

/-- `setInterruptor` reads a null context exactly when it crosses `DISABLE` on a macro without one
and applies the dispatch. -/
theorem setInterruptor_eq_none_iff {val : Interrupt} :
    mem.setInterruptor m val = none ↔ mem.ReadsNullContext m val := by
  obtain ⟨q, n, hmac⟩ := Macro.storeInterruptor_frame val (mem.macros m)
  rw [setInterruptor, ReadsNullContext]
  dsimp only
  by_cases hval : val = (mem.macros m).interruptor
  · rw [if_neg (not_not_intro hval)]
    exact iff_of_false (Option.some_ne_none _) fun h => h.1.1 hval
  · rw [if_pos hval]
    by_cases hcross : (mem.macros m).interruptor = .disable ∨ val = .disable
    · -- the store changes neither the flag nor the context
      rw [if_pos hcross, Option.map_eq_none_iff, Block.apply, Option.map_eq_none_iff,
        applyDispatch_eq_none_iff, modify_macros_self, hmac]
      exact (and_iff_right ⟨hval, hcross⟩).symm
    · rw [if_neg hcross]
      exact iff_of_false (Option.some_ne_none _) fun h => hcross h.1.2

/-- `disableEverything` reads a null context whenever the macro has none, whatever its flag. -/
theorem disableEverything_eq_none_iff :
    mem.disableEverything m = none ↔ (mem.macros m).context = none := by
  have hremove := removeDispatch_eq_none_iff (mem.modify m (Macro.dequeue .disable)) m
    mem.dispatchers
  rw [modify_macros_self] at hremove
  cases hreg : (mem.modify m (Macro.dequeue .disable)).removeDispatch m mem.dispatchers with
  | none =>
    refine iff_of_true ?_ (hremove.mp hreg)
    rw [disableEverything, modify_dispatchers, hreg]
    rfl
  | some reg =>
    have hsome : mem.disableEverything m = some _ := Option.bind_eq_some_iff.mpr ⟨reg, hreg, rfl⟩
    rw [hsome]
    rw [hreg] at hremove
    exact iff_of_false (Option.some_ne_none _) (mt hremove.mpr (Option.some_ne_none _))

/-- **When `copy` reads a null context**: the macro has none, or the other has none and its dispatch
is enabled. -/
theorem copy_eq_none_iff {other : MacroId} : mem.copy m other = none ↔ m ≠ other ∧
    ((mem.macros m).context = none ∨
      (mem.macros other).applyDispatchFlag = true ∧ (mem.macros other).context = none) := by
  rw [copy]
  by_cases hself : m = other
  · rw [if_pos hself]
    exact iff_of_false (Option.some_ne_none _) fun h => h.1 hself
  · rw [if_neg hself, and_iff_right hself]
    cases h₁ : mem.disableEverything m with
    | none => exact iff_of_true rfl (Or.inl (disableEverything_eq_none_iff.mp h₁))
    | some mem₁ =>
      have hown : (mem.macros m).context ≠ none := by
        intro hnone
        rw [disableEverything_eq_none_iff.mpr hnone] at h₁
        cases h₁
      have hother := (MacroCall.spec_disableEverything h₁).others other (Ne.symm hself)
      obtain ⟨n, q, hlimit⟩ := Macro.limitMaxThreads_frame (mem₁.copyFrom m other).threadLimit
        ((mem₁.copyFrom m other).macros m)
      rw [or_iff_right hown, Option.bind_eq_bind, Option.bind_some, Block.apply,
        Option.map_eq_none_iff, applyDispatch_eq_none_iff, modify_macros_self, hlimit,
        MacroCall.macros_copyFrom, hother]

end Memory

namespace MacroCall

variable {mem mem' : Memory} {m : MacroId} {call : MacroCall} {d : DispatcherId} {r : Receiver}

/-- With a context `_removeDispatch` returns, whatever is registered. -/
theorem exists_removeDispatch (mem : Memory) (h : ((mem.macros m).context).isSome = true)
    (reg : Registry) : ∃ reg', mem.removeDispatch m reg = some reg' := by
  refine Option.ne_none_iff_exists'.mp (mt (mem.removeDispatch_eq_none_iff m reg).mp ?_)
  exact Option.isSome_iff_ne_none.mp h

/-- With a context `_applyDispatch` returns, whatever is registered and whether the macro is
enabled or not. -/
theorem exists_applyDispatch (mem : Memory) (h : ((mem.macros m).context).isSome = true)
    (reg : Registry) : ∃ reg', mem.applyDispatch m reg = some reg' := by
  refine Option.ne_none_iff_exists'.mp (mt (mem.applyDispatch_eq_none_iff m reg).mp ?_)
  exact fun hnone => Option.isSome_iff_ne_none.mp h hnone.2

/-- With a context `disableEverything` returns, and so does the destructor. -/
theorem exists_disableEverything (h : ((mem.macros m).context).isSome = true) :
    ∃ mem', mem.disableEverything m = some mem' := by
  refine Option.ne_none_iff_exists'.mp (mt Memory.disableEverything_eq_none_iff.mp ?_)
  exact Option.isSome_iff_ne_none.mp h

/-- Every configuration call returns when the macro has a context. -/
theorem exists_config_run (hm : ((mem.macros m).context).isSome = true) (call : ConfigCall) :
    ∃ mem', (config call).run mem m = some mem' := by
  cases call with
  | applyDispatch =>
    obtain ⟨reg, hreg⟩ := exists_applyDispatch mem hm mem.dispatchers
    exact ⟨{ mem with dispatchers := reg }, by
      rw [run, ConfigCall.run, Block.apply, hreg, Option.map_some]⟩
  | removeDispatch =>
    obtain ⟨reg, hreg⟩ := exists_removeDispatch mem hm mem.dispatchers
    exact ⟨{ mem with dispatchers := reg }, by
      rw [run, ConfigCall.run, Block.apply, hreg, Option.map_some]⟩
  | setActivators array =>
    obtain ⟨reg, hreg⟩ := exists_removeDispatch mem hm mem.dispatchers
    obtain ⟨reg', hreg'⟩ := exists_applyDispatch (m := m) ({ mem with
      dispatchers := reg }.modify m fun mac => { mac with activators := array })
      (by simpa using hm) reg
    exact ⟨_, Option.bind_eq_some_iff.mpr ⟨reg, hreg,
      Option.bind_eq_some_iff.mpr ⟨reg', hreg', rfl⟩⟩⟩
  -- between `_removeDispatch` and `_applyDispatch` the context is not written
  | setTriggers array =>
    obtain ⟨reg, hreg⟩ := exists_removeDispatch mem hm mem.dispatchers
    obtain ⟨reg', hreg'⟩ := exists_applyDispatch (m := m) ({ mem with
      dispatchers := reg
      actorPtr := array.foldl (fun actorPtr trig => Function.update actorPtr trig (some m))
        mem.actorPtr }.modify m fun mac => { mac with triggers := array })
      (by simpa using hm) reg
    exact ⟨_, Option.bind_eq_some_iff.mpr ⟨reg, hreg,
      Option.bind_eq_some_iff.mpr ⟨reg', hreg', rfl⟩⟩⟩
  | setInterruptor val =>
    obtain ⟨result, hset⟩ : ∃ result, mem.setInterruptor m val = some result :=
      Option.ne_none_iff_exists'.mp (mt Memory.setInterruptor_eq_none_iff.mp
        fun hreads => Option.isSome_iff_ne_none.mp hm hreads.2.2)
    exact ⟨result.1, by rw [run, ConfigCall.run, hset, Option.map_some]⟩

/-- **Every call returns** when the macros have contexts. -/
theorem exists_run (h : Contexts mem) (m : MacroId) (call : MacroCall) :
    ∃ mem', call.run mem m = some mem' := by
  have hm := h m
  cases call with
  | setBlocking val => exact ⟨_, rfl⟩
  | setApplyDispatchEnabled val => exact ⟨_, rfl⟩
  | destroy => exact exists_disableEverything hm
  | copy other =>
    refine Option.ne_none_iff_exists'.mp (mt Memory.copy_eq_none_iff.mp ?_)
    rintro ⟨-, hnone | ⟨-, hnone⟩⟩
    · exact Option.isSome_iff_ne_none.mp hm hnone
    · exact Option.isSome_iff_ne_none.mp (h other) hnone
  | config call => exact exists_config_run hm call

/-- A call leaves every macro with a context. -/
theorem Spec.contexts (h : Spec mem mem' m call) (hctx : Contexts mem) : Contexts mem' := by
  intro m'
  by_cases hm : m' = m
  · obtain ⟨m₁, hm₁⟩ := h.context
    rw [hm, hm₁]
    exact hctx m₁
  · rw [h.others m' hm]
    exact hctx m'

/-! ## What a call leaves alone -/

/-- The receiver is the macro or one of its triggers, or a trigger the call gives to it. -/
def Touches (mem : Memory) (m : MacroId) (call : MacroCall) (r : Receiver) : Prop :=
  r = .ofMacro m ∨ ∃ t, (t ∈ (mem.macros m).triggers ∨ t ∈ call.gives mem m) ∧ r = .trigger t

/-- The macro and the triggers it has or is given are touched. -/
theorem touches_of_owner {mem₁ : Memory} (htrig : ∀ t ∈ (mem₁.macros m).triggers,
      t ∈ (mem.macros m).triggers ∨ t ∈ call.gives mem m)
    (h : r = .ofMacro m ∨ ∃ t ∈ (mem₁.macros m).triggers, r = .trigger t) :
    call.Touches mem m r := by
  rcases h with hr | ⟨t, ht, hr⟩
  · exact Or.inl hr
  · exact Or.inr ⟨t, htrig t ht, hr⟩

/-- What is released belongs to the macro. -/
theorem owner_of_releases (h : mem.Releases m d r) :
    r = .ofMacro m ∨ ∃ t ∈ (mem.macros m).triggers, r = .trigger t := by
  obtain ⟨g, -, hr⟩ := h
  exact Memory.owner_of_released hr

/-- What is wanted belongs to the macro. -/
theorem owner_of_wants (h : mem.Wants m d r) :
    r = .ofMacro m ∨ ∃ t ∈ (mem.macros m).triggers, r = .trigger t := by
  obtain ⟨g, -, hw⟩ := h
  exact Memory.owner_of_wanted hw

/-- What a call removes as the old registration of the macro is touched by the call. -/
theorem touches_of_releases (h : mem.Releases m d r) : call.Touches mem m r :=
  touches_of_owner (fun _ ht => Or.inl ht) (owner_of_releases h)

/-- A call clears only what it touches. -/
theorem touches_of_clears (h : call.Clears mem m d r) : call.Touches mem m r := by
  cases call with
  | setBlocking val => exact h.elim
  | setApplyDispatchEnabled val => exact h.elim
  | destroy => exact touches_of_releases h
  | copy other =>
    obtain ⟨hself, h | ⟨-, h⟩⟩ := h
    · exact touches_of_releases h
    · -- the triggers of the source are given
      refine touches_of_owner (fun t ht => Or.inr ?_) (owner_of_releases h)
      rw [macros_copyFrom] at ht
      rwa [gives, if_neg hself]
  | config call =>
    cases call with
    | applyDispatch => exact touches_of_releases h.2
    | removeDispatch => exact touches_of_releases h
    | setInterruptor val => exact touches_of_releases h.2.2
    | setActivators array =>
      rcases h with h | ⟨-, h⟩
      · exact touches_of_releases h
      · refine touches_of_owner (fun t ht => Or.inl ?_) (owner_of_releases h)
        rwa [Memory.modify_macros_self] at ht
    | setTriggers array =>
      rcases h with h | ⟨-, h⟩
      · exact touches_of_releases h
      · refine touches_of_owner (fun t ht => Or.inr ?_) (owner_of_releases h)
        rwa [Memory.modify_macros_self] at ht

/-- **The frame of a call**: a receiver it does not touch stays registered where it was. -/
theorem Spec.has_iff_of_not_touches (h : Spec mem mem' m call) (hr : ¬ call.Touches mem m r)
    (d : DispatcherId) :
    Registry.Has mem'.dispatchers d r ↔ Registry.Has mem.dispatchers d r := by
  have hclears : ¬ call.Clears mem m d r := fun hc => hr (touches_of_clears hc)
  have hadds : ¬ call.Adds mem mem' m d r := by
    rintro ⟨-, -, -, hw⟩
    exact hr (touches_of_owner h.triggers (owner_of_wants hw))
  rw [h.has]
  tauto

/-- A call that leaves the macro disabled adds nothing. -/
theorem Spec.has_iff_of_disabled (h : Spec mem mem' m call)
    (hdis : (mem'.macros m).interruptor = .disable) (d : DispatcherId) (r : Receiver) :
    Registry.Has mem'.dispatchers d r ↔
      Registry.Has mem.dispatchers d r ∧ ¬ call.Clears mem m d r := by
  have hadds : ¬ call.Adds mem mem' m d r := by
    rintro ⟨-, -, hen, -⟩
    exact Macro.enabled_iff.mp hen hdis
  rw [h.has, or_iff_left hadds]

end MacroCall

end Libmacro
