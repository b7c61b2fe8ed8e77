import Libmacro.Memory

/-! # Dispatch registration of a macro

`MacroImpl::_removeDispatch`, `_addDispatch`, `_applyDispatch` and the setters built on them.
They read the macro and the objects it points to from the memory and rewrite the dispatchers
(`Registry`); reading the generic dispatcher of a null context is undefined (`none`).

The membership lemmas say which (dispatcher, receiver) pairs each function removes (`Released`)
and adds (`Wanted`); the later files use them and never unfold the functions. -/

namespace Libmacro

/-- The receivers of all dispatchers: each dispatcher has a set of its own. -/
abbrev Registry := DispatcherId → Dispatcher Receiver

namespace Registry

/-- `dispatcher->add(signalPtr, receiverPtr)` on dispatcher `d`; the others keep theirs. -/
def add (reg : Registry) (d : DispatcherId) (r : Receiver) : Registry :=
  Function.update reg d ((reg d).add (some r))

/-- `dispatcher->remove(receiverPtr)` on dispatcher `d`; the others keep theirs. -/
def remove (reg : Registry) (d : DispatcherId) (r : Receiver) : Registry :=
  Function.update reg d ((reg d).remove (some r))

/-- `r` is registered with dispatcher `d`. -/
def Has (reg : Registry) (d : DispatcherId) (r : Receiver) : Prop := (reg d).Has r

/-- Whether a pair is registered is looked up in the dispatcher. -/
instance (reg : Registry) (d : DispatcherId) (r : Receiver) : Decidable (reg.Has d r) :=
  inferInstanceAs (Decidable (Dispatcher.Has _ _))

variable {reg : Registry} {d d' : DispatcherId} {r r' : Receiver}

/-- `add` registers one pair, and leaves the others as they were. -/
@[simp] theorem has_add : (reg.add d r).Has d' r' ↔ (d' = d ∧ r' = r) ∨ reg.Has d' r' := by
  by_cases h : d' = d
  · subst h; simp [add, Has]
  · simp [add, Has, h]

/-- `remove` takes one pair away, and leaves the others as they were. -/
@[simp] theorem has_remove :
    (reg.remove d r).Has d' r' ↔ reg.Has d' r' ∧ ¬ (d' = d ∧ r' = r) := by
  by_cases h : d' = d
  · subst h; simp [remove, Has, and_comm]
  · simp [remove, Has, h]

end Registry

namespace Memory

/-- `_context->genericDispatcher()`; the outer `none` says that the context pointer is null, the
inner one that the context has no dispatcher. -/
def contextDispatcher (mem : Memory) (m : MacroId) : Option (Option DispatcherId) :=
  (mem.macros m).context.map mem.genericDispatcher

/-- `MacroImpl::removeDispatcherTriggers`: each trigger of the macro is removed from one dispatcher.
-/
def removeDispatcherTriggers (mem : Memory) (m : MacroId) (d : DispatcherId)
    (reg : Registry) : Registry :=
  (mem.macros m).triggers.foldl (fun reg trigPtr => reg.remove d (.trigger trigPtr)) reg

/-- The loop of `_removeDispatch` over the activators; `dispset` holds the dispatchers already
done. -/
def removeActivators (mem : Memory) (m : MacroId) :
    List SignalId → List DispatcherId → Registry → Registry
  | [], _, reg => reg
  | signalPtr :: rest, dispset, reg =>
    match mem.dispatcherPtr signalPtr with
    | none => removeActivators mem m rest dispset reg
    | some d =>
      if d ∈ dispset then removeActivators mem m rest dispset reg
      else removeActivators mem m rest (d :: dispset)
        (mem.removeDispatcherTriggers m d (reg.remove d (.ofMacro m)))

/-- `MacroImpl::_removeDispatch`: the generic dispatcher loses the macro, the activators'
dispatchers lose the macro and its triggers. -/
def removeDispatch (mem : Memory) (m : MacroId) (reg : Registry) : Option Registry := do
  let gdisp ← mem.contextDispatcher m
  let reg := match gdisp with
    | some g => reg.remove g (.ofMacro m)
    | none => reg
  some (mem.removeActivators m (mem.macros m).activators [] reg)

/-- `MacroImpl::_addDispatch(Signal &)`: the macro goes to the dispatcher of the signal, if it has
one. -/
def addDispatchSignal (mem : Memory) (m : MacroId) (signalPtr : SignalId)
    (reg : Registry) : Registry :=
  match mem.dispatcherPtr signalPtr with
  | none => reg
  | some d => reg.add d (.ofMacro m)

/-- `MacroImpl::_addDispatch(Trigger &)`: the trigger goes to the generic dispatcher of the context,
if it has one. -/
def addDispatchTrigger (mem : Memory) (m : MacroId) (trigPtr : TriggerId)
    (reg : Registry) : Option Registry := do
  match ← mem.contextDispatcher m with
  | none => some reg
  | some g => some (reg.add g (.trigger trigPtr))

/-- `MacroImpl::_addDispatch(Signal &, Trigger &)`: the trigger goes to the dispatcher of the
signal, if it has one. -/
def addDispatchPair (mem : Memory) (signalPtr : SignalId) (trigPtr : TriggerId)
    (reg : Registry) : Registry :=
  match mem.dispatcherPtr signalPtr with
  | none => reg
  | some d => reg.add d (.trigger trigPtr)

/-- `MacroImpl::pairActivatorsAndTriggers`: each trigger, or the macro when it has none, goes to
the dispatcher of each activator. -/
def pairActivatorsAndTriggers (mem : Memory) (m : MacroId) (reg : Registry) : Registry :=
  (mem.macros m).activators.foldl (fun reg activator =>
    if (mem.macros m).triggers = [] then mem.addDispatchSignal m activator reg
    else (mem.macros m).triggers.foldl
      (fun reg trigger => mem.addDispatchPair activator trigger reg) reg) reg

/-- `MacroImpl::_addDispatch()`: activators are paired with the triggers or with the macro; without
activators the triggers, or else the macro, go to the generic dispatcher. -/
def addDispatch (mem : Memory) (m : MacroId) (reg : Registry) : Option Registry :=
  if (mem.macros m).activators = [] then
    if (mem.macros m).triggers = [] then
      (mem.contextDispatcher m).map fun gdisp => match gdisp with
        | none => reg
        | some g => reg.add g (.ofMacro m)
    else (mem.macros m).triggers.foldlM (fun reg trig => mem.addDispatchTrigger m trig reg) reg
  else some (mem.pairActivatorsAndTriggers m reg)

/-- `MacroImpl::_applyDispatch`: with the flag set the registrations are removed, and made again if
the macro is enabled. -/
def applyDispatch (mem : Memory) (m : MacroId) (reg : Registry) : Option Registry :=
  if (mem.macros m).applyDispatchFlag then do
    let reg ← mem.removeDispatch m reg
    if (mem.macros m).enabled then mem.addDispatch m reg else some reg
  else some reg

/-! ## Which pairs are removed and added -/

/-- `d` is the dispatcher of one of the signals `as`; signals without a dispatcher have no say. -/
def DispatcherOf (mem : Memory) (as : List SignalId) (d : DispatcherId) : Prop :=
  ∃ a ∈ as, mem.dispatcherPtr a = some d

/-- The signals of the list are asked for their dispatcher one after the other. -/
instance (mem : Memory) (as : List SignalId) (d : DispatcherId) :
    Decidable (mem.DispatcherOf as d) :=
  inferInstanceAs (Decidable (∃ a ∈ as, _))

/-- Without signals there is no dispatcher to look at. -/
@[simp] theorem not_dispatcherOf_nil (mem : Memory) (d : DispatcherId) :
    ¬ mem.DispatcherOf [] d := by
  simp [DispatcherOf]

/-- `r` is a trigger of macro `m`, by its current list of triggers. -/
def IsTrigger (mem : Memory) (m : MacroId) (r : Receiver) : Prop :=
  ∃ t ∈ (mem.macros m).triggers, r = .trigger t

/-- The pairs that `_removeDispatch` of macro `m` removes, when `g` is the generic dispatcher of its
context. -/
def Released (mem : Memory) (m : MacroId) (g : Option DispatcherId) (d : DispatcherId)
    (r : Receiver) : Prop :=
  (r = .ofMacro m ∧ (g = some d ∨ mem.DispatcherOf (mem.macros m).activators d)) ∨
    (mem.IsTrigger m r ∧ mem.DispatcherOf (mem.macros m).activators d)

/-- The pairs that `_addDispatch` of macro `m` adds, in its four shapes: with and without
activators, with and without triggers. -/
def Wanted (mem : Memory) (m : MacroId) (g : Option DispatcherId) (d : DispatcherId)
    (r : Receiver) : Prop :=
  if (mem.macros m).activators = [] then
    g = some d ∧ if (mem.macros m).triggers = [] then r = .ofMacro m else mem.IsTrigger m r
  else
    mem.DispatcherOf (mem.macros m).activators d ∧
      if (mem.macros m).triggers = [] then r = .ofMacro m else mem.IsTrigger m r

variable {mem : Memory} {m : MacroId} {reg reg' : Registry} {d d' : DispatcherId} {r : Receiver}
  {g : Option DispatcherId}

/-- The inner loop of `_removeDispatch` takes all triggers of the macro from one dispatcher. -/
@[simp] theorem has_removeDispatcherTriggers :
    (mem.removeDispatcherTriggers m d reg).Has d' r ↔
      reg.Has d' r ∧ ¬ (d' = d ∧ mem.IsTrigger m r) := by
  rw [removeDispatcherTriggers, IsTrigger]
  -- the induction is on the triggers alone: the macro that owns them stays
  generalize (mem.macros m).triggers = ts
  induction ts generalizing reg with
  | nil => simp
  | cons t ts ih =>
    rw [List.foldl_cons, ih, Registry.has_remove, and_assoc]
    simp only [List.mem_cons, exists_eq_or_imp, and_or_left, not_or]

/-- The activators' loop removes the macro and its triggers from the dispatchers it meets,
provided those in `dispset` have been done before. -/
theorem has_removeActivators {as : List SignalId} {dispset : List DispatcherId}
    (hdone : ∀ d ∈ dispset, reg.Has d r → ¬ (r = .ofMacro m ∨ mem.IsTrigger m r)) :
    (mem.removeActivators m as dispset reg).Has d r ↔
      reg.Has d r ∧ ¬ (mem.DispatcherOf as d ∧ (r = .ofMacro m ∨ mem.IsTrigger m r)) := by
  induction as generalizing reg dispset with
  | nil => simp [removeActivators]
  | cons a as ih =>
    have hcons : mem.DispatcherOf (a :: as) d ↔
        mem.dispatcherPtr a = some d ∨ mem.DispatcherOf as d := by
      simp [DispatcherOf]
    rw [removeActivators]
    cases ha : mem.dispatcherPtr a with
    | none =>
      simp only [ih hdone, hcons, ha]
      simp
    | some e =>
      simp only [hcons, ha, Option.some.injEq]
      by_cases he : e ∈ dispset
      · -- the dispatcher has been done before: nothing of the macro is left on it
        rw [if_pos he, ih hdone]
        have := hdone e he
        constructor
        · rintro ⟨hreg, hnot⟩
          refine ⟨hreg, ?_⟩
          rintro ⟨rfl | hd, hr⟩
          · exact this hreg hr
          · exact hnot ⟨hd, hr⟩
        · rintro ⟨hreg, hnot⟩
          exact ⟨hreg, fun h => hnot ⟨.inr h.1, h.2⟩⟩
      · -- it is done now, and joins `dispset`
        rw [if_neg he, ih]
        · simp only [has_removeDispatcherTriggers, Registry.has_remove]
          have heq : d = e ↔ e = d := eq_comm
          tauto
        · intro e' he' hreg
          simp only [has_removeDispatcherTriggers, Registry.has_remove] at hreg
          rcases List.mem_cons.mp he' with rfl | he'
          · tauto
          · exact hdone e' he' hreg.1.1

/-- **What `_removeDispatch` removes**: exactly the `Released` pairs, and every other registration
stays. -/
theorem has_removeDispatch (hctx : mem.contextDispatcher m = some g)
    (h : mem.removeDispatch m reg = some reg') :
    reg'.Has d r ↔ reg.Has d r ∧ ¬ mem.Released m g d r := by
  simp only [removeDispatch, hctx, Option.bind_eq_bind, Option.bind_some,
    Option.some.injEq] at h
  subst h
  rw [has_removeActivators (by simp)]
  cases g with
  | none => simp only [Released]; simp; tauto
  | some e =>
    simp only [Registry.has_remove, Released, Option.some.injEq]
    have heq : d = e ↔ e = d := eq_comm
    tauto

/-- A context is all that `_removeDispatch` needs to go through. -/
theorem removeDispatch_isSome (reg : Registry) (hctx : mem.contextDispatcher m = some g) :
    ∃ reg', mem.removeDispatch m reg = some reg' := by
  simp [removeDispatch, hctx]

/-- `_addDispatch(Signal &)` registers the macro with the dispatcher of the signal, if it has
one. -/
@[simp] theorem has_addDispatchSignal {a : SignalId} :
    (mem.addDispatchSignal m a reg).Has d r ↔
      reg.Has d r ∨ (mem.dispatcherPtr a = some d ∧ r = .ofMacro m) := by
  unfold addDispatchSignal
  cases mem.dispatcherPtr a with
  | none => simp
  | some e =>
    simp only [Registry.has_add, Option.some.injEq]
    rw [eq_comm (a := d), or_comm]

/-- `_addDispatch(Signal &, Trigger &)` registers the trigger with the dispatcher of the signal, if
it has one. -/
@[simp] theorem has_addDispatchPair {a : SignalId} {t : TriggerId} :
    (mem.addDispatchPair a t reg).Has d r ↔
      reg.Has d r ∨ (mem.dispatcherPtr a = some d ∧ r = .trigger t) := by
  unfold addDispatchPair
  cases mem.dispatcherPtr a with
  | none => simp
  | some e =>
    simp only [Registry.has_add, Option.some.injEq]
    rw [eq_comm (a := d), or_comm]

/-- One activator is paired with each of the triggers `ts`. -/
theorem has_foldl_addDispatchPair {a : SignalId} {ts : List TriggerId} :
    Registry.Has (ts.foldl (fun reg t => mem.addDispatchPair a t reg) reg) d r ↔
      reg.Has d r ∨ (mem.dispatcherPtr a = some d ∧ ∃ t ∈ ts, r = .trigger t) := by
  induction ts generalizing reg with
  | nil => simp
  | cons t ts ih =>
    rw [List.foldl_cons, ih, has_addDispatchPair, or_assoc]
    simp only [List.mem_cons, exists_eq_or_imp, and_or_left]

/-- `pairActivatorsAndTriggers` adds the `Wanted` pairs of a macro with activators. -/
theorem has_pairActivatorsAndTriggers :
    (mem.pairActivatorsAndTriggers m reg).Has d r ↔
      reg.Has d r ∨ (mem.DispatcherOf (mem.macros m).activators d ∧
        if (mem.macros m).triggers = [] then r = .ofMacro m else mem.IsTrigger m r) := by
  rw [pairActivatorsAndTriggers]
  generalize (mem.macros m).activators = as
  induction as generalizing reg with
  | nil => simp
  | cons a as ih =>
    have hcons : mem.DispatcherOf (a :: as) d ↔
        mem.dispatcherPtr a = some d ∨ mem.DispatcherOf as d := by
      simp [DispatcherOf]
    rw [List.foldl_cons, ih, hcons, or_and_right, ← or_assoc]
    -- an activator is paired with each trigger, or stands for the macro
    by_cases ht : (mem.macros m).triggers = []
    · simp only [if_pos ht, has_addDispatchSignal]
    · simp only [if_neg ht, has_foldl_addDispatchPair, IsTrigger]

/-- `_addDispatch(Trigger &)` adds the trigger to the generic dispatcher, when there is one. -/
theorem addDispatchTrigger_eq (hctx : mem.contextDispatcher m = some g) {t : TriggerId} :
    mem.addDispatchTrigger m t reg = some (g.elim reg (reg.add · (.trigger t))) := by
  rw [addDispatchTrigger, hctx]
  cases g <;> rfl

/-- Without activators the triggers `ts` are added to the generic dispatcher. -/
theorem has_foldlM_addDispatchTrigger (hctx : mem.contextDispatcher m = some g)
    {ts : List TriggerId} : ∃ reg',
      ts.foldlM (fun reg t => mem.addDispatchTrigger m t reg) reg = some reg' ∧
      ∀ d r, Registry.Has reg' d r ↔ reg.Has d r ∨ (g = some d ∧ ∃ t ∈ ts, r = .trigger t) := by
  induction ts generalizing reg with
  | nil => exact ⟨reg, rfl, by simp⟩
  | cons t ts ih =>
    obtain ⟨reg', hreg', hhas⟩ := @ih (g.elim reg (reg.add · (.trigger t)))
    refine ⟨reg', ?_, fun d r => ?_⟩
    · rw [List.foldlM_cons, addDispatchTrigger_eq hctx]
      exact hreg'
    · rw [hhas]
      simp only [List.mem_cons, exists_eq_or_imp, and_or_left]
      cases g with
      | none => simp
      | some e =>
        simp only [Option.elim, Registry.has_add, Option.some.injEq]
        rw [eq_comm (a := d), or_comm (b := reg.Has d r), or_assoc]

/-- **What `_addDispatch` adds**: exactly the `Wanted` pairs, and every earlier registration stays.
-/
theorem has_addDispatch (reg : Registry) (hctx : mem.contextDispatcher m = some g) : ∃ reg',
    mem.addDispatch m reg = some reg' ∧
      ∀ d r, Registry.Has reg' d r ↔ reg.Has d r ∨ mem.Wanted m g d r := by
  unfold addDispatch Wanted
  by_cases ha : (mem.macros m).activators = []
  · simp only [if_pos ha]
    by_cases ht : (mem.macros m).triggers = []
    · simp only [if_pos ht, hctx, Option.map_some, Option.some.injEq, exists_eq_left']
      intro d r
      cases g with
      | none => simp
      | some e =>
        simp only [Registry.has_add, Option.some.injEq]
        rw [eq_comm (a := d), or_comm]
    · simp only [if_neg ht]
      exact has_foldlM_addDispatchTrigger hctx
  · -- with activators the generic dispatcher plays no part
    simp only [if_neg ha]
    exact ⟨_, rfl, fun _ _ => has_pairActivatorsAndTriggers⟩

/-- **What `_applyDispatch` leaves registered**: the pairs that were there and are not released
by the current configuration, and, when the macro is enabled, the wanted ones. -/
theorem has_applyDispatch (reg : Registry) (hctx : mem.contextDispatcher m = some g)
    (hflag : (mem.macros m).applyDispatchFlag = true) : ∃ reg',
    mem.applyDispatch m reg = some reg' ∧
      ∀ d r, Registry.Has reg' d r ↔ (reg.Has d r ∧ ¬ mem.Released m g d r) ∨
        ((mem.macros m).enabled = true ∧ mem.Wanted m g d r) := by
  -- the release comes first, enabled or not
  obtain ⟨reg₁, hreg₁⟩ := removeDispatch_isSome reg hctx
  have hhas₁ := fun d r => has_removeDispatch (d := d) (r := r) hctx hreg₁
  cases hen : (mem.macros m).enabled with
  | false =>
    refine ⟨reg₁, ?_, fun d r => ?_⟩
    · simp [applyDispatch, hflag, hreg₁, hen]
    · rw [hhas₁]; simp
  | true =>
    obtain ⟨reg₂, hreg₂, hhas₂⟩ := has_addDispatch reg₁ hctx
    refine ⟨reg₂, ?_, fun d r => ?_⟩
    · simp [applyDispatch, hflag, hreg₁, hreg₂, hen]
    · rw [hhas₂, hhas₁]; simp

/-- What is released belongs to the macro: it is the macro itself or one of its triggers. -/
theorem owner_of_released (h : mem.Released m g d r) : r = .ofMacro m ∨ mem.IsTrigger m r := by
  rcases h with ⟨hr, -⟩ | ⟨ht, -⟩
  · exact .inl hr
  · exact .inr ht

/-- What is wanted belongs to the macro: it is the macro itself or one of its triggers. -/
theorem owner_of_wanted (h : mem.Wanted m g d r) : r = .ofMacro m ∨ mem.IsTrigger m r := by
  rw [Wanted] at h
  split at h
  · obtain ⟨-, h⟩ := h
    split at h
    · exact .inl h
    · exact .inr h
  · obtain ⟨-, h⟩ := h
    split at h
    · exact .inl h
    · exact .inr h

/-- A wanted pair that is not released is a trigger on the generic dispatcher, wanted for lack
of activators: the one shape `_removeDispatch` does not undo. -/
theorem wanted_not_released_iff :
    mem.Wanted m g d r ∧ ¬ mem.Released m g d r ↔
      (mem.macros m).activators = [] ∧ g = some d ∧ mem.IsTrigger m r := by
  unfold Wanted Released
  by_cases ha : (mem.macros m).activators = []
  · by_cases ht : (mem.macros m).triggers = []
    · simp [ha, ht, IsTrigger]
      tauto
    · simp only [ha, ht, if_true, if_false, not_dispatcherOf_nil, or_false, and_false, true_and]
      constructor
      · rintro ⟨h, -⟩; exact h
      · rintro ⟨hg, t, ht', rfl⟩
        exact ⟨⟨hg, t, ht', rfl⟩, by simp⟩
  · simp only [ha, if_false, false_and, iff_false]
    by_cases ht : (mem.macros m).triggers = []
    · simp only [ht, if_true]
      tauto
    · simp only [ht, if_false]
      tauto

end Memory

end Libmacro
