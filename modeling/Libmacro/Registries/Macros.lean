import Libmacro.Containers.History
import Libmacro.MacroCalls
import Libmacro.Names
import Mathlib.Data.Finmap

/-! # The macro registry

`MacroRegistry` maps names to macros. `interrupt(type)` calls `setInterruptor(type)` once on each
macro in it, in the order of the iteration of an `unordered_map`, which is any order. What it does
is one statement (`Interrupted`) for a single macro and for all registered ones: a value other
than `DISABLE` takes each of these out of `DISABLE` and leaves every other macro alone. -/

namespace Libmacro

open Containers

/-- `_macroMap`: the macro pointer of each name. -/
abbrev MacroMap := Finmap fun _ : CString => Option MacroId

namespace MacroRegistry

/-- A call that changes the registry; `find` and `interrupt` only read it. -/
inductive Call where
  /-- `map(name, macroPtr)`. -/
  | map (name : CString) (macroPtr : Option MacroId)
  /-- `unmap(name)`. -/
  | unmap (name : CString)
  /-- `clear()`. -/
  | clear

/-- The map after a call: mapping a name again replaces its macro. -/
def apply (macroMap : MacroMap) : Call → MacroMap
  | .map name macroPtr => macroMap.insert name macroPtr
  | .unmap name => macroMap.erase name
  | .clear => ∅

/-- A new registry after a history of calls. -/
def after (calls : List Call) : MacroMap := calls.foldl apply ∅

/-- `find(name)`: a null pointer when the name is not mapped. -/
def find (macroMap : MacroMap) (name : CString) : Option MacroId := (macroMap.lookup name).join

/-- The loop of `interrupt(type)`; `set` holds the macros already interrupted. The memory after it
and the macros a reset thread was started for; `none` for a null pointer in the map or a macro
without context. -/
def interrupt (type : Interrupt) : List (Σ _ : CString, Option MacroId) →
    Finset (Option MacroId) → Memory → Option (Memory × List MacroId)
  | [], _, mem => some (mem, [])
  | iter :: rest, set, mem =>
    if iter.2 ∈ set then interrupt type rest set mem
    else do
      let m ← iter.2
      let (mem, spawnResetThread) ← mem.setInterruptor m type
      let (mem, resets) ← interrupt type rest (insert iter.2 set) mem
      some (mem, if spawnResetThread then m :: resets else resets)

/-- The iteration over the map may have the order `order`: each entry once. -/
def Enumerates (macroMap : MacroMap) (order : List (Σ _ : CString, Option MacroId)) : Prop :=
  macroMap.entries = order

/-- Whether a list enumerates a map is checked entry by entry. -/
instance (macroMap : MacroMap) (order : List (Σ _ : CString, Option MacroId)) :
    Decidable (Enumerates macroMap order) :=
  inferInstanceAs (Decidable (_ = _))

/-- A name is mapped to the macro, so that `interrupt` reaches it. -/
def Registered (macroMap : MacroMap) (m : MacroId) : Prop :=
  ∃ name, macroMap.lookup name = some (some m)

/-! ## Histories -/

/-- What a call makes of the entry of a name. -/
def sets (name : CString) : Call → Option (Option (Option MacroId))
  | .map name' macroPtr => if name' = name then some (some macroPtr) else none
  | .unmap name' => if name' = name then some none else none
  | .clear => some none

/-- A lookup after a call answers what the call has set for the name, and otherwise what was
there. -/
theorem lookup_apply (name : CString) (macroMap : MacroMap) (call : Call) :
    (apply macroMap call).lookup name = (sets name call).getD (macroMap.lookup name) := by
  cases call with
  | map name' macroPtr =>
    rw [apply, sets]
    by_cases h : name' = name
    · rw [if_pos h, h, Finmap.lookup_insert, Option.getD_some]
    · rw [if_neg h, Finmap.lookup_insert_of_ne _ (Ne.symm h), Option.getD_none]
  | unmap name' =>
    rw [apply, sets]
    by_cases h : name' = name
    · rw [if_pos h, h, Finmap.lookup_erase, Option.getD_some]
    · rw [if_neg h, Finmap.lookup_erase_ne (Ne.symm h), Option.getD_none]
  | clear => rw [apply, sets, Finmap.lookup_empty, Option.getD_some]

/-- **A name is mapped as the last call about it says**, a `clear` being about every name. -/
theorem lookup_after (name : CString) (calls : List Call) :
    (after calls).lookup name = (lastSet (sets name) calls).getD none := by
  have h := observe_foldl (fun macroMap : MacroMap => macroMap.lookup name)
    (lookup_apply name) ∅ calls
  rw [Finmap.lookup_empty] at h
  exact h

/-- `find` gives what the last call about the name mapped it to. -/
theorem find_after (name : CString) (calls : List Call) :
    find (after calls) name = ((lastSet (sets name) calls).getD none).join := by
  rw [find, lookup_after]

/-- A name is mapped to what the last call about it mapped it to. -/
theorem lookup_after_eq_some_iff {name : CString} {calls : List Call}
    {macroPtr : Option MacroId} :
    (after calls).lookup name = some macroPtr ↔ LastSet (sets name) calls (some macroPtr) := by
  rw [lookup_after, ← lastSet_eq_some_iff]
  cases lastSet (sets name) calls with
  | none => exact iff_of_false (Option.some_ne_none _).symm (Option.some_ne_none _).symm
  | some entry => rw [Option.getD_some, Option.some_inj]

/-- **A macro is registered when it was mapped** to a name that no later call is about. -/
theorem registered_after_iff {calls : List Call} {m : MacroId} :
    Registered (after calls) m ↔ ∃ name, LastSet (sets name) calls (some (some m)) :=
  exists_congr fun _ => lookup_after_eq_some_iff

/-- The iteration meets the pointers that names are mapped to. -/
theorem exists_lookup_iff {macroMap : MacroMap} {order : List (Σ _ : CString, Option MacroId)}
    (h : Enumerates macroMap order) {macroPtr : Option MacroId} :
    (∃ name, macroMap.lookup name = some macroPtr) ↔ macroPtr ∈ order.map Sigma.snd := by
  simp only [Finmap.lookup_eq_some_iff]
  rw [show macroMap.entries = order from h, List.mem_map]
  constructor
  · rintro ⟨name, hmem⟩
    exact ⟨⟨name, macroPtr⟩, hmem, rfl⟩
  · rintro ⟨⟨name, macroPtr⟩, hmem, rfl⟩
    exact ⟨name, hmem⟩

/-- The iteration meets the registered macros. -/
theorem registered_iff {macroMap : MacroMap} {order : List (Σ _ : CString, Option MacroId)}
    (h : Enumerates macroMap order) {m : MacroId} :
    Registered macroMap m ↔ ∃ iter ∈ order, iter.2 = some m :=
  (exists_lookup_iff h).trans List.mem_map

end MacroRegistry

/-! ## Interrupting macros -/

/-- **What interrupting the macros `S` does**; `resets` are those a reset thread was started
for. -/
structure Interrupted (type : Interrupt) (S : Set MacroId) (mem mem' : Memory)
    (resets : List MacroId) : Prop where
  /-- The interrupted macros have the value, or `CONTINUE` where `INTERRUPT_ALL` found nothing
  running. -/
  interruptor : ∀ m ∈ S, (mem'.macros m).interruptor =
    (MacroCall.config (.setInterruptor type)).interruptorAfter mem m
  /-- The reset threads: for the running macros that `INTERRUPT_ALL` changed. -/
  resets : ∀ m, m ∈ resets ↔ m ∈ S ∧ type ≠ (mem.macros m).interruptor ∧
    type = .interruptAll ∧ (mem.macros m).running = true
  /-- A macro that left `DISABLE` is registered where its configuration wants it. -/
  registers : ∀ m ∈ S, (mem.macros m).interruptor = .disable →
    (mem.macros m).applyDispatchFlag = true → type ≠ .disable → ∀ d,
    mem.Wants m d (.ofMacro m) → Registry.Has mem'.dispatchers d (.ofMacro m)
  /-- The other macros. -/
  others : ∀ m ∉ S, mem'.macros m = mem.macros m
  /-- The registrations of other receivers. -/
  has : ∀ r, (∀ m ∈ S, r ≠ .ofMacro m ∧ ∀ t ∈ (mem.macros m).triggers, r ≠ .trigger t) → ∀ d,
    Registry.Has mem'.dispatchers d r ↔ Registry.Has mem.dispatchers d r
  /-- The generic dispatchers. -/
  genericDispatcher : mem'.genericDispatcher = mem.genericDispatcher
  /-- The dispatchers of the signals. -/
  dispatcherPtr : mem'.dispatcherPtr = mem.dispatcherPtr

namespace Interrupted

variable {type : Interrupt} {S S' : Set MacroId} {mem mem₁ mem' : Memory}
  {resets resets' : List MacroId} {m : MacroId}

/-- Only `DISABLE` disables: any other value leaves another interruptor. -/
theorem interruptorAfter_ne_disable (h : type ≠ .disable) :
    (MacroCall.config (.setInterruptor type)).interruptorAfter mem m ≠ .disable := by
  rw [MacroCall.interruptorAfter, Macro.interruptorAfter]
  split_ifs
  · exact h
  · exact Interrupt.noConfusion
  · exact h

/-- With no macros to interrupt nothing is done. -/
theorem nil : Interrupted type ∅ mem mem [] where
  interruptor := fun _ h => h.elim
  resets := by simp
  registers := fun _ h => h.elim
  others := fun _ _ => rfl
  has := fun _ _ _ => Iff.rfl
  genericDispatcher := rfl
  dispatcherPtr := rfl

/-- `setInterruptor` on one macro interrupts this macro, with a reset thread if it asks for one. -/
theorem single {flag : Bool} (h : mem.setInterruptor m type = some (mem₁, flag)) :
    Interrupted type {m} mem mem₁ (if flag then [m] else []) := by
  have hspec := MacroCall.spec_setInterruptor h
  obtain ⟨hsetup, hflag⟩ := MacroCall.setup_setInterruptor h
  exact {
    interruptor := by
      intro m' hm
      rw [Set.mem_singleton_iff.mp hm]
      exact hspec.interruptor
    resets := by
      intro m'
      rw [Set.mem_singleton_iff]
      cases flag with
      | false =>
        refine iff_of_false List.not_mem_nil ?_
        rintro ⟨rfl, hreset⟩
        exact absurd (hflag.mpr hreset) Bool.false_ne_true
      | true =>
        rw [if_pos rfl, List.mem_singleton]
        constructor
        · rintro rfl
          exact ⟨rfl, hflag.mp rfl⟩
        · exact And.left
    registers := by
      intro m' hm hdis happly htype d hwants
      rw [Set.mem_singleton_iff.mp hm] at hdis happly hwants ⊢
      -- coming out of `DISABLE` the macro applies its dispatch, with the setup that it had
      refine (hspec.has d _).mpr (Or.inr ⟨?_, ?_, ?_, ?_⟩)
      · exact ⟨fun heq => htype (heq.trans hdis), Or.inl hdis⟩
      · rw [hsetup.flag]
        exact happly
      · rw [Macro.enabled_iff, hspec.interruptor]
        exact interruptorAfter_ne_disable htype
      · exact (Memory.Wants.congr hsetup).mpr hwants
    others := fun m' hm => hspec.others m' fun heq => hm (Set.mem_singleton_iff.mpr heq)
    has := by
      intro r hr d
      obtain ⟨hmac, htrig⟩ := hr m rfl
      refine hspec.has_iff_of_not_touches ?_ d
      -- the call touches the macro and its triggers only
      rintro (hself | ⟨t, ht | ht, htrig'⟩)
      · exact hmac hself
      · exact htrig t ht htrig'
      · exact absurd ht List.not_mem_nil
    genericDispatcher := hspec.genericDispatcher
    dispatcherPtr := hspec.dispatcherPtr }

/-- Interrupting other macros afterwards interrupts both sets, and the reset threads come in this
order. -/
theorem trans (h : Interrupted type S mem mem₁ resets) (h' : Interrupted type S' mem₁ mem' resets')
    (hdisj : ∀ m ∈ S, m ∉ S') : Interrupted type (S ∪ S') mem mem' (resets ++ resets') := by
  -- the second interrupt finds its macros as they were before the first
  have hmac : ∀ m ∈ S', mem₁.macros m = mem.macros m := fun m hm =>
    h.others m fun hS => hdisj m hS hm
  exact {
    interruptor := by
      rintro m (hm | hm)
      · rw [h'.others m (hdisj m hm), h.interruptor m hm]
      · rw [h'.interruptor m hm, MacroCall.interruptorAfter, MacroCall.interruptorAfter,
          hmac m hm]
    resets := by
      intro m
      rw [List.mem_append, h.resets, h'.resets, Set.mem_union]
      by_cases hm : m ∈ S'
      · rw [hmac m hm]
        tauto
      · tauto
    registers := by
      rintro m (hm | hm) hdis hflag htype d hwants
      · -- registered by the first, and no receiver of the second
        refine (h'.has (.ofMacro m) (fun m' hm' => ⟨?_, fun t _ => Receiver.noConfusion⟩) d).mpr
          (h.registers m hm hdis hflag htype d hwants)
        intro heq
        rw [Receiver.ofMacro.inj heq] at hm
        exact hdisj m' hm hm'
      · have hsetup : Memory.SameSetup mem mem₁ m := by
          constructor
          all_goals first | rw [hmac m hm] | exact h.genericDispatcher | exact h.dispatcherPtr
        rw [← hmac m hm] at hdis hflag
        exact h'.registers m hm hdis hflag htype d ((Memory.Wants.congr hsetup).mpr hwants)
    others := by
      intro m hm
      rw [Set.mem_union, not_or] at hm
      rw [h'.others m hm.2, h.others m hm.1]
    has := by
      intro r hr d
      rw [h'.has r, h.has r]
      · exact fun m hm => hr m (Or.inl hm)
      · intro m hm
        rw [hmac m hm]
        exact hr m (Or.inr hm)
    genericDispatcher := h'.genericDispatcher.trans h.genericDispatcher
    dispatcherPtr := h'.dispatcherPtr.trans h.dispatcherPtr }

end Interrupted

/-- Of the disabled macros just those in `S` are no longer disabled. -/
def EnablesOnly (S : Set MacroId) (mem mem' : Memory) : Prop :=
  ∀ m, (mem.macros m).interruptor = .disable → ((mem'.macros m).interruptor = .disable ↔ m ∉ S)

/-- Interrupting with another value than `DISABLE` enables. -/
theorem Interrupted.enablesOnly {type : Interrupt} {S : Set MacroId} {mem mem' : Memory}
    {resets : List MacroId} (h : Interrupted type S mem mem' resets) (htype : type ≠ .disable) :
    EnablesOnly S mem mem' := by
  intro m hdis
  by_cases hm : m ∈ S
  · refine iff_of_false ?_ (not_not_intro hm)
    rw [h.interruptor m hm]
    exact interruptorAfter_ne_disable htype
  · rw [h.others m hm]
    exact iff_of_true hdis hm

namespace MacroRegistry

variable {type : Interrupt} {mem : Memory}

/-- The macros that the loop has still to interrupt: those it meets that are not in `set`. -/
def waiting (set : Finset (Option MacroId)) (order : List (Σ _ : CString, Option MacroId)) :
    Set MacroId :=
  {m | some m ∉ set ∧ ∃ iter ∈ order, iter.2 = some m}

/-- When all have been visited none is left waiting. -/
theorem waiting_nil (set : Finset (Option MacroId)) : waiting set [] = ∅ := by
  ext m
  simp [waiting]

/-- Before the loop these are the macros of the iteration. -/
theorem waiting_empty (order : List (Σ _ : CString, Option MacroId)) :
    waiting ∅ order = {m | ∃ iter ∈ order, iter.2 = some m} := by
  ext m
  exact and_iff_right (Finset.notMem_empty _)

section Cons

variable {set : Finset (Option MacroId)} {iter : Σ _ : CString, Option MacroId}
  {rest : List (Σ _ : CString, Option MacroId)} {m : MacroId}

/-- A macro that was interrupted under an earlier name. -/
theorem waiting_cons_of_mem (hset : iter.2 ∈ set) :
    waiting set (iter :: rest) = waiting set rest := by
  ext m
  refine and_congr_right fun hm => ?_
  rw [List.exists_mem_cons_iff, or_iff_right]
  intro heq
  exact hm (heq ▸ hset)

/-- A macro that was not interrupted before is interrupted now, and waits no longer. -/
theorem waiting_cons_of_notMem (hm : iter.2 = some m) (hset : some m ∉ set) :
    waiting set (iter :: rest) = {m} ∪ waiting (insert (some m) set) rest := by
  ext m'
  rw [Set.mem_union, Set.mem_singleton_iff, waiting, waiting, Set.mem_ofPred_eq,
    Set.mem_ofPred_eq, List.exists_mem_cons_iff, Finset.mem_insert, hm, Option.some_inj,
    Option.some_inj]
  by_cases heq : m' = m
  · rw [heq]
    simp [hset]
  · simp [heq, Ne.symm heq]

/-- It does not wait any more. -/
theorem notMem_waiting_insert : m ∉ waiting (insert (some m) set) rest :=
  fun h => h.1 (Finset.mem_insert_self _ _)

end Cons

/-- The loop interrupts the macros it meets that are not in `set`. -/
theorem interrupt_spec (order : List (Σ _ : CString, Option MacroId))
    (set : Finset (Option MacroId)) (hnull : ∀ iter ∈ order, iter.2 ≠ none)
    (hctx : MacroCall.Contexts mem) :
    ∃ mem' resets, interrupt type order set mem = some (mem', resets) ∧
      Interrupted type (waiting set order) mem mem' resets := by
  induction order generalizing set mem with
  | nil =>
    refine ⟨mem, [], rfl, ?_⟩
    rw [waiting_nil]
    exact Interrupted.nil
  | cons iter rest ih =>
    have hrest : ∀ iter' ∈ rest, iter'.2 ≠ none := fun iter' hiter' =>
      hnull iter' (List.mem_cons_of_mem _ hiter')
    by_cases hset : iter.2 ∈ set
    · -- interrupted under an earlier name
      obtain ⟨mem', resets, hrun, hint⟩ := ih set hrest hctx
      refine ⟨mem', resets, ?_, ?_⟩
      · rw [interrupt, if_pos hset, hrun]
      · rw [waiting_cons_of_mem hset]
        exact hint
    · -- this macro, and then the others of the rest
      obtain ⟨m, hm⟩ := Option.ne_none_iff_exists'.mp (hnull iter List.mem_cons_self)
      rw [hm] at hset
      obtain ⟨_, hsome⟩ := MacroCall.exists_run hctx m (.config (.setInterruptor type))
      obtain ⟨⟨mem₁, flag⟩, hcall, -⟩ := Option.map_eq_some_iff.mp hsome
      obtain ⟨mem', resets, hrun, hint⟩ := ih (insert (some m) set) hrest
        ((MacroCall.spec_setInterruptor hcall).contexts hctx)
      have hdisj : ∀ m' ∈ ({m} : Set MacroId), m' ∉ waiting (insert (some m) set) rest := by
        rintro m' rfl
        exact notMem_waiting_insert
      have hresets : (if flag then m :: resets else resets)
          = (if flag then [m] else []) ++ resets := by
        cases flag <;> rfl
      refine ⟨mem', if flag then m :: resets else resets, ?_, ?_⟩
      · simp only [interrupt, hm, hset, if_false, Option.bind_eq_bind, Option.bind_some, hcall,
          hrun]
      · rw [waiting_cons_of_notMem hm hset, hresets]
        exact (Interrupted.single hcall).trans hint hdisj

/-- **Interrupting enables what it interrupts and nothing else**: `PAUSE`, `INTERRUPT` and
`INTERRUPT_ALL`, as `CONTINUE`, take a macro out of `DISABLE` when it is the one `setInterruptor`
is called on, or a registered one for `interrupt`; every other macro stays as it is. -/
theorem interrupt_enablesOnly (calls : List Call) (type : Interrupt) (mem : Memory)
    (htype : type ≠ .disable) (hctx : MacroCall.Contexts mem) :
    (∀ m, ∃ mem' flag, mem.setInterruptor m type = some (mem', flag) ∧
      Interrupted type {m} mem mem' (if flag then [m] else []) ∧ EnablesOnly {m} mem mem') ∧
    ∀ order, Enumerates (after calls) order → (∀ iter ∈ order, iter.2 ≠ none) →
      ∃ mem' resets, interrupt type order ∅ mem = some (mem', resets) ∧
        Interrupted type {m | Registered (after calls) m} mem mem' resets ∧
        EnablesOnly {m | Registered (after calls) m} mem mem' := by
  constructor
  · intro m
    obtain ⟨_, hsome⟩ := MacroCall.exists_run hctx m (.config (.setInterruptor type))
    obtain ⟨⟨mem', flag⟩, hcall, -⟩ := Option.map_eq_some_iff.mp hsome
    have hint := Interrupted.single hcall
    exact ⟨mem', flag, hcall, hint, hint.enablesOnly htype⟩
  · intro order horder hnull
    obtain ⟨mem', resets, hrun, hint⟩ := interrupt_spec order ∅ hnull hctx
    have hset : waiting ∅ order = {m | Registered (after calls) m} := by
      ext m
      rw [waiting_empty, Set.mem_ofPred_eq, Set.mem_ofPred_eq, registered_iff horder]
    rw [hset] at hint
    exact ⟨mem', resets, hrun, hint, hint.enablesOnly htype⟩

/-- Macro 0 under its second name. -/
theorem interrupt_enablesOnly_renamed :
    ∃ mem' resets, interrupt .pause [⟨.lit "b", some 0⟩] ∅ ConfigCall.fresh
        = some (mem', resets) ∧
      Interrupted .pause {m | Registered (after [.map (.lit "a") (some 0),
        .map (.lit "b") (some 0), .unmap (.lit "a")]) m} ConfigCall.fresh mem' resets ∧
      EnablesOnly {m | Registered (after [.map (.lit "a") (some 0),
        .map (.lit "b") (some 0), .unmap (.lit "a")]) m} ConfigCall.fresh mem' :=
  (interrupt_enablesOnly _ .pause ConfigCall.fresh (by decide) MacroCall.contexts_fresh).2
    [⟨.lit "b", some 0⟩] (by decide) (by decide)

/-- **A disabled macro is enabled by an interrupt**: registered and new, and so disabled, it can
trigger after each of the values that should only stop it. -/
theorem not_interrupt_keeps_disabled :
    Enumerates (after [.map (.lit "a") (some 0)]) [⟨.lit "a", some 0⟩] ∧
    ∀ type ∈ [Interrupt.pause, .interrupt, .interruptAll],
      ∃ mem', interrupt type [⟨.lit "a", some 0⟩] ∅ ConfigCall.fresh = some (mem', []) ∧
        (ConfigCall.fresh.macros 0).interruptor = .disable ∧
        (mem'.macros 0).interruptor ≠ .disable ∧
        Registry.Has mem'.dispatchers 0 (.ofMacro 0) := by
  refine ⟨by decide, fun type htype => ?_⟩
  have hstate : ∀ type ∈ [Interrupt.pause, .interrupt, .interruptAll],
      ((interrupt type [⟨.lit "a", some 0⟩] ∅ ConfigCall.fresh).map fun (mem', resets) =>
        (decide ((mem'.macros 0).interruptor ≠ .disable),
          decide (Registry.Has mem'.dispatchers 0 (.ofMacro 0)), resets)) =
        some (true, true, []) := by decide
  obtain ⟨⟨mem', resets⟩, hrun, hafter⟩ := Option.map_eq_some_iff.mp (hstate type htype)
  rw [Prod.mk.injEq, Prod.mk.injEq, decide_eq_true_eq, decide_eq_true_eq] at hafter
  obtain ⟨hen, hhas, rfl⟩ := hafter
  exact ⟨mem', hrun, rfl, hen, hhas⟩

end MacroRegistry

end Libmacro
