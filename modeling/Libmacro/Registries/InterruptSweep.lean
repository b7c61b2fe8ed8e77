import Libmacro.Containers.Sweep
import Libmacro.PublicCalls
import Libmacro.Registries.Macros

/-! # Interrupting through the registry

`MacroRegistry::interrupt(type)` calls `interrupt(type)` through each distinct pointer of its map,
in the order of the map, until a call stops: a value out of range makes the first call throw, a
null pointer or a null context is undefined, and a reset thread that cannot be created leaves the
loop with the macros after it uncalled. Each registered macro is called once in every order iff
none of this can happen, up to the only registered macro (`interrupted_once_iff`). -/

namespace Libmacro

open Containers

namespace MacroRegistry

/-- `iter.second->interrupt(type)`, which is undefined for a null pointer. -/
def interruptPtr (type : ℤ) (creates : MacroId → Bool) (macroPtr : Option MacroId)
    (mem : Memory) : Memory × Option Stop :=
  match macroPtr with
  | none => (mem, some .undefined)
  | some m => mem.interrupt m type (creates m)

/-- `MacroRegistry::interrupt(type)` with any value; `creates` says of which macros a reset thread
can be created. The pointers visited are those `interrupt(type)` is called through. -/
def interruptAny (type : ℤ) (creates : MacroId → Bool)
    (order : List (Σ _ : CString, Option MacroId)) (mem : Memory) :
    Swept (Option MacroId) Memory Stop :=
  sweep (interruptPtr type creates) (order.map Sigma.snd) ∅ mem

/-- A name is left mapped to the pointer: no call about the name comes after the `map`. -/
def Mapped (calls : List Call) (macroPtr : Option MacroId) : Prop :=
  ∃ name, LastSet (sets name) calls (some macroPtr)

/-- **`interrupt(type)` did its work**: no null pointer was followed; with a value in range each
macro that `find` gives was called once and no other one; with a value out of range no interruptor
changed. -/
structure InterruptedOnce (calls : List Call) (type : ℤ) (mem : Memory)
    (swept : Swept (Option MacroId) Memory Stop) : Prop where
  /-- The behaviour is defined. -/
  defined : swept.stop ≠ some .undefined
  /-- No call through a null pointer. -/
  notNull : none ∉ swept.visited
  /-- Each macro once. -/
  once : Interrupt.ofCode? type ≠ none → ∀ m, (∃ name, find (after calls) name = some m) →
    swept.visited.count (some m) = 1
  /-- No other macro. -/
  others : ∀ m, some m ∈ swept.visited → ∃ name, find (after calls) name = some m
  /-- A value out of range. -/
  kept : Interrupt.ofCode? type = none → ∀ m,
    (swept.state.macros m).interruptor = (mem.macros m).interruptor

/-- **`interrupt(type)` can do its work** on the macros mapped after `calls`. -/
structure Interruptible (calls : List Call) (type : ℤ) (creates : MacroId → Bool)
    (mem : Memory) : Prop where
  /-- No name is left mapped to a null pointer. -/
  mapped : ¬ Mapped calls none
  /-- No mapped macro reads a null context. -/
  context : ∀ val, Interrupt.ofCode? type = some val → ∀ m, Mapped calls (some m) →
    ¬ mem.ReadsNullContext m val
  /-- A mapped macro whose reset thread cannot be created is the only one. -/
  thread : ∀ val, Interrupt.ofCode? type = some val → ∀ m, Mapped calls (some m) →
    mem.NeedsResetThread m val → creates m = false → ∀ m', Mapped calls (some m') → m' = m

variable {type : ℤ} {creates : MacroId → Bool} {calls : List Call} {mem : Memory}
  {order : List (Σ _ : CString, Option MacroId)}

/-! ## The pointers of the map -/

/-- The iteration meets the pointers that are left mapped. -/
theorem mem_order_iff (h : Enumerates (after calls) order) {macroPtr : Option MacroId} :
    macroPtr ∈ order.map Sigma.snd ↔ Mapped calls macroPtr := by
  rw [← exists_lookup_iff h]
  exact exists_congr fun _ => lookup_after_eq_some_iff

/-- `find` gives the macros that are left mapped. -/
theorem exists_find_iff {m : MacroId} :
    (∃ name, find (after calls) name = some m) ↔ Mapped calls (some m) :=
  exists_congr fun _ => Option.join_eq_some_iff.trans lookup_after_eq_some_iff

/-- Every order of the pointers is one the map may have. -/
theorem exists_enumerates (h : Enumerates (after calls) order) {keys : List (Option MacroId)}
    (hperm : keys.Perm (order.map Sigma.snd)) :
    ∃ order', Enumerates (after calls) order' ∧ order'.map Sigma.snd = keys := by
  obtain ⟨order', rfl, horder⟩ :=
    (congrFun₂ (List.eq_map_comp_perm Sigma.snd) keys order).mpr hperm
  exact ⟨order', h.trans (Multiset.coe_eq_coe.mpr horder.symm), rfl⟩

/-- What holds for every order of the map holds for every order of its pointers. -/
theorem forall_enumerates_iff (h : Enumerates (after calls) order)
    (P : List (Option MacroId) → Prop) :
    (∀ order', Enumerates (after calls) order' → P (order'.map Sigma.snd)) ↔
      ∀ keys, keys.Perm (order.map Sigma.snd) → P keys := by
  constructor
  · intro hall keys hperm
    obtain ⟨order', horder', rfl⟩ := exists_enumerates h hperm
    exact hall order' horder'
  · intro hall order' horder'
    have hperm : order'.Perm order := Multiset.coe_eq_coe.mp (horder'.symm.trans h)
    exact hall _ (hperm.map Sigma.snd)

/-! ## One call -/

/-- Whether the call through a pointer stops depends on its own macro only. -/
theorem independent_interruptPtr (type : ℤ) (creates : MacroId → Bool) :
    Independent (interruptPtr type creates) := by
  intro macroPtr macroPtr' mem hne
  cases macroPtr' with
  | none => rfl
  | some m' =>
    cases macroPtr with
    | none => rfl
    | some m =>
      have hother : ((mem.interrupt m type (creates m)).1.macros m') = mem.macros m' :=
        (mem.confined_interrupt m type (creates m)).others m' fun heq => hne (heq ▸ rfl)
      exact Memory.interrupt_snd_congr hother

/-- The call through a pointer that is left mapped is defined, when the macros can be
interrupted. -/
theorem Interruptible.defined (h : Interruptible calls type creates mem)
    {macroPtr : Option MacroId} (hmapped : Mapped calls macroPtr) :
    (interruptPtr type creates macroPtr mem).2 ≠ some .undefined := by
  cases macroPtr with
  | none => exact absurd hmapped h.mapped
  | some m =>
    intro hstop
    obtain ⟨val, hval, hreads⟩ := Memory.interrupt_eq_undefined_iff.mp hstop
    exact h.context val hval m hmapped hreads

/-- A call that stops, of a value in range, is that of the only pointer. -/
theorem Interruptible.eq_of_stop (h : Interruptible calls type creates mem)
    (htype : Interrupt.ofCode? type ≠ none) {macroPtr macroPtr' : Option MacroId}
    (hmapped : Mapped calls macroPtr) (hstop : (interruptPtr type creates macroPtr mem).2 ≠ none)
    (hmapped' : Mapped calls macroPtr') : macroPtr' = macroPtr := by
  obtain ⟨val, hval⟩ := Option.ne_none_iff_exists'.mp htype
  cases macroPtr with
  | none => exact absurd hmapped h.mapped
  | some m =>
    cases macroPtr' with
    | none => exact absurd hmapped' h.mapped
    | some m' =>
      rcases (Memory.interrupt_ne_none_iff hval).mp hstop with hreads | ⟨hneeds, hcreates⟩
      · exact absurd hreads (h.context val hval m hmapped)
      · rw [h.thread val hval m hmapped hneeds hcreates m' hmapped']

/-- A value out of range changes nothing. -/
theorem interruptAny_state (htype : Interrupt.ofCode? type = none) :
    (interruptAny type creates order mem).state = mem := by
  refine sweep_state_rule (P := fun mem' => mem' = mem) (fun macroPtr mem' heq => ?_) rfl
  cases macroPtr with
  | none => exact heq
  | some m => rw [interruptPtr, Memory.interrupt, htype, heq]

/-! ## Every order -/

/-- The work is done in every order when the macros can be interrupted. -/
theorem Interruptible.interruptedOnce (h : Interruptible calls type creates mem)
    (horder : Enumerates (after calls) order) :
    InterruptedOnce calls type mem (interruptAny type creates order mem) where
  defined := fun hstop => by
    obtain ⟨macroPtr, hmem, -, hvisit⟩ :=
      exists_of_stop_eq_some (independent_interruptPtr type creates) hstop
    exact h.defined ((mem_order_iff horder).mp hmem) hvisit
  notNull := fun hnull => h.mapped ((mem_order_iff horder).mp (mem_keys_of_mem_visited hnull))
  once := fun htype m hfind => by
    have hm := (mem_order_iff horder).mpr (exists_find_iff.mp hfind)
    have hvisited := forall_perm_visited_iff (independent_interruptPtr type creates)
      (order.map Sigma.snd) mem
    refine List.count_eq_one_of_mem nodup_visited (hvisited.mpr ?_ _ (.refl _) _ hm)
    intro macroPtr hmem hstop macroPtr' hmem'
    exact h.eq_of_stop htype ((mem_order_iff horder).mp hmem) hstop
      ((mem_order_iff horder).mp hmem')
  others := fun m hm =>
    exists_find_iff.mpr ((mem_order_iff horder).mp (mem_keys_of_mem_visited hm))
  kept := fun htype m => by rw [interruptAny_state htype]

section EveryOrder

variable (h : ∀ order, Enumerates (after calls) order →
  InterruptedOnce calls type mem (interruptAny type creates order mem))
  (horder : Enumerates (after calls) order)
include h horder

/-- Where the work is done in every order, every single call is defined. -/
theorem interruptPtr_ne_undefined {macroPtr : Option MacroId} (hmapped : Mapped calls macroPtr) :
    (interruptPtr type creates macroPtr mem).2 ≠ some .undefined := by
  intro hstop
  have hdefined := (forall_perm_stop_iff (independent_interruptPtr type creates)
    (order.map Sigma.snd) mem (· ≠ .undefined)).mp
    ((forall_enumerates_iff horder _).mp fun order' horder' e hstop heq =>
      (h order' horder').defined (hstop.trans (congrArg some heq)))
  exact hdefined macroPtr ((mem_order_iff horder).mpr hmapped) .undefined hstop rfl

/-- Where the work is done in every order, a call that stops is that of the only pointer. -/
theorem eq_of_interruptPtr_stop (htype : Interrupt.ofCode? type ≠ none)
    {macroPtr macroPtr' : Option MacroId} (hmapped : Mapped calls macroPtr)
    (hstop : (interruptPtr type creates macroPtr mem).2 ≠ none)
    (hmapped' : Mapped calls macroPtr') : macroPtr' = macroPtr := by
  refine (forall_perm_visited_iff (independent_interruptPtr type creates) (order.map Sigma.snd)
    mem).mp ?_ macroPtr ((mem_order_iff horder).mpr hmapped) hstop macroPtr'
    ((mem_order_iff horder).mpr hmapped')
  refine (forall_enumerates_iff horder _).mp fun order' horder' ptr hmem => ?_
  have hptr := (mem_order_iff horder).mp hmem
  cases ptr with
  | none => exact absurd rfl (interruptPtr_ne_undefined h horder hptr)
  | some m =>
    have honce := (h order' horder').once htype m (exists_find_iff.mpr hptr)
    exact List.count_pos_iff.mp (honce ▸ Nat.one_pos)

end EveryOrder

/-- **When the registry interrupts each macro once**: for every history, value and state, in every
order of the map iff the macros can be interrupted. -/
theorem interrupted_once_iff (calls : List Call) (type : ℤ) (creates : MacroId → Bool)
    (mem : Memory) :
    (∀ order, Enumerates (after calls) order →
        InterruptedOnce calls type mem (interruptAny type creates order mem)) ↔
      Interruptible calls type creates mem := by
  refine ⟨fun h => ?_, fun h order horder => h.interruptedOnce horder⟩
  obtain ⟨order, horder⟩ : ∃ order, Enumerates (after calls) order :=
    ⟨(after calls).entries.toList, (Multiset.coe_toList _).symm⟩
  refine ⟨fun hnull => ?_, fun val hval m hm hreads => ?_,
    fun val hval m hm hneeds hcreates m' hm' => ?_⟩
  · exact interruptPtr_ne_undefined h horder hnull rfl
  · exact interruptPtr_ne_undefined h horder hm
      (Memory.interrupt_eq_undefined_iff.mpr ⟨val, hval, hreads⟩)
  · have hstop : (interruptPtr type creates (some m) mem).2 ≠ none :=
      (Memory.interrupt_ne_none_iff hval).mpr (Or.inr ⟨hneeds, hcreates⟩)
    have htype : Interrupt.ofCode? type ≠ none := by
      rw [hval]
      exact Option.some_ne_none val
    exact Option.some.inj (eq_of_interruptPtr_stop h horder htype hm hstop hm')

/-- **A null pointer is followed**: `map("a", nullptr)` and `interrupt(CONTINUE)`. -/
theorem not_interrupted_once :
    ¬ ∀ calls type creates mem order, Enumerates (after calls) order →
      InterruptedOnce calls type mem (interruptAny type creates order mem) := by
  intro h
  have honce := h [.map (.lit "a") none] Interrupt.continue.code (fun _ => true) {}
    [⟨.lit "a", none⟩] (by decide)
  exact honce.notNull (by decide)

/-! ## What the calls do -/

/-- With a value in range and reset threads at hand the loop is `interrupt`. -/
theorem map_fst_interrupt (val : Interrupt) (order : List (Σ _ : CString, Option MacroId))
    (set : Finset (Option MacroId)) (mem : Memory) :
    (interrupt val order set mem).map Prod.fst =
      if (sweep (interruptPtr val.code fun _ => true) (order.map Sigma.snd) set mem).stop = none
      then some (sweep (interruptPtr val.code fun _ => true) (order.map Sigma.snd) set mem).state
      else none := by
  induction order generalizing set mem with
  | nil => rfl
  | cons iter rest ih =>
    obtain ⟨name, macroPtr⟩ := iter
    rw [interrupt, List.map_cons, sweep]
    dsimp only
    by_cases hset : macroPtr ∈ set
    -- an instance that has been interrupted is passed over
    · rw [if_pos hset, if_pos hset, ih]
    · rw [if_neg hset, if_neg hset]
      cases macroPtr with
      -- a null macro stops the sweep
      | none => rfl
      | some m =>
        rw [interruptPtr, Memory.interrupt, Interrupt.ofCode?_code]
        cases hcall : mem.setInterruptor m val with
        | none => simp [hcall]
        | some result =>
          obtain ⟨mem₁, flag⟩ := result
          -- the macro is interrupted and entered into the set
          have hrest := ih (insert (some m) set) mem₁
          simp only [Bool.not_true, Bool.and_false, Bool.false_eq_true, if_false,
            Option.bind_eq_bind, Option.bind_some, hcall]
          rw [← hrest]
          cases interrupt val rest (insert (some m) set) mem₁ <;> rfl

/-- **The effect of interrupting**, for macros with contexts and reset threads at hand: each macro
left mapped is interrupted, and no other one changes. -/
theorem exists_interrupted (calls : List Call) (val : Interrupt) (mem : Memory)
    (hctx : MacroCall.Contexts mem) (hmapped : ¬ Mapped calls none)
    (horder : Enumerates (after calls) order) :
    ∃ resets, Interrupted val {m | Mapped calls (some m)} mem
      (interruptAny val.code (fun _ => true) order mem).state resets := by
  have hnull : ∀ iter ∈ order, iter.2 ≠ none := fun iter hiter heq =>
    hmapped ((mem_order_iff horder).mp (heq ▸ List.mem_map_of_mem hiter))
  obtain ⟨mem', resets, hrun, hint⟩ := interrupt_spec order ∅ hnull hctx
  have hstate := map_fst_interrupt val order ∅ mem
  rw [hrun, Option.map_some] at hstate
  split_ifs at hstate
  have hset : waiting ∅ order = {m | Mapped calls (some m)} := by
    ext m
    rw [waiting_empty, Set.mem_ofPred_eq, Set.mem_ofPred_eq, ← mem_order_iff horder,
      List.mem_map]
  rw [hset] at hint
  refine ⟨resets, ?_⟩
  rw [interruptAny, ← Option.some.inj hstate]
  exact hint

end MacroRegistry

end Libmacro
