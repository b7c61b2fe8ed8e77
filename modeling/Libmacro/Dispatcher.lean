import Mathlib.Data.Finset.Dedup
import Mathlib.Data.Finset.Erase
import Mathlib.Data.Finset.Insert

/-! # The generic dispatcher

`Dispatcher` keeps an unordered set of receiver pointers. `add` inserts whatever pointer it is
given, the null pointer included; `remove` ignores the null pointer. The signal argument of
`add` is not used. Receivers are of any type `ρ`; `none` is the null pointer. -/

namespace Libmacro

/-- The class `Dispatcher`: the set `_receivers`, which holds each pointer once and may hold null.
-/
structure Dispatcher (ρ : Type) where
  /-- The registered receiver pointers. -/
  receivers : Finset (Option ρ) := ∅

namespace Dispatcher

variable {ρ : Type} [DecidableEq ρ]

/-- `Dispatcher::add(Signal *, receiverPtr)`: the signal is ignored, and a null pointer is inserted
as well. -/
def add (d : Dispatcher ρ) (receiverPtr : Option ρ) : Dispatcher ρ :=
  ⟨insert receiverPtr d.receivers⟩

/-- `Dispatcher::remove(removeReceiverPtr)`: the pointer is erased from the set, and a null pointer
is ignored. -/
def remove (d : Dispatcher ρ) : Option ρ → Dispatcher ρ
  | none => d
  | some r => ⟨d.receivers.erase (some r)⟩

/-- `Dispatcher::clear()` takes all receivers away, the null pointer included. -/
def clear (_ : Dispatcher ρ) : Dispatcher ρ := ⟨∅⟩

/-- Receiver `r`, which is not null, is registered with the dispatcher. -/
def Has (d : Dispatcher ρ) (r : ρ) : Prop := some r ∈ d.receivers

/-- Registration is a lookup in a finite table. -/
instance (d : Dispatcher ρ) (r : ρ) : Decidable (d.Has r) :=
  inferInstanceAs (Decidable (_ ∈ _))

/-- After `add` the receiver is registered, and the others are as before. -/
@[simp] theorem has_add {d : Dispatcher ρ} {r r' : ρ} :
    (d.add (some r)).Has r' ↔ r' = r ∨ d.Has r' := by
  simp [add, Has]

/-- After `remove` the receiver is no longer registered, and the others are as before. -/
@[simp] theorem has_remove {d : Dispatcher ρ} {r r' : ρ} :
    (d.remove (some r)).Has r' ↔ r' ≠ r ∧ d.Has r' := by
  simp [remove, Has]

/-- The iteration over the receivers may have the order `order`: the set is unordered, so any list
of its elements without repetition is one. -/
def Enumerates (d : Dispatcher ρ) (order : List (Option ρ)) : Prop :=
  order.Nodup ∧ ∀ r, r ∈ order ↔ r ∈ d.receivers

/-- A registered receiver may come first. -/
theorem exists_enumerates_cons {d : Dispatcher ρ} {r : ρ} (h : d.Has r) :
    ∃ rest, d.Enumerates (some r :: rest) := by
  refine ⟨(d.receivers.erase (some r)).toList, ?_, fun r' => ?_⟩
  · refine List.nodup_cons.mpr ⟨?_, Finset.nodup_toList _⟩
    rw [Finset.mem_toList]
    exact Finset.notMem_erase _ _
  · rw [List.mem_cons, Finset.mem_toList, Finset.mem_erase]
    constructor
    · rintro (rfl | ⟨-, hmem⟩)
      · exact h
      · exact hmem
    · intro hmem
      by_cases hr : r' = some r
      · exact Or.inl hr
      · exact Or.inr ⟨hr, hmem⟩

end Dispatcher

end Libmacro
