import Mathlib.Data.Set.BooleanAlgebra
import Mathlib.Data.Set.Disjoint
import Mathlib.Order.CompletePartialOrder

/-! # Words as sets of flags

The flags of a word are the positions of its set bits. The bitwise operations are the operations on
these sets, and the tests that programs make on masks (`v &&& w = v`, `v ||| w = v`, `v &&& w = 0`)
are inclusion and disjointness. -/

namespace Words

variable {n : ℕ} {v w : BitVec n} {b : ℕ}

/-- The flags of a word: the places of the bits that are on. -/
def flags (w : BitVec n) : Set ℕ := {b | w.getLsbD b = true}

/-- A flag is in the set of a word when its bit is on. -/
@[simp] theorem mem_flags : b ∈ flags w ↔ w.getLsbD b = true := Iff.rfl

/-- A flag stands inside the word. -/
theorem lt_of_mem_flags (h : b ∈ flags w) : b < n := BitVec.lt_of_getLsbD h

/-- **A word is its flags**: different words differ in some flag. -/
theorem flags_injective : Function.Injective (flags (n := n)) := by
  intro v w h
  refine BitVec.eq_of_getLsbD_eq fun b _ => Bool.eq_iff_iff.mpr ?_
  exact Set.ext_iff.mp h b

/-- A word is its set of flags: two words with the same flags are the same. -/
@[simp] theorem flags_inj : flags v = flags w ↔ v = w := flags_injective.eq_iff

/-- The word 0 has no flags. -/
@[simp] theorem flags_zero : flags (0 : BitVec n) = ∅ := by
  ext b
  simp

/-! ## Operations -/

/-- The bitwise or has the flags of both words. -/
@[simp] theorem flags_or (v w : BitVec n) : flags (v ||| w) = flags v ∪ flags w := by
  ext b
  simp

/-- The bitwise and has the flags that both words have. -/
@[simp] theorem flags_and (v w : BitVec n) : flags (v &&& w) = flags v ∩ flags w := by
  ext b
  simp

/-- Clearing the flags of a mask. -/
@[simp] theorem flags_and_not (v w : BitVec n) : flags (v &&& ~~~w) = flags v \ flags w := by
  ext b
  rw [Set.mem_sdiff, mem_flags, mem_flags, mem_flags, BitVec.getLsbD_and, BitVec.getLsbD_not]
  by_cases hb : b < n
  · simp [hb]
  · rw [BitVec.getLsbD_of_ge v b (Nat.le_of_not_lt hb)]
    simp

/-! ## Tests -/

/-- Every flag of `v` is one of `w`. -/
theorem and_eq_left_iff : v &&& w = v ↔ flags v ⊆ flags w := by
  rw [← flags_inj, flags_and, Set.inter_eq_left]

/-- Every flag of `w` is one of `v`. -/
theorem and_eq_right_iff : v &&& w = w ↔ flags w ⊆ flags v := by
  rw [← flags_inj, flags_and, Set.inter_eq_right]

/-- `v` has the flags of `w` already. -/
theorem or_eq_left_iff : v ||| w = v ↔ flags w ⊆ flags v := by
  rw [← flags_inj, flags_or, Set.union_eq_left]

/-- The bitwise and of two words is zero iff they share no flag. -/
theorem and_eq_zero_iff : v &&& w = 0 ↔ Disjoint (flags v) (flags w) := by
  rw [← flags_inj, flags_and, flags_zero, Set.disjoint_iff_inter_eq_empty]

end Words
