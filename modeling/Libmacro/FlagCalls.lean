import Libmacro.Containers.History
import Libmacro.ModifierFlags

/-! # The flag helpers

The C functions `mcr_flags_combine`, `mcr_flags_add`, `mcr_flags_has` and `mcr_flags_remove`, with
which clients compute the masks of their signals and triggers. `flagsHas_after`: a word that they
have computed in any number of calls has a mask iff each flag of the mask was last added, or was
there and never touched. `Modifier::send` is made of the same operations (`applied_eq`). -/

namespace Libmacro

open Words Containers

/-- `(mcr_index_t)~0`, the greatest index, which as a length stands for none. -/
def indexMax : ℕ := 2 ^ 64 - 1

/-- The loop of `mcr_flags_combine`, from the last word of the array to the first. -/
def flagsCombineLoop (flagsArray : ℕ → ModFlags) : ℕ → ModFlags → ModFlags
  | 0, ret => ret
  | length + 1, ret => flagsCombineLoop flagsArray length (ret ||| flagsArray length)

/-- `mcr_flags_combine(flagsArray, length)`: without an array, and for a length that is 0 or the
greatest index, it is `MCR_MF_NONE`. -/
def flagsCombine (flagsArray : Option (ℕ → ModFlags)) (length : ℕ) : ModFlags :=
  match flagsArray with
  | none => 0
  | some flagsArray =>
    if length = indexMax ∨ length = 0 then 0 else flagsCombineLoop flagsArray length 0

/-- `mcr_flags_add(flags, newMod)`, the bitwise or of both words. -/
def flagsAdd (flags newMod : ModFlags) : ModFlags := flags ||| newMod

/-- `mcr_flags_has(flags, modVal)`: all flags of the second word are on in the first. -/
def flagsHas (flags modVal : ModFlags) : Bool := flags &&& modVal = modVal

/-- `mcr_flags_remove(flags, delMod)`: the flags of the second word are cleared in the first. -/
def flagsRemove (flags delMod : ModFlags) : ModFlags := flags &&& ~~~delMod

/-- A call that computes a new word of flags from the present one. -/
inductive FlagCall where
  | add (newMod : ModFlags)
  /-- The words of an array are combined and added. -/
  | addAll (flagsArray : Option (ℕ → ModFlags)) (length : ℕ)
  | remove (delMod : ModFlags)

namespace FlagCall

/-- The word after a call that takes it as its first argument. -/
def on (word : ModFlags) : FlagCall → ModFlags
  | add newMod => flagsAdd word newMod
  | addAll flagsArray length => flagsAdd word (flagsCombine flagsArray length)
  | remove delMod => flagsRemove word delMod

/-- What a call makes of a flag, if it touches it. -/
def sets (b : ℕ) : FlagCall → Option Bool
  | add newMod => if newMod.getLsbD b then some true else none
  | addAll none _ => none
  | addAll (some flagsArray) length =>
    if length ≠ indexMax ∧ ∃ i < length, (flagsArray i).getLsbD b then some true else none
  | remove delMod => if delMod.getLsbD b then some false else none

end FlagCall

/-- **The loop unites the words of the array.** -/
theorem mem_flags_flagsCombineLoop (flagsArray : ℕ → ModFlags) (length : ℕ) (ret : ModFlags)
    (b : ℕ) : b ∈ flags (flagsCombineLoop flagsArray length ret) ↔
      b ∈ flags ret ∨ ∃ i < length, b ∈ flags (flagsArray i) := by
  induction length generalizing ret with
  | zero => simp [flagsCombineLoop]
  | succ length ih =>
    rw [flagsCombineLoop, ih, flags_or, Set.mem_union, Nat.exists_lt_succ_right, or_assoc,
      or_comm (a := b ∈ flags (flagsArray length))]

/-- **A combined word** has the flags of the words it is combined from. -/
theorem mem_flags_flagsCombine (flagsArray : ℕ → ModFlags) (length b : ℕ) :
    b ∈ flags (flagsCombine (some flagsArray) length) ↔
      length ≠ indexMax ∧ ∃ i < length, b ∈ flags (flagsArray i) := by
  rw [flagsCombine]
  split_ifs with hlength
  · rcases hlength with rfl | rfl <;> simp
  · rw [mem_flags_flagsCombineLoop, flags_zero, and_iff_right fun h => hlength (.inl h)]
    exact or_iff_right (Set.notMem_empty b)

/-- `mcr_flags_has` compares sets: it asks whether one is contained in the other. -/
theorem flagsHas_iff (word modVal : ModFlags) : flagsHas word modVal = true ↔
    flags modVal ⊆ flags word := by
  rw [flagsHas, decide_eq_true_iff, and_eq_right_iff]

/-- **What a call makes of each flag.** -/
theorem FlagCall.getLsbD_on (word : ModFlags) (c : FlagCall) (b : ℕ) :
    (c.on word).getLsbD b = (c.sets b).getD (word.getLsbD b) := by
  rw [Bool.eq_iff_iff, ← mem_flags]
  cases c with
  | add newMod =>
    rw [on, flagsAdd, flags_or, Set.mem_union, sets, mem_flags, mem_flags]
    split_ifs with h <;> simp [h]
  | addAll flagsArray length =>
    cases flagsArray with
    | none => simp [on, flagsAdd, flagsCombine, sets]
    | some flagsArray =>
      rw [on, flagsAdd, flags_or, Set.mem_union, mem_flags_flagsCombine, sets]
      simp only [mem_flags]
      split_ifs with h <;> simp [h]
  | remove delMod =>
    rw [on, flagsRemove, flags_and_not, Set.mem_sdiff, sets, mem_flags, mem_flags]
    split_ifs with h <;> simp [h]

/-- **A word after any calls has a mask** iff each of its flags was last added, or was there and no
call touched it. -/
theorem flagsHas_after (word : ModFlags) (history : List FlagCall) (modVal : ModFlags) :
    flagsHas (history.foldl FlagCall.on word) modVal = true ↔
      ∀ b ∈ flags modVal, LastSet (FlagCall.sets b) history true ∨
        (∀ c ∈ history, c.sets b = none) ∧ b ∈ flags word := by
  rw [flagsHas_iff]
  refine forall₂_congr fun b _ => ?_
  have hlast := observe_foldl (fun word : ModFlags => word.getLsbD b)
    (fun word c => c.getLsbD_on word b) word history
  rw [mem_flags, hlast, ← lastSet_eq_some_iff, ← lastSet_eq_none_iff]
  cases lastSet (FlagCall.sets b) history <;> simp

/-- The call that `Modifier::send` makes of the word it reads. -/
def Modifier.flagCall (s : Modifier) (mods : ModFlags) : FlagCall :=
  match s.apply with
  | .set => .add s.modifiers
  | .unset | .both => .remove s.modifiers
  | .toggle => if flagsHas mods s.modifiers then .remove s.modifiers else .add s.modifiers

/-- **`Modifier::send` adds or removes its mask.** -/
theorem Modifier.applied_eq (s : Modifier) (mods : ModFlags) :
    s.applied mods = (s.flagCall mods).on mods := by
  rw [applied, flagCall]
  cases s.apply with
  | set | unset | both => rfl
  | toggle =>
    by_cases h : mods &&& s.modifiers = s.modifiers <;> simp [flagsHas, h] <;> rfl

end Libmacro
