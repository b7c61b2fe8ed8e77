import Mathlib.Order.Lattice
import Mathlib.Order.Defs.Unbundled
import Mathlib.Tactic.ByContra
import Mathlib.Tactic.SplitIfs

/-! # Ordered maps over a strict weak order

`OrderedMap less ν` is a search structure that compares keys with `less` only: entries stand in
strictly increasing order, and two keys are the same when neither is less than the other.
Assigning to a key that is already there keeps the old key and replaces the value.

Its two laws say what is found after an assignment (`find_assign`) and after an erasure
(`find_erase`), for any key. -/

namespace Containers

variable {κ ν : Type*}

/-! ## Keys -/

/-- **Keys the order does not tell apart**: neither is less than the other. -/
def Equivalent (less : κ → κ → Bool) (a b : κ) : Prop := less a b = false ∧ less b a = false

/-- Equivalence is two comparisons, each of them computed. -/
instance (less : κ → κ → Bool) (a b : κ) : Decidable (Equivalent less a b) :=
  inferInstanceAs (Decidable (_ ∧ _))

section Keys

variable {less : κ → κ → Bool} {a b c : κ}

/-- The order of the two comparisons does not matter. -/
theorem Equivalent.symm (h : Equivalent less a b) : Equivalent less b a := ⟨h.2, h.1⟩

/-- A key that comes before another one is not equivalent to it. -/
theorem not_equivalent_of_less (h : less a b = true) : ¬ Equivalent less a b := by
  rintro ⟨h', -⟩
  rw [h] at h'
  exact Bool.noConfusion h'

variable [IsStrictWeakOrder κ fun a b => less a b = true]

/-- Keys equivalent to the same key are equivalent to each other, which a strict weak order
provides. -/
theorem Equivalent.trans (h : Equivalent less a b) (h' : Equivalent less b c) :
    Equivalent less a c := by
  have hac := @IsStrictWeakOrder.incomp_trans κ (fun a b => less a b = true) _ a b c
  simp only [Bool.not_eq_true] at hac
  exact hac h h'

/-- The comparison is transitive, as the Boolean that the containers of the source call. -/
theorem less_trans (h : less a b = true) (h' : less b c = true) : less a c = true :=
  trans_of (fun a b => less a b = true) h h'

/-- A key below a key is below every equivalent of it. -/
theorem less_of_less_of_equivalent (h : less a b = true) (h' : Equivalent less b c) :
    less a c = true := by
  by_contra hac
  rw [Bool.not_eq_true] at hac
  cases hca : less c a with
  | false => exact not_equivalent_of_less h (Equivalent.trans ⟨hac, hca⟩ h'.symm)
  | true =>
    have hcb : less c b = true := less_trans hca h
    exact not_equivalent_of_less hcb h'.symm

/-- An equivalent of a key is below whatever the key is below. -/
theorem less_of_equivalent_of_less (h : Equivalent less a b) (h' : less b c = true) :
    less a c = true := by
  by_contra hac
  rw [Bool.not_eq_true] at hac
  cases hca : less c a with
  | false => exact not_equivalent_of_less h' (Equivalent.trans h.symm ⟨hac, hca⟩)
  | true =>
    have hba : less b a = true := less_trans h' hca
    exact not_equivalent_of_less hba h.symm

end Keys

/-- **An order read off a linear order through a function** is a strict weak order. -/
theorem isStrictWeakOrder_of_iff {β : Type*} [LinearOrder β] {less : κ → κ → Bool} (f : κ → β)
    (h : ∀ a b, less a b = true ↔ f a < f b) :
    IsStrictWeakOrder κ fun a b => less a b = true where
  irrefl a := by rw [h]; exact lt_irrefl _
  trans a b c hab hbc := by
    rw [h] at hab hbc ⊢
    exact lt_trans hab hbc
  incomp_trans a b c hab hbc := by
    simp only [h, not_lt] at hab hbc ⊢
    exact ⟨le_trans hbc.1 hab.1, le_trans hab.2 hbc.2⟩

/-- Keys of such an order are equivalent when the function agrees on them. -/
theorem equivalent_iff_of_iff {β : Type*} [LinearOrder β] {less : κ → κ → Bool} {f : κ → β}
    (h : ∀ a b, less a b = true ↔ f a < f b) {a b : κ} : Equivalent less a b ↔ f a = f b := by
  have hf : ∀ a b, less a b = false ↔ f b ≤ f a := by
    intro a b
    rw [← Bool.not_eq_true, h, not_lt]
  rw [Equivalent, hf, hf, and_comm, ← le_antisymm_iff]

/-! ## Sorted entries -/

namespace Entries

variable (less : κ → κ → Bool)

/-- Walk past the smaller keys; the next entry is the key's or there is none. -/
def find : List (κ × ν) → κ → Option ν
  | [], _ => none
  | (key, v) :: rest, k =>
    if less key k then find rest k else if less k key then none else some v

/-- Replace the value at an equivalent key, or insert a new entry. -/
def assign : List (κ × ν) → κ → ν → List (κ × ν)
  | [], k, v => [(k, v)]
  | (key, w) :: rest, k, v =>
    if less key k then (key, w) :: assign rest k v
    else if less k key then (k, v) :: (key, w) :: rest
    else (key, v) :: rest

/-- Drop the entry at an equivalent key. -/
def erase : List (κ × ν) → κ → List (κ × ν)
  | [], _ => []
  | (key, w) :: rest, k =>
    if less key k then (key, w) :: erase rest k
    else if less k key then (key, w) :: rest
    else rest

/-- The keys stand in strictly increasing order. -/
def Sorted (entries : List (κ × ν)) : Prop :=
  entries.Pairwise fun a b => less a.1 b.1 = true

variable {less}

/-- Assigning brings in no other key: every entry afterwards has the assigned key or the key of an
entry that was there before. -/
theorem mem_assign {entries : List (κ × ν)} {k : κ} {v : ν} {e : κ × ν}
    (h : e ∈ assign less entries k v) : e.1 = k ∨ ∃ e' ∈ entries, e.1 = e'.1 := by
  induction entries with
  | nil => exact Or.inl (by simpa [assign] using congrArg Prod.fst (List.mem_singleton.mp h))
  | cons hd rest ih =>
    obtain ⟨key, w⟩ := hd
    rw [assign] at h
    split_ifs at h with h₁ h₂
    · rcases List.mem_cons.mp h with rfl | h
      · exact Or.inr ⟨_, List.mem_cons_self, rfl⟩
      · rcases ih h with h | ⟨e', he', h⟩
        · exact Or.inl h
        · exact Or.inr ⟨e', List.mem_cons_of_mem _ he', h⟩
    · rcases List.mem_cons.mp h with rfl | h
      · exact Or.inl rfl
      · exact Or.inr ⟨e, h, rfl⟩
    · rcases List.mem_cons.mp h with rfl | h
      · exact Or.inr ⟨_, List.mem_cons_self, rfl⟩
      · exact Or.inr ⟨e, List.mem_cons_of_mem _ h, rfl⟩

/-- Erasing leaves a sublist of the entries, in the same order. -/
theorem erase_sublist (entries : List (κ × ν)) (k : κ) :
    (erase less entries k).Sublist entries := by
  induction entries with
  | nil => exact List.Sublist.refl _
  | cons hd rest ih =>
    obtain ⟨key, w⟩ := hd
    rw [erase]
    split_ifs
    · exact ih.cons_cons _
    · exact List.Sublist.refl _
    · exact List.sublist_cons_self _ _

/-- Erasing keeps the entries sorted, since it takes one out and moves none. -/
theorem Sorted.erase {entries : List (κ × ν)} (h : Sorted less entries) (k : κ) :
    Sorted less (erase less entries k) := List.Pairwise.sublist (erase_sublist entries k) h

variable [IsStrictWeakOrder κ fun a b => less a b = true]

/-- Assigning keeps the entries sorted: a new key goes before the first greater one, and an entry
with an equivalent key gets the new value and keeps its key and its place. -/
theorem Sorted.assign {entries : List (κ × ν)} (h : Sorted less entries) (k : κ) (v : ν) :
    Sorted less (assign less entries k v) := by
  induction entries with
  | nil => exact List.pairwise_singleton _ _
  | cons hd rest ih =>
    obtain ⟨key, w⟩ := hd
    obtain ⟨hlow, hrest⟩ := List.pairwise_cons.mp h
    rw [Entries.assign]
    split_ifs with h₁ h₂
    · refine List.pairwise_cons.mpr ⟨fun e he => ?_, ih hrest⟩
      rcases mem_assign he with hk | ⟨e', he', hk⟩
      · rw [hk]; exact h₁
      · rw [hk]; exact hlow e' he'
    · refine List.pairwise_cons.mpr ⟨fun e he => ?_, h⟩
      rcases List.mem_cons.mp he with rfl | he
      · exact h₂
      · exact less_trans h₂ (hlow e he)
    · exact List.pairwise_cons.mpr ⟨hlow, hrest⟩

/-- Nothing is found below the smallest key. -/
theorem find_eq_none_of_forall_less {entries : List (κ × ν)} {k : κ}
    (h : ∀ e ∈ entries, less k e.1 = true) : find less entries k = none := by
  cases entries with
  | nil => rfl
  | cons hd rest =>
    have hk : less k hd.1 = true := h hd List.mem_cons_self
    have hk' : ¬ less hd.1 k = true := fun h' =>
      irrefl_of (fun a b => less a b = true) k (less_trans hk h')
    rw [find, if_neg hk', if_pos hk]

/-- **What is found after an assignment.** -/
theorem find_assign (entries : List (κ × ν)) (k k' : κ) (v : ν) :
    find less (assign less entries k v) k'
      = if Equivalent less k k' then some v else find less entries k' := by
  induction entries with
  -- a new last entry: the key looked for is above it, below it, or its equivalent
  | nil =>
    rw [assign, find, find]
    by_cases h₁ : less k k' = true
    · rw [if_pos h₁, if_neg (not_equivalent_of_less h₁), find]
    · rw [if_neg h₁]
      by_cases h₂ : less k' k = true
      · rw [if_pos h₂, if_neg fun h => not_equivalent_of_less h₂ h.symm]
      · rw [if_neg h₂, if_pos ⟨by simpa using h₁, by simpa using h₂⟩]
  | cons hd rest ih =>
    obtain ⟨key, w⟩ := hd
    by_cases hlt : less key k = true
    · -- the position is further on
      rw [assign, if_pos hlt, find, find, ih]
      by_cases h₁ : less key k' = true
      · rw [if_pos h₁, if_pos h₁]
      · -- the key looked for is not above `key`, so it is not the one assigned
        have hne : ¬ Equivalent less k k' := fun h => h₁ (less_of_less_of_equivalent hlt h)
        rw [if_neg h₁, if_neg h₁, if_neg hne]
    · by_cases hgt : less k key = true
      · -- the new entry goes in front of `key`
        rw [assign, if_neg hlt, if_pos hgt, find]
        by_cases h₁ : less k k' = true
        · rw [if_pos h₁, if_neg (not_equivalent_of_less h₁)]
        · rw [if_neg h₁]
          by_cases h₂ : less k' k = true
          · have h₃ : less k' key = true := less_trans h₂ hgt
            have h₄ : ¬ less key k' = true := fun h =>
              irrefl_of (fun a b => less a b = true) key (less_trans h h₃)
            rw [if_pos h₂, if_neg fun h => not_equivalent_of_less h₂ h.symm, find, if_neg h₄,
              if_pos h₃]
          · rw [if_neg h₂, if_pos ⟨by simpa using h₁, by simpa using h₂⟩]
      · -- an equivalent key is kept and its value replaced
        have heq : Equivalent less key k := ⟨by simpa using hlt, by simpa using hgt⟩
        rw [assign, if_neg hlt, if_neg hgt, find, find]
        by_cases h₁ : less key k' = true
        · have hne : ¬ Equivalent less k k' :=
            not_equivalent_of_less (less_of_equivalent_of_less heq.symm h₁)
          rw [if_pos h₁, if_pos h₁, if_neg hne]
        · rw [if_neg h₁, if_neg h₁]
          by_cases h₂ : less k' key = true
          · have hne : ¬ Equivalent less k k' := fun h =>
              not_equivalent_of_less (less_of_less_of_equivalent h₂ heq) h.symm
            rw [if_pos h₂, if_pos h₂, if_neg hne]
          · have hk' : Equivalent less key k' := ⟨by simpa using h₁, by simpa using h₂⟩
            rw [if_neg h₂, if_pos (heq.symm.trans hk')]

/-- **What is found after an erasure.** -/
theorem find_erase {entries : List (κ × ν)} (h : Sorted less entries) (k k' : κ) :
    find less (erase less entries k) k'
      = if Equivalent less k k' then none else find less entries k' := by
  induction entries with
  | nil => rw [erase, find, ite_self]
  | cons hd rest ih =>
    obtain ⟨key, w⟩ := hd
    obtain ⟨hlow, hrest⟩ := List.pairwise_cons.mp h
    by_cases hlt : less key k = true
    · -- the entry to erase is further on
      rw [erase, if_pos hlt, find, find, ih hrest]
      by_cases h₁ : less key k' = true
      · rw [if_pos h₁, if_pos h₁]
      · have hne : ¬ Equivalent less k k' := fun h => h₁ (less_of_less_of_equivalent hlt h)
        rw [if_neg h₁, if_neg h₁, if_neg hne]
    · by_cases hgt : less k key = true
      · -- nothing is erased: every key is above `k`
        rw [erase, if_neg hlt, if_pos hgt]
        by_cases hk : Equivalent less k k'
        · rw [if_pos hk]
          refine find_eq_none_of_forall_less fun e he => ?_
          have hkey : less k' key = true := less_of_equivalent_of_less hk.symm hgt
          rcases List.mem_cons.mp he with rfl | he
          · exact hkey
          · exact less_trans hkey (hlow e he)
        · rw [if_neg hk]
      · -- the first entry is erased
        have heq : Equivalent less key k := ⟨by simpa using hlt, by simpa using hgt⟩
        rw [erase, if_neg hlt, if_neg hgt, find]
        by_cases h₁ : less key k' = true
        · have hne : ¬ Equivalent less k k' :=
            not_equivalent_of_less (less_of_equivalent_of_less heq.symm h₁)
          rw [if_pos h₁, if_neg hne]
        · -- at or below the erased key: the later entries are all above it
          have hnone : find less rest k' = none := by
            refine find_eq_none_of_forall_less fun e he => ?_
            cases h₂ : less k' key with
            | true => exact less_trans h₂ (hlow e he)
            | false =>
              exact less_of_equivalent_of_less ⟨h₂, by simpa using h₁⟩ (hlow e he)
          rw [hnone, if_neg h₁]
          by_cases hk : Equivalent less k k'
          · rw [if_pos hk]
          -- neither above `key` nor its equivalent, so below it
          · have h₂ : less k' key = true := by
              by_contra h₂
              exact hk (heq.symm.trans ⟨by simpa using h₁, by simpa using h₂⟩)
            rw [if_neg hk, if_pos h₂]

end Entries

/-! ## The map -/

/-- **An ordered map** from keys `κ`, compared with `less`, to values `ν`. -/
structure OrderedMap (less : κ → κ → Bool) (ν : Type*) where
  /-- The entries, in the order of an iteration. -/
  entries : List (κ × ν) := []
  /-- Every key is below the next. -/
  sorted : Entries.Sorted less entries := by exact List.Pairwise.nil

namespace OrderedMap

variable {less : κ → κ → Bool}

/-- The value at an equivalent key, if there is one. -/
def find (map : OrderedMap less ν) (k : κ) : Option ν := Entries.find less map.entries k

variable [IsStrictWeakOrder κ fun a b => less a b = true]

/-- `map[k] = v`: an equivalent key that is there keeps its spelling. -/
def assign (map : OrderedMap less ν) (k : κ) (v : ν) : OrderedMap less ν :=
  ⟨Entries.assign less map.entries k v, map.sorted.assign k v⟩

/-- `map.erase(k)`: the entry at an equivalent key goes, if there is one. -/
def erase (map : OrderedMap less ν) (k : κ) : OrderedMap less ν :=
  ⟨Entries.erase less map.entries k, map.sorted.erase k⟩

/-- A lookup after an assignment finds the new value under every key equivalent to the assigned
one, and under other keys what was there before. -/
theorem find_assign (map : OrderedMap less ν) (k k' : κ) (v : ν) :
    (map.assign k v).find k' = if Equivalent less k k' then some v else map.find k' :=
  Entries.find_assign map.entries k k' v

/-- A lookup after an erasure finds nothing under the keys equivalent to the erased one, and under
other keys what was there before. -/
theorem find_erase (map : OrderedMap less ν) (k k' : κ) :
    (map.erase k).find k' = if Equivalent less k k' then none else map.find k' :=
  Entries.find_erase map.sorted k k'

end OrderedMap

end Containers
