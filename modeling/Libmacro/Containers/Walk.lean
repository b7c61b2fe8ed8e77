import Mathlib.Data.List.Basic
import Mathlib.Data.List.Count
import Mathlib.Data.List.Nodup
import Mathlib.Data.Set.Defs

/-! # Walking a collection that changes

A walk visits the elements of a list one after the other while elements are inserted and erased
around it. `Walked` says how far it is: what stands up to its place has been visited once, what
stands after it has not been visited. A change that keeps the order of what stays keeps this
(`Walked.change`), and so does going on to the next place (`Walked.advance`); at the end everything
has been visited once (`Walked.count_eq_one`). -/

namespace Containers

variable {α : Type*}

/-! ## Order -/

/-- `a` stands before `b` in the list, at some pair of positions. -/
def Before (l : List α) (a b : α) : Prop := [a, b].Sublist l

section Before

variable {l l' before after : List α} {a b x : α}

/-- The element that comes before is in the list. -/
theorem Before.mem_left (h : Before l a b) : a ∈ l := h.subset (by simp)

/-- The element that comes after is in the list. -/
theorem Before.mem_right (h : Before l a b) : b ∈ l := h.subset (by simp)

/-- In a longer list the new head comes before everything behind it, and the rest is as before. -/
theorem before_cons : Before (x :: l) a b ↔ (a = x ∧ b ∈ l) ∨ Before l a b := by
  rw [Before, List.sublist_cons_iff, or_comm]
  refine or_congr ⟨?_, ?_⟩ Iff.rfl
  · rintro ⟨r, heq, hr⟩
    obtain ⟨rfl, rfl⟩ := List.cons.inj heq
    exact ⟨rfl, List.singleton_sublist.mp hr⟩
  · rintro ⟨rfl, hb⟩
    exact ⟨[b], rfl, List.singleton_sublist.mpr hb⟩

/-- What is inserted into the list leaves the order of its elements alone. -/
theorem Before.mono (hl : l.Sublist l') (h : Before l a b) : Before l' a b := h.trans hl

/-- Erasures keep the order of what stays. -/
theorem Before.filter {p : α → Bool} (h : Before l a b) (ha : p a = true) (hb : p b = true) :
    Before (l.filter p) a b := by
  have hfilter := List.Sublist.filter p h
  rwa [List.filter_cons_of_pos ha, List.filter_cons_of_pos hb, List.filter_nil] at hfilter

/-- What stands before an element that occurs once. -/
theorem before_iff_mem_left (h : (before ++ x :: after).Nodup) :
    Before (before ++ x :: after) a x ↔ a ∈ before := by
  induction before with
  | nil =>
    have hx := (List.nodup_cons.mp h).1
    rw [List.nil_append, before_cons]
    refine iff_of_false ?_ List.not_mem_nil
    rintro (⟨-, hmem⟩ | hbefore)
    · exact hx hmem
    · exact hx hbefore.mem_right
  | cons y before ih =>
    rw [List.cons_append, before_cons, ih (List.nodup_cons.mp h).2, List.mem_cons]
    simp

/-- What stands after an element that occurs once. -/
theorem before_iff_mem_right (h : (before ++ x :: after).Nodup) :
    Before (before ++ x :: after) x a ↔ a ∈ after := by
  induction before with
  | nil =>
    have hx := (List.nodup_cons.mp h).1
    rw [List.nil_append, before_cons]
    refine ⟨?_, fun ha => .inl ⟨rfl, ha⟩⟩
    rintro (⟨-, ha⟩ | hbefore)
    · exact ha
    · exact absurd hbefore.mem_left hx
  | cons y before ih =>
    obtain ⟨hy, hnodup⟩ := List.nodup_cons.mp h
    rw [List.cons_append, before_cons, ih hnodup]
    refine or_iff_right ?_
    rintro ⟨rfl, -⟩
    exact hy (List.mem_append_right _ List.mem_cons_self)

end Before

/-! ## Walks -/

section Walk

variable [BEq α]

/-- **How far a walk is** that stands on `x`: of the elements of `S` those up to `x` have been
visited once, those after it have not. -/
def Walked (S : Set α) (l : List α) (x : α) (visited : List α) : Prop :=
  ∀ a ∈ S, ((a = x ∨ Before l a x) ∧ visited.count a = 1) ∨ (Before l x a ∧ visited.count a = 0)

variable {S S' : Set α} {l l' before skipped after visited : List α} {x y : α}

/-- **A change of the collection** that keeps the order of what stays. -/
theorem Walked.change (h : Walked S l x visited) (hS : ∀ a ∈ S', a ∈ S ∧ a ∈ l') (hx : x ∈ l')
    (hkeep : ∀ a b, a ∈ l' → b ∈ l' → Before l a b → Before l' a b) :
    Walked S' l' x visited := by
  intro a ha
  obtain ⟨haS, hal⟩ := hS a ha
  rcases h a haS with ⟨rfl | hbefore, hcount⟩ | ⟨hafter, hcount⟩
  · exact .inl ⟨.inl rfl, hcount⟩
  · exact .inl ⟨.inr (hkeep a x hal hx hbefore), hcount⟩
  · exact .inr ⟨hkeep x a hx hal hafter, hcount⟩

/-- **The end**: nothing of `S` is left after `x`. -/
theorem Walked.count_eq_one (h : Walked S l x visited) (hl : l = before ++ x :: after)
    (hnodup : l.Nodup) (hS : ∀ a ∈ S, a ∉ after) {a : α} (ha : a ∈ S) :
    visited.count a = 1 := by
  rw [hl] at h hnodup
  rcases h a ha with ⟨-, hcount⟩ | ⟨hafter, -⟩
  · exact hcount
  · exact absurd ((before_iff_mem_right hnodup).mp hafter) (hS a ha)

variable [LawfulBEq α]

/-- What stands before or after an element that occurs once is another element. -/
theorem count_singleton_eq_zero (h : (before ++ y :: after).Nodup) {a : α}
    (ha : a ∈ before ∨ a ∈ after) : [y].count a = 0 := by
  refine List.count_eq_zero.mpr fun hy => ?_
  obtain rfl := List.mem_singleton.mp hy
  obtain ⟨-, hafter, hdisjoint⟩ := List.nodup_append.mp h
  rcases ha with ha | ha
  · exact hdisjoint a ha a List.mem_cons_self rfl
  · exact (List.nodup_cons.mp hafter).1 ha

/-- A walk begins at the first element it does not skip. -/
theorem walked_start (hl : l = skipped ++ y :: after) (hnodup : l.Nodup)
    (hS : ∀ a ∈ S, a ∈ l ∧ a ∉ skipped) : Walked S l y [y] := by
  intro a ha
  obtain ⟨hmem, hskipped⟩ := hS a ha
  rw [hl] at hnodup hmem ⊢
  rcases List.mem_cons.mp ((List.mem_append.mp hmem).resolve_left hskipped) with rfl | hafter
  · exact .inl ⟨.inl rfl, List.count_singleton_self⟩
  · exact .inr ⟨(before_iff_mem_right hnodup).mpr hafter,
      count_singleton_eq_zero hnodup (.inr hafter)⟩

/-- **The next place**: a walk goes on to the next element that it does not skip, and adds it to
those visited. -/
theorem Walked.advance (h : Walked S l x visited)
    (hl : l = before ++ x :: (skipped ++ y :: after)) (hnodup : l.Nodup)
    (hS : ∀ a ∈ S, a ∉ skipped) : Walked S l y (visited ++ [y]) := by
  rw [hl] at hnodup h ⊢
  have hl' : before ++ x :: (skipped ++ y :: after) =
      (before ++ x :: skipped) ++ y :: after := by
    rw [List.append_assoc, List.cons_append]
  have hnodup' := hl' ▸ hnodup
  intro a ha
  rw [List.count_append]
  rcases h a ha with ⟨hupto, hcount⟩ | ⟨hafter, hcount⟩
  · have hmem : a ∈ before ++ x :: skipped := by
      rcases hupto with rfl | hbefore
      · exact List.mem_append_right _ List.mem_cons_self
      · exact List.mem_append_left _ ((before_iff_mem_left hnodup).mp hbefore)
    rw [count_singleton_eq_zero hnodup' (.inl hmem), hcount, hl']
    exact .inl ⟨.inr ((before_iff_mem_left hnodup').mpr hmem), rfl⟩
  · have hmem := (List.mem_append.mp ((before_iff_mem_right hnodup).mp hafter)).resolve_left
      (hS a ha)
    rw [hcount, hl']
    rcases List.mem_cons.mp hmem with rfl | hlater
    · exact .inl ⟨.inl rfl, by rw [List.count_singleton_self]⟩
    · exact .inr ⟨(before_iff_mem_right hnodup').mpr hlater,
        by rw [count_singleton_eq_zero hnodup' (.inr hlater)]⟩

end Walk

end Containers
