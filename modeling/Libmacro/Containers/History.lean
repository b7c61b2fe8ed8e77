import Mathlib.Data.List.Basic
import Mathlib.Data.List.Induction

/-! # What a history sets last

A call of a history may set one observed value (`sets c = some x`) or not touch it (`none`). When
every call sets the observation to that value and otherwise leaves it, a whole history leaves what
was set last (`observe_foldl`). -/

namespace Containers

variable {γ σ α : Type*}

/-- The value that the calls of a history set last, if any of them sets one. -/
def lastSet (sets : γ → Option α) (calls : List γ) : Option α :=
  (calls.filterMap sets).getLast?

/-- **`x` is set and nothing is set after it.** -/
def LastSet (sets : γ → Option α) (calls : List γ) (x : α) : Prop :=
  ∃ before c later, calls = before ++ c :: later ∧ sets c = some x ∧ ∀ c' ∈ later, sets c' = none

variable {sets : γ → Option α}

/-- Before the first call nothing has been set. -/
@[simp] theorem lastSet_nil : lastSet sets [] = none := rfl

/-- The newest call decides what is set last; where it sets nothing, the calls before it do. -/
theorem lastSet_concat (calls : List γ) (c : γ) :
    lastSet sets (calls ++ [c]) = (sets c).or (lastSet sets calls) := by
  rw [lastSet, List.filterMap_append]
  cases h : sets c with
  | none =>
    rw [List.filterMap_cons_none h, List.filterMap_nil, List.append_nil, Option.none_or]
    rfl
  | some x =>
    rw [List.filterMap_cons_some h, List.filterMap_nil, List.getLast?_concat, Option.some_or]

/-- The oldest call decides only where none of the later ones sets anything. -/
theorem lastSet_cons (c : γ) (calls : List γ) :
    lastSet sets (c :: calls) = (lastSet sets calls).or (sets c) := by
  rw [lastSet, lastSet]
  cases h : sets c with
  | none => rw [List.filterMap_cons_none h, Option.or_none]
  | some x =>
    rw [List.filterMap_cons_some h, List.getLast?_cons]
    cases (calls.filterMap sets).getLast? <;> rfl

/-- Nothing is set last iff no call of the history sets anything. -/
theorem lastSet_eq_none_iff {calls : List γ} :
    lastSet sets calls = none ↔ ∀ c ∈ calls, sets c = none := by
  rw [lastSet, List.getLast?_eq_none_iff, List.filterMap_eq_nil_iff]

/-- The value that a call has set, and that no later call has set again, is the one that is
computed. -/
theorem LastSet.lastSet_eq {calls : List γ} {x : α} (h : LastSet sets calls x) :
    lastSet sets calls = some x := by
  obtain ⟨before, c, later, rfl, hc, hlater⟩ := h
  have hnil : later.filterMap sets = [] := List.filterMap_eq_nil_iff.mpr hlater
  rw [lastSet, List.filterMap_append, List.filterMap_cons_some hc, hnil, List.getLast?_concat]

/-- The computed value is the described one. -/
theorem lastSet_eq_some_iff {calls : List γ} {x : α} :
    lastSet sets calls = some x ↔ LastSet sets calls x := by
  refine ⟨fun h => ?_, LastSet.lastSet_eq⟩
  induction calls using List.reverseRecOn with
  | nil => exact absurd h (by simp)
  | append_singleton calls c ih =>
    rw [lastSet_concat] at h
    cases hc : sets c with
    | none =>
      rw [hc, Option.none_or] at h
      obtain ⟨before, c', later, rfl, hc', hlater⟩ := ih h
      refine ⟨before, c', later ++ [c], by simp, hc', fun c'' hmem => ?_⟩
      rcases List.mem_append.mp hmem with hmem | hmem
      · exact hlater c'' hmem
      · rw [List.mem_singleton.mp hmem]
        exact hc
    | some y =>
      rw [hc, Option.some_or] at h
      exact ⟨calls, c, [], rfl, hc.trans h, by simp⟩

/-- Calls that set nothing can be filtered out. -/
theorem lastSet_filter {calls : List γ} {p : γ → Bool}
    (h : ∀ c ∈ calls, p c = false → sets c = none) :
    lastSet sets (calls.filter p) = lastSet sets calls := by
  rw [lastSet, lastSet, List.filterMap_filter]
  refine congrArg List.getLast? (List.filterMap_congr fun c hc => ?_)
  cases hp : p c with
  | true => rfl
  | false => rw [h c hc hp]; rfl

/-- Reading a history through a function is reading its image: only what each call sets matters. -/
theorem lastSet_map {δ : Type*} (sets : δ → Option α) (f : γ → δ) (calls : List γ) :
    lastSet sets (calls.map f) = lastSet (fun c => sets (f c)) calls := by
  rw [lastSet, lastSet, List.filterMap_map]
  rfl

/-- **A history leaves what was set last**: an observation that each call sets,
or leaves. -/
theorem observe_foldl {step : σ → γ → σ} (observe : σ → α)
    (h : ∀ s c, observe (step s c) = (sets c).getD (observe s)) (s : σ) (calls : List γ) :
    observe (calls.foldl step s) = (lastSet sets calls).getD (observe s) := by
  induction calls using List.reverseRecOn with
  | nil => rfl
  | append_singleton calls c ih =>
    rw [List.foldl_append, List.foldl_cons, List.foldl_nil, h, ih, lastSet_concat]
    cases sets c <;> rfl

end Containers
