import Libmacro.Containers.History
import Mathlib.Data.List.Nodup

/-! # Objects that are created and destroyed

A history creates and destroys objects at addresses, in any order; the address of a destroyed
object may be used again. An object lives when the last that happened at its address is its
creation (`Live`), and the newest is the living one after whose creation nothing was created that
still lives (`Newest`).

A list that gets every new object at its end and loses every destroyed one holds the living objects
once each (`mem_livingAfter_iff`, `nodup_livingAfter`), oldest first: its last entry is the newest
(`getLast?_livingAfter_iff`). -/

namespace Containers

variable {α : Type*}

/-- What happens to an object at an address, which may be used again after a destruction. -/
inductive Lifetime (α : Type*) where
  /-- An object is created at the address. -/
  | create (a : α)
  /-- The object at the address is destroyed. -/
  | destroy (a : α)
  deriving DecidableEq, Repr

namespace Lifetime

variable [DecidableEq α]

/-- Whether an object lives at address `a`, as far as the event says. -/
def sets (a : α) : Lifetime α → Option Bool
  | create a' => if a' = a then some true else none
  | destroy a' => if a' = a then some false else none

/-- **An object lives at the address**: what happened there last is a creation. -/
def Live (history : List (Lifetime α)) (a : α) : Prop := LastSet (sets a) history true

/-- **The newest living object**: nothing that was created after it still lives. -/
def Newest (history : List (Lifetime α)) (a : α) : Prop :=
  ∃ before later, history = before ++ create a :: later ∧ (∀ e ∈ later, sets a e = none) ∧
    ∀ a', ¬ Live later a'

/-- The event may come next: nothing lives where an object is created, and what is destroyed
lives. -/
def Allowed (history : List (Lifetime α)) : Lifetime α → Prop
  | create a => ¬ Live history a
  | destroy a => Live history a

/-- **A history that can happen**: living objects have distinct addresses, and only living ones are
destroyed. -/
def Admissible (history : List (Lifetime α)) : Prop :=
  ∀ before e later, history = before ++ e :: later → Allowed before e

section Histories

variable {history before later : List (Lifetime α)} {a a' : α} {e : Lifetime α}

/-- A creation makes its own object live, and says nothing about another one. -/
@[simp] theorem sets_create : sets a (create a') = if a' = a then some true else none := rfl

/-- A destruction ends the life of its own object, and says nothing about another one. -/
@[simp] theorem sets_destroy : sets a (destroy a') = if a' = a then some false else none := rfl

/-- Only its creation makes an object live. -/
theorem eq_create_of_sets (h : sets a e = some true) : e = create a := by
  cases e with
  | create a' =>
    rw [sets_create] at h
    split_ifs at h with ha
    rw [ha]
  | destroy a' =>
    rw [sets_destroy] at h
    split_ifs at h
    cases h

/-- Nothing lives before the first creation. -/
theorem not_live_nil : ¬ Live ([] : List (Lifetime α)) a := by
  rintro ⟨before, e, later, hnil, -⟩
  exact absurd hnil (by simp)

/-- Nothing else lives after a creation than before it. -/
theorem live_concat_create : Live (history ++ [create a']) a ↔ a = a' ∨ Live history a := by
  rw [Live, ← lastSet_eq_some_iff, lastSet_concat, sets_create, Live, ← lastSet_eq_some_iff]
  by_cases ha : a' = a
  · rw [if_pos ha, Option.some_or]
    exact iff_of_true rfl (Or.inl ha.symm)
  · rw [if_neg ha, Option.none_or, or_iff_right (Ne.symm ha)]

/-- After a destruction there live those that lived before it, without the one destroyed. -/
theorem live_concat_destroy : Live (history ++ [destroy a']) a ↔ a ≠ a' ∧ Live history a := by
  rw [Live, ← lastSet_eq_some_iff, lastSet_concat, sets_destroy, Live, ← lastSet_eq_some_iff]
  by_cases ha : a' = a
  · rw [if_pos ha, Option.some_or]
    exact iff_of_false (by simp) fun h => h.1 ha.symm
  · rw [if_neg ha, Option.none_or, and_iff_right (Ne.symm ha)]

/-- An admissible history is admissible up to its last event, which is allowed there. -/
theorem Admissible.of_concat (h : Admissible (history ++ [e])) :
    Admissible history ∧ Allowed history e := by
  refine ⟨fun before e' later hsplit => h before e' (later ++ [e]) ?_, h history e [] rfl⟩
  rw [hsplit, List.append_assoc, List.cons_append]

/-- An admissible history, place by place. -/
theorem admissible_iff : Admissible history ↔
    ∀ i (hi : i < history.length), Allowed (history.take i) (history.get ⟨i, hi⟩) := by
  constructor
  · intro h i hi
    refine h (history.take i) (history.get ⟨i, hi⟩) (history.drop (i + 1)) ?_
    rw [List.get_eq_getElem, ← List.drop_eq_getElem_cons hi, List.take_append_drop]
  · rintro h before e later rfl
    have hat := h before.length (by simp)
    simpa using hat

/-- Whether an object lives is computed from the last event about it. -/
instance : Decidable (Live history a) :=
  decidable_of_iff (lastSet (sets a) history = some true) lastSet_eq_some_iff

/-- An event is allowed or not according to whether its object lives. -/
instance : Decidable (Allowed history e) :=
  match e with
  | create a => inferInstanceAs (Decidable (¬ Live history a))
  | destroy a => inferInstanceAs (Decidable (Live history a))

/-- Whether a history is admissible is computed place by place. -/
instance : Decidable (Admissible history) := decidable_of_iff _ admissible_iff.symm

end Histories

/-! ## The list of the living -/

/-- The list of the living after an event: the newest object comes last. -/
def living (objects : List α) : Lifetime α → List α
  | create a => objects ++ [a]
  | destroy a => objects.erase a

/-- The list of the living after a history, in the order in which they were created. -/
def livingAfter (history : List (Lifetime α)) : List α := history.foldl living []

section Living

variable {history before later : List (Lifetime α)} {a : α}

/-- Before the first event the list of living objects is empty. -/
@[simp] theorem livingAfter_nil : livingAfter ([] : List (Lifetime α)) = [] := rfl

/-- The list after one more event is the list before it, with the object appended or taken out. -/
@[simp] theorem livingAfter_concat (history : List (Lifetime α)) (e : Lifetime α) :
    livingAfter (history ++ [e]) = living (livingAfter history) e := by
  rw [livingAfter, List.foldl_append, List.foldl_cons, List.foldl_nil, livingAfter]

/-- **The list holds the living objects**, each once. -/
theorem livingAfter_spec (h : Admissible history) :
    (livingAfter history).Nodup ∧ ∀ a, a ∈ livingAfter history ↔ Live history a := by
  induction history using List.reverseRecOn with
  | nil => exact ⟨List.nodup_nil, fun a => iff_of_false List.not_mem_nil not_live_nil⟩
  | append_singleton history e ih =>
    obtain ⟨hbefore, hallowed⟩ := h.of_concat
    obtain ⟨hnodup, hmem⟩ := ih hbefore
    rw [livingAfter_concat]
    cases e with
    | create a' =>
      have hnew : a' ∉ livingAfter history := mt (hmem a').mp hallowed
      rw [living]
      refine ⟨?_, fun a => ?_⟩
      · rw [← List.concat_eq_append]
        exact hnodup.concat hnew
      · rw [List.mem_append, List.mem_singleton, live_concat_create, hmem, or_comm]
    | destroy a' =>
      refine ⟨hnodup.erase a', fun a => ?_⟩
      rw [living, hnodup.mem_erase_iff, live_concat_destroy, hmem]

/-- No object is listed twice, since only an object that does not live can be created. -/
theorem nodup_livingAfter (h : Admissible history) : (livingAfter history).Nodup :=
  (livingAfter_spec h).1

/-- The list holds exactly the objects that live. -/
theorem mem_livingAfter_iff (h : Admissible history) :
    a ∈ livingAfter history ↔ Live history a :=
  (livingAfter_spec h).2 a

/-- **What stands behind an object in the list** was created after it, and lives. -/
theorem livingAfter_eq_of_create (h : Admissible (before ++ create a :: later))
    (hlater : ∀ e ∈ later, sets a e = none) :
    ∃ older newer, livingAfter (before ++ create a :: later) = older ++ a :: newer ∧
      ∀ a', a' ∈ newer ↔ Live later a' := by
  induction later using List.reverseRecOn with
  | nil =>
    refine ⟨livingAfter before, [], livingAfter_concat before (create a), fun a' => ?_⟩
    exact iff_of_false List.not_mem_nil not_live_nil
  | append_singleton later e ih =>
    have hsplit : before ++ create a :: (later ++ [e]) = (before ++ create a :: later) ++ [e] := by
      rw [List.append_assoc, List.cons_append]
    rw [hsplit] at h ⊢
    obtain ⟨hbefore, -⟩ := h.of_concat
    obtain ⟨older, newer, heq, hnewer⟩ :=
      ih hbefore fun e' he' => hlater e' (List.mem_append_left _ he')
    have hnodup := nodup_livingAfter hbefore
    rw [heq] at hnodup
    rw [livingAfter_concat, heq]
    cases e with
    | create a' =>
      refine ⟨older, newer ++ [a'], ?_, fun x => ?_⟩
      · rw [living, List.append_assoc, List.cons_append]
      · rw [List.mem_append, List.mem_singleton, live_concat_create, hnewer, or_comm]
    | destroy a' =>
      -- it is not `a` that is destroyed
      have hne : a ≠ a' := by
        rintro rfl
        have hsets := hlater (destroy a) (by simp)
        simp at hsets
      obtain ⟨-, hnewer', hdisjoint⟩ := List.nodup_append.mp hnodup
      obtain ⟨-, hnewer'⟩ := List.nodup_cons.mp hnewer'
      by_cases holder : a' ∈ older
      · refine ⟨older.erase a', newer, List.erase_append_left _ holder, fun x => ?_⟩
        have hnot : a' ∉ newer := fun hmem =>
          hdisjoint a' holder a' (List.mem_cons_of_mem _ hmem) rfl
        rw [live_concat_destroy, ← hnewer, and_iff_right_of_imp]
        rintro hx rfl
        exact hnot hx
      · refine ⟨older, newer.erase a', ?_, fun x => ?_⟩
        · rw [living, List.erase_append_right _ holder, List.erase_cons_tail (by simpa using hne)]
        · rw [hnewer'.mem_erase_iff, live_concat_destroy, hnewer]

/-- **The last entry is the newest living object.** -/
theorem getLast?_livingAfter_iff (h : Admissible history) :
    (livingAfter history).getLast? = some a ↔ Newest history a := by
  constructor
  · intro hlast
    obtain ⟨before, e, later, rfl, hsets, hlater⟩ :=
      (mem_livingAfter_iff h).mp (List.mem_of_getLast? hlast)
    obtain rfl := eq_create_of_sets hsets
    obtain ⟨older, newer, heq, hnewer⟩ := livingAfter_eq_of_create h hlater
    have hnodup := nodup_livingAfter h
    rw [heq] at hlast hnodup
    refine ⟨before, later, rfl, hlater, fun a' ha' => ?_⟩
    -- were there anything behind `a`, the last of it would be `a` again
    have hne : newer ≠ [] := List.ne_nil_of_mem ((hnewer a').mpr ha')
    rw [List.getLast?_append_cons, List.getLast?_cons_of_ne_nil hne] at hlast
    have hcons := (List.nodup_append.mp hnodup).2.1
    exact (List.nodup_cons.mp hcons).1 (List.mem_of_getLast? hlast)
  · rintro ⟨before, later, rfl, hlater, hdead⟩
    obtain ⟨older, newer, heq, hnewer⟩ := livingAfter_eq_of_create h hlater
    obtain rfl : newer = [] :=
      List.eq_nil_iff_forall_not_mem.mpr fun a' ha' => hdead a' ((hnewer a').mp ha')
    rw [heq, List.getLast?_concat]

end Living

end Lifetime

end Containers
