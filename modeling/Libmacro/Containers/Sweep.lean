import Mathlib.Data.Finset.Insert
import Mathlib.Data.List.Nodup
import Mathlib.Data.List.Perm.Basic

/-! # Sweeps

A sweep visits the keys of a list in its order, each key once, until a visit stops it. When the
visits are independent (whether a visit stops is not changed by the visits of other keys), what a
sweep can do in any order of the keys is read off the single visits: it can stop with what a visit
stops with (`forall_perm_stop_iff`), and it visits every key in every order iff no visit stops or
there is only one key (`forall_perm_visited_iff`). -/

namespace Containers

/-- What a sweep did: the keys that it visited, the state that it left and what stopped it. -/
structure Swept (κ σ ε : Type*) where
  /-- The keys visited. -/
  visited : List κ
  /-- The state it left. -/
  state : σ
  /-- What stopped it. -/
  stop : Option ε

section Sweep

variable {κ σ ε : Type*} [DecidableEq κ]

/-- The sweep over the keys that are not in `seen`, each visited once, up to the first that stops
it. -/
def sweep (visit : κ → σ → σ × Option ε) : List κ → Finset κ → σ → Swept κ σ ε
  | [], _, s => ⟨[], s, none⟩
  | k :: keys, seen, s =>
    if k ∈ seen then sweep visit keys seen s
    else match visit k s with
      | (s', some e) => ⟨[k], s', some e⟩
      | (s', none) =>
        let rest := sweep visit keys (insert k seen) s'
        ⟨k :: rest.visited, rest.state, rest.stop⟩

/-- Whether a visit stops, and with what, does not depend on the visits of other keys. -/
def Independent (visit : κ → σ → σ × Option ε) : Prop :=
  ∀ k k' s, k' ≠ k → (visit k' (visit k s).1).2 = (visit k' s).2

variable {visit : κ → σ → σ × Option ε} {keys : List κ} {seen : Finset κ} {k : κ} {s s' : σ} {e : ε}

/-- A visit that stops is the last. -/
theorem sweep_cons_of_stop (hk : k ∉ seen) (h : visit k s = (s', some e)) :
    sweep visit (k :: keys) seen s = ⟨[k], s', some e⟩ := by
  rw [sweep, if_neg hk, h]

/-! ## One sweep -/

/-- **Each key is visited once**, and only keys of the list that were not seen. -/
theorem visited_spec (visit : κ → σ → σ × Option ε) (keys : List κ) (seen : Finset κ) (s : σ) :
    (sweep visit keys seen s).visited.Nodup ∧
      ∀ k ∈ (sweep visit keys seen s).visited, k ∈ keys ∧ k ∉ seen := by
  fun_induction sweep visit keys seen s with
  | case1 seen s => exact ⟨List.nodup_nil, fun k hk => absurd hk List.not_mem_nil⟩
  | case2 k keys seen s hk ih =>
    obtain ⟨hnodup, hmem⟩ := ih
    exact ⟨hnodup, fun k' hk' => ⟨List.mem_cons_of_mem k (hmem k' hk').1, (hmem k' hk').2⟩⟩
  | case3 k keys seen s hk s' e hvisit =>
    refine ⟨List.nodup_singleton k, fun k' hk' => ?_⟩
    rw [List.mem_singleton.mp hk']
    exact ⟨List.mem_cons_self, hk⟩
  | case4 k keys seen s hk s' hvisit rest ih =>
    obtain ⟨hnodup, hmem⟩ := ih
    refine ⟨List.nodup_cons.mpr ⟨?_, hnodup⟩, fun k' hk' => ?_⟩
    · intro hself
      exact (hmem k hself).2 (Finset.mem_insert_self k seen)
    · rcases List.mem_cons.mp hk' with rfl | hk'
      · exact ⟨List.mem_cons_self, hk⟩
      · obtain ⟨hkeys, hseen⟩ := hmem k' hk'
        exact ⟨List.mem_cons_of_mem k hkeys, fun h => hseen (Finset.mem_insert_of_mem h)⟩

/-- A sweep visits no element twice. -/
theorem nodup_visited : (sweep visit keys seen s).visited.Nodup :=
  (visited_spec visit keys seen s).1

/-- A sweep visits nothing but elements of the list it goes over. -/
theorem mem_keys_of_mem_visited (h : k ∈ (sweep visit keys seen s).visited) : k ∈ keys :=
  ((visited_spec visit keys seen s).2 k h).1

/-- A sweep that nothing stopped visited every key it had not seen. -/
theorem mem_visited_of_stop_eq_none (h : (sweep visit keys seen s).stop = none) (hk : k ∈ keys)
    (hseen : k ∉ seen) : k ∈ (sweep visit keys seen s).visited := by
  fun_induction sweep visit keys seen s with
  | case1 seen s => exact absurd hk List.not_mem_nil
  | case2 k' keys seen s hk' ih =>
    refine ih h ((List.mem_cons.mp hk).resolve_left ?_) hseen
    rintro rfl
    exact hseen hk'
  | case3 k' keys seen s hk' s' e hvisit => exact absurd h (Option.some_ne_none e)
  | case4 k' keys seen s hk' s' hvisit rest ih =>
    by_cases heq : k = k'
    · rw [heq]
      exact List.mem_cons_self
    · refine List.mem_cons_of_mem k' (ih h ((List.mem_cons.mp hk).resolve_left heq) ?_)
      rw [Finset.mem_insert, not_or]
      exact ⟨heq, hseen⟩

/-- The first key is visited, whatever its visit does. -/
theorem head_mem_visited (hk : k ∉ seen) : k ∈ (sweep visit (k :: keys) seen s).visited := by
  rw [sweep, if_neg hk]
  split
  · exact List.mem_cons_self
  · exact List.mem_cons_self

/-- **What every visit keeps the sweep keeps.** -/
theorem sweep_state_rule {P : σ → Prop} (hvisit : ∀ k s, P s → P (visit k s).1) (h : P s) :
    P (sweep visit keys seen s).state := by
  fun_induction sweep visit keys seen s with
  | case1 seen s => exact h
  | case2 k keys seen s hk ih => exact ih h
  | case3 k keys seen s hk s' e heq =>
    have hstep := hvisit k s h
    rwa [heq] at hstep
  | case4 k keys seen s hk s' heq rest ih =>
    have hstep := hvisit k s h
    rw [heq] at hstep
    exact ih hstep

/-- What stops a sweep of independent visits stops the visit of a key at once. -/
theorem exists_of_stop_eq_some (hind : Independent visit)
    (h : (sweep visit keys seen s).stop = some e) :
    ∃ k ∈ keys, k ∉ seen ∧ (visit k s).2 = some e := by
  fun_induction sweep visit keys seen s with
  | case1 seen s => cases h
  | case2 k keys seen s hk ih =>
    obtain ⟨k', hk', hseen, hstop⟩ := ih h
    exact ⟨k', List.mem_cons_of_mem k hk', hseen, hstop⟩
  | case3 k keys seen s hk s' e' hvisit =>
    exact ⟨k, List.mem_cons_self, hk, by rw [hvisit]; exact h⟩
  | case4 k keys seen s hk s' hvisit rest ih =>
    obtain ⟨k', hk', hseen, hstop⟩ := ih h
    rw [Finset.mem_insert, not_or] at hseen
    -- the visit of `k` before does not matter
    have hsame := hind k k' s hseen.1
    rw [hvisit] at hsame
    exact ⟨k', List.mem_cons_of_mem k hk', hseen.2, hsame.symm.trans hstop⟩

/-! ## Every order -/

/-- Any key of the list can be the first. -/
theorem exists_perm_cons (hk : k ∈ keys) : ∃ rest, (k :: rest).Perm keys :=
  ⟨keys.erase k, (List.perm_cons_erase hk).symm⟩

/-- **What can stop a sweep**: in some order, whatever stops a visit. -/
theorem forall_perm_stop_iff (hind : Independent visit) (keys : List κ) (s : σ) (P : ε → Prop) :
    (∀ keys', keys'.Perm keys → ∀ e, (sweep visit keys' ∅ s).stop = some e → P e) ↔
      ∀ k ∈ keys, ∀ e, (visit k s).2 = some e → P e := by
  constructor
  · intro h k hk e hstop
    obtain ⟨rest, hperm⟩ := exists_perm_cons hk
    refine h (k :: rest) hperm e ?_
    rw [sweep_cons_of_stop (Finset.notMem_empty k) (Prod.ext rfl hstop)]
  · intro h keys' hperm e hstop
    obtain ⟨k, hk, -, hvisit⟩ := exists_of_stop_eq_some hind hstop
    exact h k (hperm.mem_iff.mp hk) e hvisit

/-- **When every key is visited in every order**: no visit stops, or the one that does is of the
only key. -/
theorem forall_perm_visited_iff (hind : Independent visit) (keys : List κ) (s : σ) :
    (∀ keys', keys'.Perm keys → ∀ k ∈ keys, k ∈ (sweep visit keys' ∅ s).visited) ↔
      ∀ k ∈ keys, (visit k s).2 ≠ none → ∀ k' ∈ keys, k' = k := by
  constructor
  · intro h k hk hstop k' hk'
    obtain ⟨e, he⟩ := Option.ne_none_iff_exists'.mp hstop
    obtain ⟨rest, hperm⟩ := exists_perm_cons hk
    have hmem := h (k :: rest) hperm k' hk'
    rw [sweep_cons_of_stop (Finset.notMem_empty k) (Prod.ext rfl he)] at hmem
    exact List.mem_singleton.mp hmem
  · intro h keys' hperm k hk
    cases hstop : (sweep visit keys' ∅ s).stop with
    | none =>
      exact mem_visited_of_stop_eq_none hstop (hperm.mem_iff.mpr hk) (Finset.notMem_empty k)
    | some e =>
      obtain ⟨k', hk', -, hvisit⟩ := exists_of_stop_eq_some hind hstop
      have honly := h k' (hperm.mem_iff.mp hk') (by rw [hvisit]; exact Option.some_ne_none e)
      -- the first key is the only one
      cases keys' with
      | nil => exact absurd hk' List.not_mem_nil
      | cons first rest =>
        have hfirst := honly first (hperm.mem_iff.mp List.mem_cons_self)
        rw [honly k hk, ← hfirst]
        exact head_mem_visited (Finset.notMem_empty first)

end Sweep

end Containers
