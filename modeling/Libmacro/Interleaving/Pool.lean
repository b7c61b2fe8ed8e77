import Mathlib.Algebra.Order.Ring.Nat
import Mathlib.Algebra.Order.BigOperators.Group.List

/-! # Weights of a thread pool

A pool is the list of the threads of a concurrent system; a thread keeps its position for
ever, new threads are appended. Counting invariants ("the counter equals the number of
threads at these places") are statements about `weight f pool`, the sum of `f` over the pool.
The lemmas say how a weight moves when one thread takes a step: the thread is replaced
(`weight_set`) and the threads it spawned are appended (`weight_append`). -/

namespace Interleaving

variable {τ : Type*}

/-- The total weight `∑ f t` of the threads of a pool. -/
def weight (f : τ → ℕ) (pool : List τ) : ℕ := (pool.map f).sum

/-- An empty pool weighs nothing. -/
@[simp] theorem weight_nil (f : τ → ℕ) : weight f [] = 0 := rfl

/-- The weight of a pool is that of its first thread and of the rest. -/
@[simp] theorem weight_cons (f : τ → ℕ) (t : τ) (pool : List τ) :
    weight f (t :: pool) = f t + weight f pool := by
  simp [weight]

/-- New threads add their own weight to that of the pool. -/
@[simp] theorem weight_append (f : τ → ℕ) (pool pool' : List τ) :
    weight f (pool ++ pool') = weight f pool + weight f pool' := by
  simp [weight]

/-- **Replacing one thread** moves the weight by the difference of the two threads, written
without subtraction. -/
theorem weight_set (f : τ → ℕ) {pool : List τ} {i : ℕ} {t : τ} (t' : τ)
    (h : pool[i]? = some t) : weight f (pool.set i t') + f t = weight f pool + f t' := by
  induction pool generalizing i with
  | nil => simp at h
  | cons u pool ih =>
    cases i with
    | zero =>
      obtain rfl : u = t := by simpa using h
      simp only [List.set_cons_zero, weight_cons]
      omega
    | succ i =>
      have := ih (i := i) (by simpa using h)
      simp only [List.set_cons_succ, weight_cons]
      omega

/-- **One thread's step on the pool**: thread `i` becomes `t'` and spawns `ts`. -/
theorem weight_set_append (f : τ → ℕ) {pool : List τ} {i : ℕ} {t : τ} (t' : τ) (ts : List τ)
    (h : pool[i]? = some t) :
    weight f (pool.set i t' ++ ts) + f t = weight f pool + f t' + weight f ts := by
  have := weight_set f t' h
  rw [weight_append]
  omega

/-- No thread weighs more than its pool. -/
theorem le_weight (f : τ → ℕ) {pool : List τ} {t : τ} (h : t ∈ pool) : f t ≤ weight f pool :=
  List.single_le_sum (fun _ _ => Nat.zero_le _) _ (List.mem_map_of_mem h)

/-- Two threads of the pool are not heavier than the pool. -/
theorem add_le_weight (f : τ → ℕ) {pool : List τ} {i j : ℕ} {t u : τ} (hi : pool[i]? = some t)
    (hj : pool[j]? = some u) (hji : j ≠ i) : f t + f u ≤ weight f pool := by
  induction pool generalizing i j with
  | nil => simp at hi
  | cons x pool ih =>
    rw [weight_cons]
    cases i with
    | zero =>
      obtain rfl : x = t := by simpa using hi
      cases j with
      | zero => exact absurd rfl hji
      | succ j =>
        have := le_weight f (List.mem_of_getElem? (by simpa using hj))
        omega
    | succ i =>
      cases j with
      | zero =>
        obtain rfl : x = u := by simpa using hj
        have := le_weight f (List.mem_of_getElem? (by simpa using hi))
        omega
      | succ j =>
        have := ih (by simpa using hi) (by simpa using hj) (by omega)
        omega

/-- A weight that is smaller on each thread is smaller on the pool. -/
theorem weight_le_weight {f g : τ → ℕ} {pool : List τ} (h : ∀ t ∈ pool, f t ≤ g t) :
    weight f pool ≤ weight g pool :=
  List.sum_le_sum h

/-- It is smaller as soon as it is smaller on one thread. -/
theorem weight_lt_weight {f g : τ → ℕ} {pool : List τ} {t : τ} (h : ∀ u ∈ pool, f u ≤ g u)
    (ht : t ∈ pool) (hlt : f t < g t) : weight f pool < weight g pool :=
  List.sum_lt_sum f g h ⟨t, ht, hlt⟩

/-- A weight that is at most `d` larger on each thread. -/
theorem weight_le_add {f g : τ → ℕ} {pool : List τ} {d : ℕ} (h : ∀ u ∈ pool, g u ≤ f u + d) :
    weight g pool ≤ weight f pool + d * pool.length := by
  induction pool with
  | nil => exact Nat.zero_le _
  | cons u pool ih =>
    obtain ⟨hu, hpool⟩ := List.forall_mem_cons.mp h
    have := ih hpool
    rw [weight_cons, weight_cons, List.length_cons, Nat.mul_succ]
    omega

/-- **Replacing one thread under another weight**, which gives every thread at most `d` more. -/
theorem weight_set_le {f g : τ → ℕ} {pool : List τ} {d i : ℕ} {t : τ}
    (h : ∀ u ∈ pool, g u ≤ f u + d) (t' : τ) (ht : pool[i]? = some t) :
    weight g (pool.set i t') + f t ≤ weight f pool + g t' + d * pool.length := by
  induction pool generalizing i with
  | nil => simp at ht
  | cons u pool ih =>
    obtain ⟨hu, hpool⟩ := List.forall_mem_cons.mp h
    cases i with
    | zero =>
      obtain rfl : u = t := by simpa using ht
      have hle : weight g pool ≤ weight f pool + d * pool.length := weight_le_add hpool
      rw [List.set_cons_zero, weight_cons, weight_cons, List.length_cons, Nat.mul_succ]
      omega
    | succ i =>
      have := ih (i := i) hpool (by simpa using ht)
      rw [List.set_cons_succ, weight_cons, weight_cons, List.length_cons, Nat.mul_succ]
      omega

/-- A pool has weight zero iff each of its threads has. -/
theorem weight_eq_zero_iff {f : τ → ℕ} {pool : List τ} :
    weight f pool = 0 ↔ ∀ t ∈ pool, f t = 0 := by
  simp [weight, List.sum_eq_zero_iff_forall_eq_nat]

/-- Weights add up thread by thread. -/
theorem weight_add (f g : τ → ℕ) (pool : List τ) :
    weight (fun t => f t + g t) pool = weight f pool + weight g pool := by
  induction pool with
  | nil => rfl
  | cons t pool ih =>
    simp only [weight_cons, ih]
    omega

/-- **A property of all threads after a step** of one of them: it has to hold of the threads
before, of the moved thread and of the spawned ones. -/
theorem forall_mem_set_append {P : τ → Prop} {pool : List τ} {i : ℕ} {t' : τ} {ts : List τ}
    (hpool : ∀ t ∈ pool, P t) (ht' : P t') (hts : ∀ t ∈ ts, P t) :
    ∀ t ∈ pool.set i t' ++ ts, P t := by
  intro t ht
  rcases List.mem_append.mp ht with ht | ht
  · rcases List.mem_or_eq_of_mem_set ht with ht | rfl
    · exact hpool t ht
    · exact ht'
  · exact hts t ht

/-- **A property of all threads when one is added**: it has to hold of the threads before and of
the new one. -/
theorem forall_mem_concat {P : τ → Prop} {pool : List τ} {t : τ} (hpool : ∀ u ∈ pool, P u)
    (ht : P t) : ∀ u ∈ pool ++ [t], P u :=
  List.forall_mem_append.mpr ⟨hpool, List.forall_mem_singleton.mpr ht⟩

/-- A new thread leaves the others where they stand. -/
theorem getElem?_append_of_some {pool ts : List τ} {w : ℕ} {t : τ} (h : pool[w]? = some t) :
    (pool ++ ts)[w]? = some t := by
  obtain ⟨hlt, -⟩ := List.getElem?_eq_some_iff.mp h
  rw [List.getElem?_append_left hlt, h]

/-- **Who stands at a position when a thread is added**: a thread that stood there before, or the
new one. -/
theorem getElem?_concat_cases {pool : List τ} {j : ℕ} {t u : τ} (h : (pool ++ [t])[j]? = some u) :
    pool[j]? = some u ∨ j = pool.length ∧ u = t := by
  rcases Nat.lt_or_ge j pool.length with hj | hj
  · rw [List.getElem?_append_left hj] at h
    exact .inl h
  · have hlt : j < pool.length + 1 := by simpa using (List.getElem?_eq_some_iff.mp h).1
    rw [List.getElem?_append_right hj] at h
    exact .inr ⟨Nat.le_antisymm (Nat.le_of_lt_succ hlt) hj,
      List.mem_singleton.mp (List.mem_of_getElem? h)⟩

/-- **Who stands where after a step** of thread `i`: the other threads where they stood. -/
theorem getElem?_set_append {pool : List τ} {i w : ℕ} {t u : τ} (t' : τ) (ts : List τ)
    (hi : pool[i]? = some t) (hw : pool[w]? = some u) :
    (pool.set i t' ++ ts)[w]? = some (if w = i then t' else u) := by
  obtain ⟨hlt, -⟩ := List.getElem?_eq_some_iff.mp hw
  rw [List.getElem?_append_left (by simpa using hlt)]
  split_ifs with h
  · subst h
    exact List.getElem?_set_self hlt
  · rw [List.getElem?_set_ne (Ne.symm h), hw]

/-- **Who stands at a position after a step** of thread `i`: the moved thread, a thread that stood
there before, or a spawned one. -/
theorem getElem?_set_append_cases {pool ts : List τ} {i j : ℕ} {t' u : τ}
    (h : (pool.set i t' ++ ts)[j]? = some u) :
    j = i ∧ u = t' ∨ j ≠ i ∧ pool[j]? = some u ∨ u ∈ ts := by
  rcases Nat.lt_or_ge j pool.length with hj | hj
  · rw [List.getElem?_append_left (by simpa using hj)] at h
    by_cases hji : j = i
    · subst hji
      rw [List.getElem?_set_self hj] at h
      exact .inl ⟨rfl, (Option.some.inj h).symm⟩
    · rw [List.getElem?_set_ne (Ne.symm hji)] at h
      exact .inr (.inl ⟨hji, h⟩)
  · rw [List.getElem?_append_right (by simpa using hj)] at h
    exact .inr (.inr (List.mem_of_getElem? h))

/-- A thread that does not move stays in the pool. -/
theorem mem_set_append_of_ne {pool : List τ} {i : ℕ} {t u : τ} (t' : τ) (ts : List τ)
    (h : pool[i]? = some t) (hu : u ∈ pool) (hne : u ≠ t) : u ∈ pool.set i t' ++ ts := by
  obtain ⟨j, hj⟩ := List.mem_iff_getElem?.mp hu
  have hji : j ≠ i := by
    rintro rfl
    exact hne (Option.some.inj (hj.symm.trans h))
  refine List.mem_iff_getElem?.mpr ⟨j, ?_⟩
  rw [getElem?_set_append t' ts h hj, if_neg hji]

/-- The thread that moves is in the pool at its new place. -/
theorem mem_set_append_self {pool : List τ} {i : ℕ} {t : τ} (t' : τ) (ts : List τ)
    (h : pool[i]? = some t) : t' ∈ pool.set i t' ++ ts := by
  obtain ⟨hi, -⟩ := List.getElem?_eq_some_iff.mp h
  exact List.mem_append_left _ (List.mem_set hi t')

end Interleaving
