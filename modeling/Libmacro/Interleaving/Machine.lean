import Libmacro.Interleaving.Pool

/-! # Interleaved threads over a shared state

A **machine** is a shared state, a pool of threads and, for each thread, its next atomic step.
The environment may add a thread at any time (it *calls* into the program); every other step
is one thread of the pool moving. Steps are partial functions, so that runs can be computed
(`Machine.exec`), and emit events, so that properties about the past of a run are statements
about its trace.

* `Run M allowed c₀ tr c`: `c` is reached from `c₀` with trace `tr` by steps that meet
  `allowed`, a condition on the configuration before the step and on the step's label.
* `Run.invariant`: the induction over all interleavings, one obligation for calls and one for
  the move of a thread.
* `Run.counter_eq_weight`: a shared counter that every move changes by the weight it moves
  equals the weight of the pool in every state reached.
* `Run.of_exec`: a computed run is a run; `Run.exists_of_exec` and `Run.exists_of_exec_step` find
  runs with a property. -/

namespace Interleaving

variable {σ τ κ ε : Type*}

/-- A configuration: the shared state and the threads. -/
structure Config (σ τ : Type*) where
  /-- The state all threads share. -/
  shared : σ
  /-- The threads, in the order in which they were added. -/
  pool : List τ

/-- A step's label: the environment adds a thread, or thread `i` moves with choice `k`. -/
inductive Label (τ κ : Type*) where
  /-- The environment calls into the program: a new thread `t`. -/
  | call (t : τ)
  /-- Thread `i` takes its next atomic step; `k` resolves what the step leaves open. -/
  | step (i : ℕ) (k : κ)

/-- What one atomic step of a thread does. -/
structure Effect (σ τ ε : Type*) where
  /-- The shared state after the step. -/
  shared : σ
  /-- The thread after the step. -/
  next : τ
  /-- The threads the step spawns. -/
  spawned : List τ
  /-- The events the step emits. -/
  events : List ε

/-- A machine: which calls the environment may make, and the atomic steps of each thread. -/
structure Machine (σ τ κ ε : Type*) where
  /-- The events of a call; `none` when the environment cannot make it. -/
  call : Config σ τ → τ → Option (List ε)
  /-- The move of thread `i` (standing at `t`); `none` when it is blocked or has ended. -/
  move : Config σ τ → ℕ → κ → τ → Option (Effect σ τ ε)

namespace Machine

variable (M : Machine σ τ κ ε)

/-- One step of the whole system. -/
def step (c : Config σ τ) : Label τ κ → Option (List ε × Config σ τ)
  | .call t => (M.call c t).map fun ev => (ev, ⟨c.shared, c.pool ++ [t]⟩)
  | .step i k => (c.pool[i]?).bind fun t => (M.move c i k t).map fun e =>
      (e.events, ⟨e.shared, c.pool.set i e.next ++ e.spawned⟩)

variable {M} {c c' : Config σ τ} {ev : List ε}

/-- A call appends its thread and leaves everything else. -/
theorem step_call_iff {t : τ} : M.step c (.call t) = some (ev, c') ↔
    M.call c t = some ev ∧ c' = ⟨c.shared, c.pool ++ [t]⟩ := by
  simp only [step, Option.map_eq_some_iff, Prod.mk.injEq]
  constructor
  · rintro ⟨ev', h, rfl, rfl⟩; exact ⟨h, rfl⟩
  · rintro ⟨h, rfl⟩; exact ⟨ev, h, rfl, rfl⟩

/-- A step of thread `i` is its move, put back into the pool. -/
theorem step_step_iff {i : ℕ} {k : κ} : M.step c (.step i k) = some (ev, c') ↔
    ∃ t e, c.pool[i]? = some t ∧ M.move c i k t = some e ∧ ev = e.events ∧
      c' = ⟨e.shared, c.pool.set i e.next ++ e.spawned⟩ := by
  simp only [step, Option.bind_eq_some_iff, Option.map_eq_some_iff, Prod.mk.injEq]
  constructor
  · rintro ⟨t, ht, e, he, rfl, rfl⟩; exact ⟨t, e, ht, he, rfl, rfl⟩
  · rintro ⟨t, e, ht, he, rfl, rfl⟩; exact ⟨t, ht, e, he, rfl, rfl⟩

variable (M)

/-- The configurations a run reaches from `c₀` by steps that meet `allowed`, with the trace of
the events emitted on the way. -/
inductive Run (allowed : Config σ τ → Label τ κ → Prop) (c₀ : Config σ τ) :
    List ε → Config σ τ → Prop
  /-- The empty run. -/
  | refl : Run allowed c₀ [] c₀
  /-- One more step at the end. -/
  | snoc {tr ev : List ε} {c c' : Config σ τ} {l : Label τ κ} (run : Run allowed c₀ tr c)
      (ok : allowed c l) (step : M.step c l = some (ev, c')) : Run allowed c₀ (tr ++ ev) c'

/-- Run a list of labels, stopping at the first that is not allowed or cannot be taken. -/
def exec (allowed : Config σ τ → Label τ κ → Bool) (c : Config σ τ) :
    List (Label τ κ) → Option (List ε × Config σ τ)
  | [] => some ([], c)
  | l :: ls =>
    if allowed c l then
      (M.step c l).bind fun (ev, c') =>
        (exec allowed c' ls).map fun (tr, c'') => (ev ++ tr, c'')
    else none

namespace Run

variable {M} {allowed allowed' : Config σ τ → Label τ κ → Prop}
  {c₀ c c' : Config σ τ} {tr tr' : List ε}

/-- Runs with a stronger condition on their steps are runs with a weaker one. -/
theorem mono (himp : ∀ c l, allowed c l → allowed' c l) (h : Run M allowed c₀ tr c) :
    Run M allowed' c₀ tr c := by
  induction h with
  | refl => exact .refl
  | snoc _ ok step ih => exact .snoc ih (himp _ _ ok) step

/-- A run that meets conditions is a run without them. -/
theorem weaken (h : Run M allowed c₀ tr c) : Run M (fun _ _ => True) c₀ tr c :=
  h.mono fun _ _ _ => trivial

/-- A condition that is computed as a conjunction. -/
theorem and_of_bool {ok ok' : Config σ τ → Label τ κ → Bool}
    (h : Run M (fun c l => (ok c l && ok' c l) = true) c₀ tr c) :
    Run M (fun c l => ok c l = true ∧ ok' c l = true) c₀ tr c :=
  h.mono fun _ _ => Bool.and_eq_true_iff.mp

/-- Runs compose, and their traces are appended. -/
theorem trans (h : Run M allowed c₀ tr c) (h' : Run M allowed c tr' c') :
    Run M allowed c₀ (tr ++ tr') c' := by
  induction h' with
  | refl => simpa using h
  | snoc _ ok step ih =>
    rw [← List.append_assoc]
    exact .snoc ih ok step

/-- **An invariant may be assumed before each step**: a run whose states all satisfy `I` is a
run of steps taken in states that do. -/
theorem and_invariant {I : Config σ τ → Prop} (hI : ∀ {tr c}, Run M allowed c₀ tr c → I c)
    (h : Run M allowed c₀ tr c) : Run M (fun c l => allowed c l ∧ I c) c₀ tr c := by
  induction h with
  | refl => exact .refl
  | snoc run ok step ih => exact .snoc ih ⟨ok, hI run⟩ step

/-- A single step is a run. -/
theorem single {ev : List ε} {l : Label τ κ} (ok : allowed c l)
    (step : M.step c l = some (ev, c')) : Run M allowed c ev c' := by
  simpa using Run.snoc .refl ok step

/-- **Invariants over all interleavings.** A property of the trace and the configuration that
holds at the start and that each call and each move of a thread keeps, holds of every run. -/
theorem invariant {P : List ε → Config σ τ → Prop} (hinit : P [] c₀)
    (hcall : ∀ tr c t ev, P tr c → allowed c (.call t) → M.call c t = some ev →
      P (tr ++ ev) ⟨c.shared, c.pool ++ [t]⟩)
    (hmove : ∀ tr c i k t e, P tr c → allowed c (.step i k) → c.pool[i]? = some t →
      M.move c i k t = some e → P (tr ++ e.events) ⟨e.shared, c.pool.set i e.next ++ e.spawned⟩)
    (h : Run M allowed c₀ tr c) : P tr c := by
  induction h with
  | refl => exact hinit
  | @snoc tr ev c c' l _ ok step ih =>
    cases l with
    | call t =>
      obtain ⟨hev, rfl⟩ := step_call_iff.mp step
      exact hcall tr c t ev ih ok hev
    | step i k =>
      obtain ⟨t, e, ht, he, rfl, rfl⟩ := step_step_iff.mp step
      exact hmove tr c i k t e ih ok ht he

/-- **A property of all threads** of the pool, in every state reached: the threads the
environment adds have it, and a thread's move hands it on to the moved thread and to the
threads it spawns. -/
theorem forall_mem {P : τ → Prop} (hinit : ∀ t ∈ c₀.pool, P t)
    (hcall : ∀ c t ev, allowed c (.call t) → M.call c t = some ev → P t)
    (hmove : ∀ c i k t e, P t → allowed c (.step i k) → c.pool[i]? = some t →
      M.move c i k t = some e → P e.next ∧ ∀ u ∈ e.spawned, P u)
    (h : Run M allowed c₀ tr c) : ∀ t ∈ c.pool, P t := by
  refine Run.invariant (P := fun _ c => ∀ t ∈ c.pool, P t) hinit ?_ ?_ h
  · intro _ c t ev hpool ok hev
    exact forall_mem_concat hpool (hcall c t ev ok hev)
  · intro _ c i k t e hpool ok ht he
    have hnext := hmove c i k t e (hpool t (List.mem_of_getElem? ht)) ok ht he
    exact forall_mem_set_append hpool hnext.1 hnext.2

/-- **Counters count threads.** A counter `g` of the shared state that starts as the weight of
the pool, and that each move changes by exactly the weight it moves, is the weight of the pool
in every state reached. -/
theorem counter_eq_weight {g : σ → ℕ} {f : τ → ℕ} (hinit : g c₀.shared = weight f c₀.pool)
    (hcall : ∀ c t ev, allowed c (.call t) → M.call c t = some ev → f t = 0)
    (hmove : ∀ c i k t e, g c.shared = weight f c.pool → allowed c (.step i k) →
      c.pool[i]? = some t → M.move c i k t = some e →
      g e.shared + f t = g c.shared + f e.next + weight f e.spawned)
    (h : Run M allowed c₀ tr c) : g c.shared = weight f c.pool := by
  refine Run.invariant (P := fun _ c => g c.shared = weight f c.pool) hinit ?_ ?_ h
  · -- a call adds a thread without weight
    intro _ c t ev hg ok hev
    simp [hg, hcall c t ev ok hev]
  · intro _ c i k t e hg ok ht he
    have hmoved := hmove c i k t e hg ok ht he
    have hpool := weight_set_append f e.next e.spawned ht
    simp only
    omega

/-- **A computed run is a run.** -/
theorem of_exec {ok : Config σ τ → Label τ κ → Bool} {ls : List (Label τ κ)}
    (h : M.exec ok c ls = some (tr, c')) : Run M (fun c l => ok c l = true) c tr c' := by
  -- the labels are taken from the front, the run grows at its end: each label is a run of its own
  induction ls generalizing c tr with
  | nil =>
    obtain ⟨rfl, rfl⟩ : [] = tr ∧ c = c' := by simpa [exec] using h
    exact .refl
  | cons l ls ih =>
    rw [exec] at h
    split at h
    next hok =>
      obtain ⟨⟨ev, c₁⟩, hstep, h⟩ := Option.bind_eq_some_iff.mp h
      obtain ⟨⟨tr', c₂⟩, hrest, h⟩ := Option.map_eq_some_iff.mp h
      obtain ⟨rfl, rfl⟩ := Prod.mk.inj h
      exact (single hok hstep).trans (ih hrest)
    next => cases h

/-- **A run with a property, by computation**: when the labels `ls` can be taken and a test of
the trace and the last configuration succeeds there, a run to such a configuration exists. -/
theorem exists_of_exec (ok : Config σ τ → Label τ κ → Bool) (c : Config σ τ)
    (ls : List (Label τ κ)) {P : List ε → Config σ τ → Bool}
    (h : (M.exec ok c ls).any (fun r => P r.1 r.2) = true) :
    ∃ tr c', Run M (fun c l => ok c l = true) c tr c' ∧ P tr c' = true := by
  obtain ⟨⟨tr, c'⟩, hr, hp⟩ := (Option.any_eq_true _ _).mp h
  exact ⟨tr, c', of_exec hr, hp⟩

/-- The same for a run and a run from its last configuration under another condition. -/
theorem exists_of_exec_exec (ok ok' : Config σ τ → Label τ κ → Bool) (c : Config σ τ)
    (ls ls' : List (Label τ κ)) {P : Config σ τ → Config σ τ → Bool}
    (h : (M.exec ok c ls).any (fun r => (M.exec ok' r.2 ls').any fun r' => P r.2 r'.2) = true) :
    ∃ tr c₁ tr' c₂, Run M (fun c l => ok c l = true) c tr c₁ ∧
      Run M (fun c l => ok' c l = true) c₁ tr' c₂ ∧ P c₁ c₂ = true := by
  obtain ⟨⟨tr, c₁⟩, h₁, h⟩ := (Option.any_eq_true _ _).mp h
  obtain ⟨⟨tr', c₂⟩, h₂, hp⟩ := (Option.any_eq_true _ _).mp h
  exact ⟨tr, c₁, tr', c₂, of_exec h₁, of_exec h₂, hp⟩

/-- The same for a run, a step out of its last configuration, and a run from there under another
condition. -/
theorem exists_of_exec_step (ok ok' : Config σ τ → Label τ κ → Bool) (c : Config σ τ)
    (ls : List (Label τ κ)) (l : Label τ κ) (ls' : List (Label τ κ))
    {P : Config σ τ → List ε → Config σ τ → Bool}
    (h : (M.exec ok c ls).any (fun r => (M.step r.2 l).any fun s =>
      (M.exec ok' s.2 ls').any fun r' => P r.2 r'.1 r'.2) = true) :
    ∃ tr c₁ ev c₂ tr' c₃, Run M (fun c l => ok c l = true) c tr c₁ ∧
      M.step c₁ l = some (ev, c₂) ∧ Run M (fun c l => ok' c l = true) c₂ tr' c₃ ∧
      P c₁ tr' c₃ = true := by
  obtain ⟨⟨tr, c₁⟩, h₁, h⟩ := (Option.any_eq_true _ _).mp h
  obtain ⟨⟨ev, c₂⟩, hs, h⟩ := (Option.any_eq_true _ _).mp h
  obtain ⟨⟨tr', c₃⟩, h₂, hp⟩ := (Option.any_eq_true _ _).mp h
  exact ⟨tr, c₁, ev, c₂, tr', c₃, of_exec h₁, hs, of_exec h₂, hp⟩

end Run

end Machine

/-- **A pattern that is not completed by the last step** is in the trace before it. -/
theorem sublist_of_append_of_not_mem {l tr ev : List ε} {x : ε} (h : l.Sublist (tr ++ ev))
    (hl : l.getLast? = some x) (hx : x ∉ ev) : l.Sublist tr := by
  obtain ⟨l₁, l₂, rfl, h₁, h₂⟩ := List.sublist_append_iff.mp h
  -- the last element of the pattern is in `tr`, so no part of it is in `ev`
  cases l₂ with
  | nil => rwa [List.append_nil]
  | cons y l₂ =>
    rw [List.getLast?_append_cons] at hl
    exact absurd (h₂.subset (List.mem_of_getLast? hl)) hx

end Interleaving
