import Libmacro.Interleaving.Termination

/-! # What the threads come to

`M.Attains obs allowed P s c`: from `c`, with `s` observed so far, the threads come to a
configuration of `P` in finitely many steps, **whatever the order** of the steps and the choices
that meet `allowed`. No thread is called on the way. It is a logic of total correctness, with
`Attains.of_only` as its rule for the next step of a thread that is the only one able to move.

* `Attains.exists_run`: there is a run to `P`.
* `Attains.of_halted`: a run that has come to a halt has come to `P`.
* `Session`: a client that calls, and waits until all threads have ended before it calls again. -/

namespace Interleaving

namespace Machine

variable {σ τ κ ε ω : Type*}

variable (M : Machine σ τ κ ε) (obs : ε → Option ω) (allowed : Config σ τ → ℕ → κ → Prop)

/-- No thread can move, whatever choice is made for it. -/
def Halted (c : Config σ τ) : Prop := ∀ i k, allowed c i k → M.step c (.step i k) = none

/-- Every way on leads to `P`. -/
inductive Attains (P : List ω → Config σ τ → Prop) : List ω → Config σ τ → Prop
  /-- It is there. -/
  | done {s : List ω} {c : Config σ τ} (h : P s c) : Attains P s c
  /-- It can go on, and wherever it goes it comes to `P`. -/
  | step {s : List ω} {c : Config σ τ} (live : ¬ M.Halted allowed c)
      (next : ∀ i k ev c', allowed c i k → M.step c (.step i k) = some (ev, c') →
        Attains P (s ++ ev.filterMap obs) c') : Attains P s c

variable {M obs allowed} {P : List ω → Config σ τ → Prop} {s : List ω} {c c' : Config σ τ}
  {tr : List ε}

/-- Where no thread can move, a run does not go on. -/
theorem Run.eq_of_halted (h : M.Run (Unattended allowed) c tr c') (hhalt : M.Halted allowed c) :
    tr = [] ∧ c' = c := by
  induction h with
  | refl => exact ⟨rfl, rfl⟩
  | @snoc tr ev c₁ c₂ l run ok step ih =>
    obtain ⟨-, rfl⟩ := ih
    cases l with
    | call t => cases ok
    | step i k =>
      rw [hhalt i k ok] at step
      cases step

namespace Attains

/-- **The next step, where one thread can move**: no other thread can, and this one has one move. -/
theorem of_only {i : ℕ} {t : τ} {e : Effect σ τ ε} (ht : c.pool[i]? = some t)
    (hothers : ∀ j u k, j ≠ i → allowed c j k → c.pool[j]? = some u → M.move c j k u = none)
    (hlive : ∃ k, allowed c i k) (hmove : ∀ k, allowed c i k → M.move c i k t = some e)
    (h : M.Attains obs allowed P (s ++ e.events.filterMap obs)
      ⟨e.shared, c.pool.set i e.next ++ e.spawned⟩) : M.Attains obs allowed P s c := by
  refine .step ?_ ?_
  · intro hhalt
    obtain ⟨k, hk⟩ := hlive
    have hstep := step_step_iff.mpr ⟨t, e, ht, hmove k hk, rfl, rfl⟩
    rw [hhalt i k hk] at hstep
    cases hstep
  · intro j k ev c' hk hstep
    obtain ⟨u, e', hu, he', rfl, rfl⟩ := step_step_iff.mp hstep
    by_cases hj : j = i
    · subst hj
      obtain rfl := Option.some.inj (hu.symm.trans ht)
      obtain rfl := Option.some.inj (he'.symm.trans (hmove k hk))
      exact h
    · rw [hothers j u k hj hk hu] at he'
      cases he'

/-- Some run comes to `P`: what every way leads to is reached by at least one. -/
theorem exists_run (h : M.Attains obs allowed P s c) :
    ∃ tr c', M.Run (Unattended allowed) c tr c' ∧ P (s ++ tr.filterMap obs) c' := by
  induction h with
  | done h => exact ⟨[], _, .refl, by simpa using h⟩
  | step live _ ih =>
    simp only [Halted, not_forall] at live
    obtain ⟨i, k, hk, hsome⟩ := live
    obtain ⟨⟨ev, c₁⟩, hstep⟩ := Option.ne_none_iff_exists'.mp hsome
    obtain ⟨tr, c', hrun, hp⟩ := ih i k ev c₁ hk hstep
    exact ⟨ev ++ tr, c', (Run.single (l := .step i k) hk hstep).trans hrun, by simpa using hp⟩

/-- **Every run is on its way to `P`, or past it.** -/
theorem of_run (h : M.Attains obs allowed P s c) (hrun : M.Run (Unattended allowed) c tr c') :
    M.Attains obs allowed P (s ++ tr.filterMap obs) c' ∨
      ∃ tr₁ tr₂ c₁, tr = tr₁ ++ tr₂ ∧ P (s ++ tr₁.filterMap obs) c₁ ∧
        M.Run (Unattended allowed) c₁ tr₂ c' := by
  induction hrun with
  | refl => exact .inl (by simpa using h)
  | @snoc tr ev c₁ c₂ l run ok step ih =>
    rcases ih with hon | ⟨tr₁, tr₂, c₀, rfl, hp, hrest⟩
    · cases hon with
      | done hp => exact .inr ⟨tr, ev, c₁, rfl, hp, .single ok step⟩
      | step _ next =>
        cases l with
        | call t => cases ok
        | step i k =>
          left
          simpa using next i k ev c₂ ok step
    · exact .inr ⟨tr₁, tr₂ ++ ev, c₀, List.append_assoc .., hp, hrest.snoc ok step⟩

/-- **A run that has come to a halt has come to `P`**, if `P` is only met at a halt. -/
theorem of_halted (h : M.Attains obs allowed P s c) (hrun : M.Run (Unattended allowed) c tr c')
    (hhalt : ∀ s' c', P s' c' → M.Halted allowed c') (hend : M.Halted allowed c') :
    P (s ++ tr.filterMap obs) c' := by
  rcases h.of_run hrun with hon | ⟨tr₁, tr₂, c₁, rfl, hp, hrest⟩
  · cases hon with
    | done hp => exact hp
    | step live _ => exact absurd hend live
  · obtain ⟨rfl, rfl⟩ := hrest.eq_of_halted (hhalt _ _ hp)
    simpa using hp

/-- **One outcome**: where every way on leads to one halt, the threads can come there, and a run
that has come to a halt has come there. -/
theorem outcome {s₁ : List ω} {c₁ : Config σ τ}
    (h : M.Attains obs allowed (fun s' c' => s' = s₁ ∧ c' = c₁) [] c)
    (hhalt : M.Halted allowed c₁) :
    (∃ tr, M.Run (Unattended allowed) c tr c₁ ∧ tr.filterMap obs = s₁) ∧
      ∀ tr c', M.Run (Unattended allowed) c tr c' → M.Halted allowed c' →
        tr.filterMap obs = s₁ ∧ c' = c₁ := by
  constructor
  · obtain ⟨tr, c', hrun, hs, rfl⟩ := h.exists_run
    exact ⟨tr, hrun, by simpa using hs⟩
  · intro tr c' hrun hend
    have hp := h.of_halted hrun (fun _ c' hp => hp.2 ▸ hhalt) hend
    exact ⟨by simpa using hp.1, hp.2⟩

end Attains

/-! ## Sessions -/

/-- A client that calls the threads of the list one after the other, and waits until all threads
have ended before it calls the next. -/
inductive Session (M : Machine σ τ κ ε) (allowed : Config σ τ → ℕ → κ → Prop) (ended : τ → Bool) :
    Config σ τ → List τ → List ε → Config σ τ → Prop
  /-- Nothing is left to call. -/
  | nil {c : Config σ τ} : Session M allowed ended c [] [] c
  /-- The next call, and its run. -/
  | cons {c c₁ c₂ c₃ : Config σ τ} {t : τ} {ts : List τ} {ev tr tr' : List ε}
      (call : M.step c (.call t) = some (ev, c₁)) (run : M.Run (Unattended allowed) c₁ tr c₂)
      (ends : ∀ u ∈ c₂.pool, ended u = true) (rest : Session M allowed ended c₂ ts tr' c₃) :
      Session M allowed ended c (t :: ts) (ev ++ tr ++ tr') c₃

end Machine

end Interleaving
