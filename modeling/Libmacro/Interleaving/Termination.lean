import Libmacro.Interleaving.Machine
import Mathlib.Order.WellFounded

/-! # Runs that end

Left to themselves, the threads of a machine come to an end when every step uses something up. A
`Potential` counts on three levels what a thread still has: its *budget* of steps that may change
everything (create a thread, refill a stock), its *stock* in the shared state, and its *rank*, the
number of steps ahead of it as long as budgets and stocks stay. A step may raise the ranks of the
other threads, when it lowers its own by more than it raises all of theirs.

* `Potential.wellFounded`: when each step descends on one of the levels, no sequence of steps goes
  on for ever (`not_forall_advances`).
* `exists_halted`: so every configuration has a run to one in which no step is left. -/

namespace Interleaving

variable {σ τ κ ε : Type*}

namespace Machine

/-- A thread takes a step that meets `allowed`, and no client calls. -/
def Advances (M : Machine σ τ κ ε) (allowed : Config σ τ → ℕ → κ → Prop) (c c' : Config σ τ) :
    Prop :=
  ∃ i k ev, allowed c i k ∧ M.step c (.step i k) = some (ev, c')

/-- The condition on a run that the environment makes no call and the steps meet `allowed`. -/
def Unattended (allowed : Config σ τ → ℕ → κ → Prop) (c : Config σ τ) : Label τ κ → Prop
  | .call _ => False
  | .step i k => allowed c i k

variable {M : Machine σ τ κ ε} {allowed : Config σ τ → ℕ → κ → Prop}

/-- Where no sequence of steps goes on for ever, each configuration has a run that ends. -/
theorem exists_halted (hwf : WellFounded fun c' c => M.Advances allowed c c') (c : Config σ τ) :
    ∃ tr c', M.Run (Unattended allowed) c tr c' ∧ ∀ c'', ¬ M.Advances allowed c' c'' := by
  induction c using hwf.induction with
  | _ c ih =>
    by_cases h : ∃ c', M.Advances allowed c c'
    · obtain ⟨c', i, k, ev, hok, hstep⟩ := h
      obtain ⟨tr, c'', hrun, hend⟩ := ih c' ⟨i, k, ev, hok, hstep⟩
      exact ⟨ev ++ tr, c'', (Run.single (l := .step i k) hok hstep).trans hrun, hend⟩
    · exact ⟨[], c, .refl, fun c'' h' => h ⟨c'', h'⟩⟩

/-- No sequence of steps goes on for ever. -/
theorem not_forall_advances (hwf : WellFounded fun c' c => M.Advances allowed c c')
    (f : ℕ → Config σ τ) : ¬ ∀ n, M.Advances allowed (f n) (f (n + 1)) := by
  intro h
  obtain ⟨_, ⟨n, rfl⟩, hmin⟩ := hwf.has_min (Set.range f) ⟨f 0, 0, rfl⟩
  exact hmin (f (n + 1)) ⟨n + 1, rfl⟩ (h n)

end Machine

/-- What a thread still has to go, on three levels, of which the higher ones may fill up the lower
ones. -/
structure Potential (σ τ : Type*) where
  /-- Steps ahead that may change everything else. -/
  budget : τ → ℕ
  /-- What is left for the thread to use up in the shared state. -/
  stock : σ → τ → ℕ
  /-- Steps ahead in a pool of a given size. -/
  rank : ℕ → σ → τ → ℕ

namespace Potential

/-- The move creates no thread, and raises neither a budget nor a stock. -/
structure Spends (P : Potential σ τ) (c : Config σ τ) (t : τ) (e : Effect σ τ ε) : Prop where
  spawned : e.spawned = []
  budget : P.budget e.next ≤ P.budget t
  stock : ∀ u ∈ c.pool, P.stock e.shared u ≤ P.stock c.shared u
  stock_next : P.stock e.shared e.next ≤ P.stock e.shared t

/-- **The move of thread `t` descends**: it uses up budget, or stock, or its rank. -/
inductive Descends (P : Potential σ τ) (c : Config σ τ) (t : τ) (e : Effect σ τ ε) : Prop
  | budget (h : P.budget e.next + weight P.budget e.spawned < P.budget t)
  | stock (h : P.Spends c t e) (hdrop : P.stock e.shared t < P.stock c.shared t)
  | rank (h : P.Spends c t e) (d : ℕ)
      (hrank : (∀ u ∈ c.pool, P.stock e.shared u = P.stock c.shared u) →
        (∀ u ∈ c.pool, P.rank c.pool.length e.shared u ≤ P.rank c.pool.length c.shared u + d) ∧
          P.rank c.pool.length e.shared e.next + d * c.pool.length <
            P.rank c.pool.length c.shared t)

/-- The three levels of a configuration. -/
def level (P : Potential σ τ) (c : Config σ τ) : ℕ × ℕ × ℕ :=
  (weight P.budget c.pool, weight (P.stock c.shared) c.pool,
    weight (P.rank c.pool.length c.shared) c.pool)

/-- A higher level counts more than all lower ones. -/
abbrev Lower : ℕ × ℕ × ℕ → ℕ × ℕ × ℕ → Prop := Prod.Lex (· < ·) (Prod.Lex (· < ·) (· < ·))

/-- There is no endless descent through the levels, since each of them is a number. -/
theorem wellFounded_lower : WellFounded Lower :=
  WellFounded.prod_lex wellFounded_lt (WellFounded.prod_lex wellFounded_lt wellFounded_lt)

/-- A triple is lower when its first number is, or when this is the same and the second is, or when
both are and the third is. -/
theorem lower_iff {a a' b b' c c' : ℕ} : Lower (a', b', c') (a, b, c) ↔
    a' < a ∨ a' = a ∧ (b' < b ∨ b' = b ∧ c' < c) := by
  rw [Lower, Prod.lex_def, Prod.lex_def]

section Move

variable {P : Potential σ τ} {c : Config σ τ} {t : τ} {e : Effect σ τ ε} {i : ℕ}

/-- A move that spends leaves the budgets and the stocks where they are, or lowers them. -/
theorem Spends.weight_le (h : P.Spends c t e) (ht : c.pool[i]? = some t) :
    weight P.budget (c.pool.set i e.next) ≤ weight P.budget c.pool ∧
      weight (P.stock e.shared) (c.pool.set i e.next) ≤ weight (P.stock e.shared) c.pool := by
  have hbudget := weight_set P.budget e.next ht
  have hstock := weight_set (P.stock e.shared) e.next ht
  have hle := h.budget
  have hle' := h.stock_next
  constructor <;> omega

/-- **A move that descends lowers the level.** -/
theorem Descends.lower (h : P.Descends c t e) (ht : c.pool[i]? = some t) :
    Lower (P.level ⟨e.shared, c.pool.set i e.next ++ e.spawned⟩) (P.level c) := by
  rw [level, level, lower_iff]
  cases h with
  | budget h =>
    have hbudget := weight_set_append P.budget e.next e.spawned ht
    left
    dsimp only
    omega
  | stock h hdrop =>
    obtain ⟨hbudget, hstock⟩ := h.weight_le ht
    have hless := weight_lt_weight h.stock (List.mem_of_getElem? ht) hdrop
    rw [h.spawned, List.append_nil]
    dsimp only
    omega
  | rank h d hrank =>
    obtain ⟨hbudget, hstock⟩ := h.weight_le ht
    have hpool := weight_le_weight h.stock
    rw [h.spawned, List.append_nil]
    dsimp only
    by_cases hsame : ∀ u ∈ c.pool, P.stock e.shared u = P.stock c.shared u
    · -- the other threads gain at most `d` each, less than thread `i` has lost
      obtain ⟨hothers, hnext⟩ := hrank hsame
      have hless := weight_set_le hothers e.next ht
      rw [List.length_set]
      omega
    · -- a stock has been used on the way
      push Not at hsame
      obtain ⟨u, hu, hne⟩ := hsame
      have hless := weight_lt_weight h.stock hu (lt_of_le_of_ne (h.stock u hu) hne)
      omega

end Move

/-- **Where every step descends, no sequence of steps goes on for ever.** -/
theorem wellFounded {M : Machine σ τ κ ε} {allowed : Config σ τ → ℕ → κ → Prop}
    (P : Potential σ τ)
    (h : ∀ c i k t e, allowed c i k → c.pool[i]? = some t → M.move c i k t = some e →
      P.Descends c t e) :
    WellFounded fun c' c => M.Advances allowed c c' := by
  refine Subrelation.wf ?_ (InvImage.wf P.level wellFounded_lower)
  rintro c' c ⟨i, k, ev, hok, hstep⟩
  obtain ⟨t, e, ht, he, rfl, rfl⟩ := Machine.step_step_iff.mp hstep
  exact (h c i k t e hok ht he).lower ht

end Potential

end Interleaving
