import Libmacro.Threads.GlobalSlots

/-! # The thread limit of a macro

`start` admits a worker while `_threadCount < _threadMax`, but the worker raises `_threadCount`
itself, later. `threadCount_le_threadMax`: the count stays within the limit in the runs in which
each spawn also leaves room for the workers that have been spawned and have not counted
themselves yet. -/

namespace Libmacro

open Interleaving

/-- `run` has not reached the increment in `runPreamble`. -/
def RunPc.uncounted : RunPc → ℕ
  | count => 1
  | _ => 0

/-- A worker of macro `m` is not counted yet. -/
abbrev Thread.uncounted (m : MacroId) : Thread → ℕ :=
  onMacro m (fun _ => RunPc.uncounted) (fun _ => 0) (fun _ => 0)

/-- The number of workers of macro `m` still to be counted. -/
def uncountedWorkers (m : MacroId) (c : Config Memory Thread) : ℕ :=
  weight (Thread.uncounted m) c.pool

/-- The calls that change neither `threadMax()` nor the macro as a whole. -/
def keepsThreadMax : CallKind → Bool
  | .setThreadMax | .copy | .destroy => false
  | _ => true

/-- `threadMax()` of macro `m` and the global limit stay, and `run` is not called directly. -/
def FixedThreadMax (m : MacroId) (l : Label Thread Bool) : Prop :=
  fixedLimit l ∧ onlyCalls m keepsThreadMax false l

/-- A step that creates a worker of macro `m` finds room for it besides the counted workers and
those still to be counted. -/
def spawnFits (m : MacroId) (c : Config Memory Thread) : Label Thread Bool → Bool
  | .step i true =>
    match c.pool[i]? with
    | some (.call m' (.start .spawn)) => m' ≠ m ∨
      (c.shared.macros m).threadCount + uncountedWorkers m c < (c.shared.macros m).threadMax
    | _ => true
  | _ => true

/-- A worker of macro `m` before its decrement in `onRunComplete`, counted or not. -/
def Thread.present (m : MacroId) (t : Thread) : ℕ := t.counted m + t.uncounted m

/-- A worker does not come back once it has left. -/
theorem RunPc.Step.present_le {mem : Memory} {m : MacroId} {i : ThreadId} {p p' : RunPc}
    {a : Access} {ev : List Event} (h : p.Step mem m i a p' ev) :
    p'.counted + p'.uncounted ≤ p.counted + p.uncounted := by
  cases h with
  | notInterrupted h hp =>
    next inLoop p => cases inLoop <;> exact Nat.le_refl 1
  | _ => first | exact Nat.le_refl _ | exact Nat.zero_le _

/-- **Only a spawn adds a worker**, and it adds one. -/
theorem Thread.Step.present_le {c : Config Memory Thread} {i : ThreadId} {t : Thread} {mv : Move}
    (h : t.Step c i mv) (m : MacroId) :
    mv.next.present m + weight (present m) mv.spawned ≤ t.present m ∨
      t = .call m (.start .spawn) ∧ mv.spawned ≠ [] ∧
        mv.next.present m + weight (present m) mv.spawned = t.present m + 1 := by
  have hspawned := h.spawned_cases
  cases h with
  | @worker m' o pc pc' a ev h =>
    left
    by_cases hm : m' = m
    · subst hm
      simpa [present] using h.present_le
    · simp [present, onMacro, hm]
  | reset h => exact .inl (by simp [present, onMacro])
  | @call m' pc pc' a ts ev h =>
    rcases hspawned with hs | ⟨m₁, ht, hmv⟩ | ⟨m₁, val, hv, ht, hmv⟩
    · -- nothing is spawned
      obtain rfl : ts = [] := hs
      exact .inl (by simp [present, onMacro])
    · cases ht
      cases hmv
      by_cases hm : m' = m
      · subst hm
        exact .inr ⟨rfl, by simp, by simp [present, RunPc.counted, RunPc.uncounted]⟩
      · exact .inl (by simp [present, onMacro, hm])
    · cases ht
      cases hmv
      exact .inl (by simp [present, onMacro])

section Run

variable {m : MacroId} {mem : Memory} {c : Config Memory Thread} {tr : List Event} {i : ThreadId}
  {k : Bool} {t : Thread} {e : Effect Memory Thread Event}

/-- The workers present are the counted and the uncounted ones. -/
theorem weight_present (m : MacroId) (c : Config Memory Thread) :
    weight (Thread.present m) c.pool = weight (Thread.counted m) c.pool + uncountedWorkers m c :=
  weight_add (Thread.counted m) (Thread.uncounted m) c.pool

/-- The step that creates a worker made the usual choice. -/
theorem choice_of_spawn (h : program.move c i k (.call m (.start .spawn)) = some e)
    (hs : e.spawned ≠ []) : k = true := by
  cases k with
  | true => rfl
  | false =>
    obtain ⟨mem, -, rfl⟩ : ∃ mem, Access.skip.apply m c.shared = some mem ∧
        ⟨mem, .call m (.start .abandon), [], []⟩ = e := Option.map_eq_some_iff.mp h
    exact absurd rfl hs

/-- **Who changes `_threadMax`**: with a limit in range, only `setThreadMax` and `copy` do. -/
theorem threadMax_step (hrange : 1 ≤ (c.shared.macros m).threadMax ∧
      (c.shared.macros m).threadMax ≤ c.shared.threadLimit)
    (honly : t.only m keepsThreadMax false = true)
    (he : program.move c i k t = some e) :
    (e.shared.macros m).threadMax = (c.shared.macros m).threadMax := by
  by_cases hm : t.macroId = m
  · subst hm
    obtain ⟨a, hs, ha⟩ := step_of_program_move he
    have hmax := Access.apply_threadMax ha
    rcases hs.inner_or_outer with hin | hout
    · cases a with
      | clampThreadMax =>
        -- a limit that is in range is not corrected
        rw [hmax]
        have hpos : (c.shared.macros t.macroId).threadMax ≠ 0 := by omega
        have hle : ¬ (c.shared.macros t.macroId).threadMax > c.shared.threadLimit := by omega
        simp only [Macro.clampThreadMax, if_neg hpos, if_neg hle]
      | setThreadMax | assign => cases hin
      | _ => exact hmax
    · generalize e.next = u, e.spawned = ts, e.events = ev at hout
      cases hout with
      | setThreadMax | assign => cases Thread.kind_of_only honly rfl
      | _ => exact hmax
  · rw [macros_of_ne he hm]

/-- **One step** keeps the workers present within the limit, if a spawn leaves room for them. -/
theorem present_step (hcount : (c.shared.macros m).threadCount = weight (Thread.counted m) c.pool)
    (hle : weight (Thread.present m) c.pool ≤ (c.shared.macros m).threadMax)
    (hfits : spawnFits m c (.step i k) = true) (ht : c.pool[i]? = some t)
    (he : program.move c i k t = some e) :
    weight (Thread.present m) (c.pool.set i e.next ++ e.spawned) ≤
      (c.shared.macros m).threadMax := by
  obtain ⟨a, hs, -⟩ := step_of_program_move he
  have hpool := weight_set_append (Thread.present m) e.next e.spawned ht
  rcases hs.present_le m with hless | ⟨rfl, hspawn, hmore⟩
  · simp only at hless
    omega
  · -- the one step that adds a worker leaves room for it, and for those not counted yet
    obtain rfl := choice_of_spawn he hspawn
    have hroom : (c.shared.macros m).threadCount + uncountedWorkers m c <
        (c.shared.macros m).threadMax := by
      simpa [spawnFits, ht] using hfits
    rw [hcount, ← weight_present] at hroom
    simp only at hmore
    omega

/-- **The count stays within the limit** in every state of a run in which each spawn finds room
for the worker besides the counted ones and those still to be counted. -/
theorem threadCount_le_threadMax (hmax : 1 ≤ (mem.macros m).threadMax)
    (hlimit : (mem.macros m).threadMax ≤ mem.threadLimit)
    (hinit : (mem.macros m).threadCount = 0)
    (h : program.Run (fun c l => FixedThreadMax m l ∧ spawnFits m c l) (initial mem) tr c) :
    (c.shared.macros m).threadCount ≤ (c.shared.macros m).threadMax := by
  have hrun := h.and_invariant (I := fun c =>
      (∀ t ∈ c.pool, t.only m keepsThreadMax false = true ∧
        ∀ m, t.only m (· ≠ .setGlobalThreadLimit) true = true) ∧
      (c.shared.macros m).threadCount = weight (Thread.counted m) c.pool) fun h =>
    ⟨fun t ht => ⟨only_of_run (fun _ _ ok => ok.1.2) (by simp) h t ht, fun m => only_of_run
      (fun _ _ ok => onlyCalls_of_fixedLimit ok.1.1 m) (by simp) h t ht⟩,
    threadCount_eq_weight (fun _ _ ok => ok.1.2) rfl rfl hinit h⟩
  have hinv : (1 ≤ (c.shared.macros m).threadMax ∧
      (c.shared.macros m).threadMax ≤ c.shared.threadLimit) ∧
      weight (Thread.present m) c.pool ≤ (c.shared.macros m).threadMax := by
    refine Machine.Run.invariant (P := fun _ c => (1 ≤ (c.shared.macros m).threadMax ∧
      (c.shared.macros m).threadMax ≤ c.shared.threadLimit) ∧
      weight (Thread.present m) c.pool ≤ (c.shared.macros m).threadMax)
      ⟨⟨hmax, hlimit⟩, by simp⟩ ?_ ?_ hrun
    · -- no call brings a worker of the macro: `run` is not called directly
      rintro _ c t ev ⟨hrange, hle⟩ ⟨⟨⟨-, honly⟩, -⟩, -⟩ he
      refine ⟨hrange, ?_⟩
      rw [weight_append, weight_cons, weight_nil]
      rcases Thread.entry_cases he with ⟨m', rfl, -⟩ | ⟨m', rfl, -⟩ | ⟨m', pc, rfl, -⟩
      · by_cases hm : m' = m
        · subst hm
          simp [onlyCalls, Thread.only] at honly
        · simpa [Thread.present, hm, Thread.onMacro] using hle
      · simpa [Thread.present, Thread.onMacro] using hle
      · simpa [Thread.present, Thread.onMacro] using hle
    · -- the limits stay where they are, and the workers within them
      rintro _ c i k t e ⟨hrange, hle⟩ ⟨⟨-, hfits⟩, honly, hcount⟩ ht he
      have ht' := honly t (List.mem_of_getElem? ht)
      have hsame := threadMax_step hrange ht'.1 he
      rw [hsame, threadLimit_step ht'.2 he]
      exact ⟨hrange, present_step hcount hle hfits ht he⟩
  -- the counted workers are among those present
  have hcount := threadCount_eq_weight (fun _ _ ok => ok.1.2) rfl rfl hinit h
  have hpresent := weight_present m c
  omega

end Run

/-- `start` twice on macro 0, the second time in `n` steps, and then the first step of each of the
workers 1 and 3. -/
def startTwice (n : ℕ) : List (Label Thread Bool) :=
  spawnOne ++ .call (.call 0 (.start .lock)) :: List.replicate n (.step 2 true) ++
    [.step 1 true, .step 3 true]

/-- With room for two, a second `start` may spawn before the first worker counts itself. -/
theorem threadCount_le_threadMax_two : ∃ tr c,
    program.Run (fun c l => FixedThreadMax 0 l ∧ spawnFits 0 c l)
      (initial (.ofMacro { interruptor := .continue, threadMax := 2 })) tr c ∧
      (c.shared.macros 0).threadCount = 2 ∧
      (c.shared.macros 0).threadCount ≤ (c.shared.macros 0).threadMax := by
  obtain ⟨tr, c, h, hcount⟩ := Machine.Run.exists_of_exec
    (fun c l => fixedLimit l && onlyCalls 0 keepsThreadMax false l && spawnFits 0 c l)
    (initial (.ofMacro { interruptor := .continue, threadMax := 2 })) (startTwice 12)
    (M := program) (P := fun _ c => (c.shared.macros 0).threadCount = 2) (by decide +kernel)
  have hrun := h.mono (fun c l ok => show FixedThreadMax 0 l ∧ spawnFits 0 c l by
    simpa [FixedThreadMax] using ok)
  exact ⟨tr, c, hrun, by simpa using hcount,
    threadCount_le_threadMax (by decide) (by decide) rfl hrun⟩

/-- **The count exceeds the limit**: with `_threadMax` 1, the second `start` finds `_threadCount`
still 0, because the worker of the first one has not taken its first step. -/
theorem not_threadCount_le_threadMax_one : ¬ ∀ mem tr c, 1 ≤ (mem.macros 0).threadMax →
    (mem.macros 0).threadMax ≤ mem.threadLimit → (mem.macros 0).threadCount = 0 →
    program.Run (fun _ l => FixedThreadMax 0 l) (initial mem) tr c →
    (c.shared.macros 0).threadCount ≤ (c.shared.macros 0).threadMax := by
  intro hall
  obtain ⟨tr, c, h, hcount⟩ := Machine.Run.exists_of_exec
    (fun _ l => fixedLimit l && onlyCalls 0 keepsThreadMax false l)
    (initial (.ofMacro { interruptor := .continue, threadMax := 1 })) (startTwice 9)
    (M := program) (P := fun _ c => (c.shared.macros 0).threadCount = 2 ∧
      (c.shared.macros 0).threadMax = 1) (by decide +kernel)
  have hle := hall _ tr c (by decide) (by decide) rfl
    (h.mono fun c l ok => by simpa [FixedThreadMax] using ok)
  simp only [decide_eq_true_eq] at hcount
  omega

end Libmacro
