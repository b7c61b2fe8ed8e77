import Libmacro.Threads.GlobalSlots

/-! # The running count with `copy` and the destructor

`clearThreadsSticky` may force `_threadCount` to 0: its `threadStatus` has no initial value, so a
worker that counts itself after the first test of `running()` may find the last one true together
with a timeout. The count is the number of counted workers in every state of a run iff each
forced reset of the run finds it at 0 (`countExact_iff_resetsFindZero`). -/

namespace Libmacro

open Interleaving

/-- **The count is exact**: `_threadCount` is the number of workers between the increment and the
decrement; no decrement would wrap, and `running()` says whether a run is counted. -/
structure CountExact (m : MacroId) (c : Config Memory Thread) : Prop where
  /-- The number. -/
  count : (c.shared.macros m).threadCount = weight (Thread.counted m) c.pool
  /-- A worker about to lower it finds it above 0. -/
  uncount : ∀ o, .worker m o .uncount ∈ c.pool → 0 < (c.shared.macros m).threadCount
  /-- `running()`. -/
  running : (c.shared.macros m).running = false ↔ ∀ t ∈ c.pool, t.counted m = 0

/-- The rest of it follows from the number. -/
theorem countExact_of_count {m : MacroId} {c : Config Memory Thread}
    (h : (c.shared.macros m).threadCount = weight (Thread.counted m) c.pool) : CountExact m c where
  count := h
  uncount := by
    intro o ho
    have hone : (Thread.worker m o .uncount).counted m = 1 := Thread.counted_worker m o .uncount
    rw [h, ← Nat.succ_le_iff]
    exact hone.ge.trans (le_weight _ ho)
  running := by
    rw [← weight_eq_zero_iff, ← h, Bool.eq_false_iff, ne_eq, Macro.running_iff, not_not]

section Edges

variable {mac : Macro} {mem : Memory} {m : MacroId} {i : ThreadId} {a : Access}
  {pool : List Thread}

/-- The forced reset has one edge. -/
theorem StickyPc.Step.eq_clearCount {clearType : Interrupt} {q : Option StickyPc}
    (h : StickyPc.Step mac clearType .reset a q) : a = .clearCount := by
  cases h with
  | reset => rfl
  | running _ hp => simp at hp
  | notRunning _ hp => simp at hp

/-- Where `disableEverything` forces the count to zero, its step is that store. -/
theorem DisablePc.Step.eq_clearCount {p : DisablePc} {q : Option DisablePc}
    (h : p.Step pool mac i a q) (hp : p.forcesReset = true) : a = .clearCount := by
  cases p with
  | dequeue | remove => cases hp
  | clear p =>
    cases p with
    | dequeue | wait | joinAll | join => cases hp
    | sticky hs p =>
      cases p with
      | reset =>
        cases h with
        | clear h =>
          cases h with
          | sticky h | cleared h => exact h.eq_clearCount
        | cleared h => cases h
      | _ => cases hp

/-- So it is in `copy` and in the destructor, the calls that go through it. -/
theorem CallPc.Step.eq_clearCount {p p' : CallPc} {ts : List Thread} {ev : List Event}
    (h : p.Step mem pool m i a p' ts ev) (hp : p.forcesReset = true) : a = .clearCount := by
  cases h with
  | copy h =>
    cases h with
    | disable h | disabled h => exact h.eq_clearCount hp
    | _ => cases hp
  | copied h => cases h <;> cases hp
  | destroy h | destroyed h => exact h.eq_clearCount hp
  | _ => cases hp

end Edges

section Run

variable {m : MacroId} {mem : Memory} {c c' : Config Memory Thread} {tr ev : List Event}
  {l : Label Thread Bool}

/-- **No forced reset is taken while a thread is counted.** -/
def SparesCounted (m : MacroId) (c : Config Memory Thread) : Label Thread Bool → Prop
  | .call _ => True
  | .step i _ => (c.pool[i]?).any (Thread.forcesReset m) = true → ∀ t ∈ c.pool, t.counted m = 0

/-- Where the count is exact before and after a forced reset, it was 0 already. -/
theorem resetFindsZero_of_countExact (hc : CountExact m c) (hc' : CountExact m c')
    (hstep : program.step c l = some (ev, c')) : resetFindsZero m c l = true := by
  cases l with
  | call t => rfl
  | step i k =>
    obtain ⟨t, e, ht, he, -, rfl⟩ := Machine.step_step_iff.mp hstep
    rw [resetFindsZero, ht, Option.any_some]
    cases hreset : t.forcesReset m with
    | false => rfl
    | true =>
      rw [Bool.not_true, Bool.false_or, beq_iff_eq]
      obtain ⟨a, hs, ha⟩ := step_of_program_move he
      have hpool := weight_set_append (Thread.counted m) e.next e.spawned ht
      have hafter : (e.shared.macros m).threadCount = _ := hc'.count
      generalize e.next = u, e.spawned = ts, e.events = ev at hs hpool hafter
      cases hs with
      | worker | reset => cases hreset
      | @call m' p p' a ts ev h =>
        obtain ⟨rfl, hresets⟩ := Thread.forcesReset_call.mp hreset
        have hcount := Access.apply_threadCount ha
        rw [h.eq_clearCount hresets] at hcount
        dsimp only [Thread.macroId] at hcount
        -- the calling thread is not counted, so nobody was
        rw [Thread.counted_call, Thread.counted_call, ← hafter, hcount, ← hc.count] at hpool
        omega

/-- **The count is exact in every state of a run iff every forced reset of it finds the count at
0**; then none is taken while a thread is counted. -/
theorem countExact_iff_resetsFindZero (hinit : (mem.macros m).threadCount = 0) :
    program.Run (fun c l => CountExact m c ∧ SparesCounted m c l) (initial mem) tr c ∧
        CountExact m c ↔
      program.Run (fun c l => resetFindsZero m c l) (initial mem) tr c := by
  have hexact : ∀ {tr c}, program.Run (fun c l => resetFindsZero m c l) (initial mem) tr c →
      CountExact m c := fun h =>
    countExact_of_count (threadCount_eq_weight_of_resets (fun _ _ ok => ok) hinit h)
  constructor
  · rintro ⟨h, hc⟩
    induction h with
    | refl => exact .refl
    | snoc _ ok step ih =>
      exact .snoc (ih ok.1) (resetFindsZero_of_countExact ok.1 hc step) step
  · intro h
    refine ⟨(h.and_invariant hexact).mono ?_, hexact h⟩
    rintro c l ⟨hzero, hc⟩
    refine ⟨hc, ?_⟩
    cases l with
    | call t => trivial
    | step i k =>
      intro hreset
      rw [resetFindsZero, hreset, Bool.not_true, Bool.false_or, beq_iff_eq, hc.count] at hzero
      exact weight_eq_zero_iff.mp hzero

end Run

/-- A spawned worker has counted itself. -/
theorem countExact_iff_resetsFindZero_spawn : ∃ tr c,
    (program.Run (fun c l => CountExact 0 c ∧ SparesCounted 0 c l)
      (initial (.ofMacro { interruptor := .continue })) tr c ∧ CountExact 0 c) ∧
      (c.shared.macros 0).threadCount = 1 := by
  obtain ⟨tr, c, h, hone⟩ := Machine.Run.exists_of_exec (resetFindsZero 0)
    (initial (.ofMacro { interruptor := .continue })) (spawnOne ++ [.step 1 true])
    (M := program) (P := fun _ c => (c.shared.macros 0).threadCount = 1) (by decide)
  exact ⟨tr, c, (countExact_iff_resetsFindZero rfl).mpr h, of_decide_eq_true hone⟩

/-- `copy` of macro 1 to macro 0, up to the last test of `clearThreadsSticky`; `threadStatus`
happens to be `timeout`. -/
def copyTimedOut : List (Label Thread Bool) :=
  .call (.call 0 (.copy 1 .selfTest)) :: List.replicate 8 (.step 2 true) ++ [.step 2 false]

/-- **The count wraps**: worker 1 is spawned and counts itself between the first and the last
`running()` of a `copy`, which forces the count to 0; at the worker's decrement it becomes the
largest number. -/
theorem not_countExact_copy : ¬ ∀ mem tr c, (mem.macros 0).threadCount = 0 →
    program.Run (fun _ _ => True) (initial mem) tr c → CountExact 0 c := by
  intro hall
  obtain ⟨tr, c, h, hcount⟩ := Machine.Run.exists_of_exec (fun _ _ => true)
    (initial (.ofMacro { interruptor := .continue, context := some 0 }))
    (spawnOne ++ copyTimedOut ++ .step 1 true :: List.replicate 2 (.step 2 true) ++
      List.replicate 4 (.step 1 true)) (M := program)
    (P := fun _ c => (c.shared.macros 0).threadCount = 2 ^ 32 - 1 ∧
      weight (Thread.counted 0) c.pool = 0) (by decide +kernel)
  have hexact := (hall _ tr c rfl h.weaken).count
  rw [decide_eq_true_eq] at hcount
  omega

end Libmacro
