import Libmacro.Threads.GlobalSlots

/-! # Replacing the signal list

`setSignals` refuses while a run is counted, under the mutex. `copy` replaces the list too: it
waits until nothing is running, joins the workers, and then takes the mutex to assign, without
looking at the count again (`Thread.pastTest`). When no run is counted in between, the list is
never replaced under a counted run (`signals_kept`). -/

namespace Libmacro

open Interleaving

/-- `clearThreadsSticky` has found no worker counted in its last test. -/
def StickyPc.pastTest : StickyPc → Bool
  | finalTest _ | reset | notify => true
  | _ => false

/-- `clearThreads(_, true)` has found nothing running. -/
def ClearPc.pastTest : ClearPc true → Bool
  | sticky _ p => p.pastTest
  | joinAll | join _ => true
  | _ => false

/-- `disableEverything` has found no worker counted, in its `clearThreads`. -/
def DisablePc.pastTest : DisablePc → Bool
  | clear p => p.pastTest
  | _ => false

/-- `copy` has found nothing running and not assigned yet; the destructor has and not returned. -/
def CallPc.pastTest : CallPc → Bool
  | copy _ (.disable p) | destroy p => p.pastTest
  | copy _ .assign => true
  | _ => false

/-- **The thread relies on macro `m` not running**: it is a `copy` or the destructor past its last
test of `running()`, and `copy` has not assigned yet. -/
def Thread.pastTest (m : MacroId) : Thread → Bool
  | call m' pc => m' == m && pc.pastTest
  | _ => false

/-- A call is past the test for a running macro when it is one on this macro and stands behind
it. -/
theorem Thread.pastTest_call {m m' : MacroId} {pc : CallPc} :
    (call m' pc).pastTest m = true ↔ m' = m ∧ pc.pastTest = true := by
  rw [pastTest, Bool.and_eq_true, beq_iff_eq]

/-- **No run of the macro is counted** while a thread relies on it not running. -/
def countsBeforeTest (m : MacroId) (c : Config Memory Thread) : Label Thread Bool → Bool
  | .call _ => true
  | .step i _ =>
    match c.pool[i]? with
    | some (.worker m' _ .count) => m' != m || !c.pool.any (Thread.pastTest m)
    | _ => true

section Edges

variable {mac : Macro} {mem : Memory} {m : MacroId} {i : ThreadId} {a : Access}
  {pool : List Thread}

/-- `clearThreadsSticky` gets past its test when nothing is running, and then returns past it. -/
theorem StickyPc.Step.pastTest {clearType : Interrupt} {p : StickyPc} {q : Option StickyPc}
    (h : p.Step mac clearType a q) (hq : q.elim true StickyPc.pastTest = true) :
    p.pastTest = true ∨ mac.threadCount = 0 := by
  cases h with
  | notRunning h =>
    rw [Bool.eq_false_iff, ne_eq, Macro.running_iff, not_not] at h
    exact Or.inr h
  | timedOut | cleared | reset | notify => exact Or.inl rfl
  | _ => cases hq

/-- `clearThreads` comes past its wait only when no worker is counted. -/
theorem ClearPc.Step.pastTest {clearType : Interrupt} {p : ClearPc true} {q : Option (ClearPc true)}
    (h : p.Step pool mac i clearType a q) (hq : q.elim true ClearPc.pastTest = true) :
    p.pastTest = true ∨ mac.threadCount = 0 := by
  cases h with
  | dequeue => cases hq
  | dequeued h hs => cases hs
  | dequeuedSticky => cases hq
  | @wait hs | @waited hs => cases hs
  | sticky h => exact h.pastTest hq
  | cleared h => exact h.pastTest rfl
  | joinAll | join | joined => exact Or.inl rfl

/-- So does `disableEverything`, which waits in it. -/
theorem DisablePc.Step.pastTest {p : DisablePc} {q : Option DisablePc}
    (h : p.Step pool mac i a q) (hq : q.elim true DisablePc.pastTest = true) :
    p.pastTest = true ∨ mac.threadCount = 0 := by
  cases h with
  | dequeue | dequeued | remove => cases hq
  | clear h => exact h.pastTest hq
  | cleared h => exact h.pastTest rfl

/-- **A call comes to rely on the macro not running** when it finds it so. -/
theorem CallPc.Step.pastTest {p p' : CallPc} {ts : List Thread} {ev : List Event}
    (h : p.Step mem pool m i a p' ts ev) (hp' : p'.pastTest = true) :
    p.pastTest = true ∨ (mem.macros m).threadCount = 0 := by
  cases h with
  | copy h =>
    cases h with
    | disable h => exact h.pastTest hp'
    | disabled h => exact h.pastTest rfl
    | _ => cases hp'
  | destroy h => exact h.pastTest hp'
  | _ => cases hp'

/-- The forced reset is past the test. -/
theorem CallPc.pastTest_of_forcesReset {p : CallPc} (h : p.forcesReset = true) :
    p.pastTest = true := by
  have hdisable : ∀ q : DisablePc, q.forcesReset = true → q.pastTest = true := by
    intro q hq
    cases q with
    | dequeue | remove => cases hq
    | clear q =>
      cases q with
      | sticky hs q => cases q <;> first | rfl | cases hq
      | _ => cases hq
  cases p with
  | copy other p =>
    cases p with
    | disable q => exact hdisable q h
    | _ => cases h
  | destroy q => exact hdisable q h
  | _ => cases h

end Edges

/-- A worker that is not counted comes to be counted by its first step only. -/
theorem RunPc.Step.counted_eq_zero {mem : Memory} {m : MacroId} {i : ThreadId} {a : Access}
    {p p' : RunPc} {ev : List Event} (h : p.Step mem m i a p' ev) (hp : p.counted = 0)
    (hcount : p ≠ .count) : p'.counted = 0 := by
  cases h with
  | count => exact absurd rfl hcount
  | release | notifyDone => rfl
  | _ => cases hp

/-- **The invariant**: the count is the number of counted workers, and it is 0 while a thread
relies on the macro not running. -/
structure TestHolds (m : MacroId) (c : Config Memory Thread) : Prop where
  /-- The number. -/
  count : (c.shared.macros m).threadCount = weight (Thread.counted m) c.pool
  /-- The threads past their test. -/
  past : ∀ t ∈ c.pool, t.pastTest m = true → (c.shared.macros m).threadCount = 0

section Run

variable {m : MacroId} {mem : Memory} {c c' : Config Memory Thread} {tr ev : List Event}
  {i : ThreadId} {k : Bool} {t : Thread} {e : Effect Memory Thread Event} {l : Label Thread Bool}
  {a : Access}

/-- Past the test no step counts a worker. -/
theorem counted_next_eq_zero (hok : countsBeforeTest m c (.step i k) = true)
    (ht : c.pool[i]? = some t) {mv : Move} (hs : t.Step c i mv) (hm : t.macroId = m)
    (hpast : ∃ u ∈ c.pool, u.pastTest m = true) (hzero : t.counted m = 0) :
    mv.next.counted m = 0 := by
  cases hs with
  | @worker m' o p p' a ev h =>
    obtain rfl : m' = m := hm
    rw [Thread.counted_worker] at hzero ⊢
    refine h.counted_eq_zero hzero ?_
    rintro rfl
    have hany := List.any_eq_true.mpr hpast
    simp [countsBeforeTest, ht, hany] at hok
  | @reset m' =>
    obtain rfl : m' = m := hm
    exact Thread.counted_reset _ _ _
  | @call m' =>
    obtain rfl : m' = m := hm
    exact Thread.counted_call _ _

/-- A thread of another macro does not rely on the test. -/
theorem Thread.pastTest_of_ne (hm : t.macroId ≠ m) : t.pastTest m = false := by
  cases t with
  | worker | reset => rfl
  | call m' p =>
    rw [Bool.eq_false_iff]
    intro hpast
    exact hm (Thread.pastTest_call.mp hpast).1

/-- A step of another macro's thread keeps the invariant. -/
theorem TestHolds.step_of_ne (h : TestHolds m c) (hm : t.macroId ≠ m) (ht : c.pool[i]? = some t)
    (he : program.move c i k t = some e) :
    TestHolds m ⟨e.shared, c.pool.set i e.next ++ e.spawned⟩ := by
  obtain ⟨hnext, hspawned⟩ := macroId_of_ne he hm
  refine ⟨?_, forall_mem_set_append ?_ ?_ ?_⟩
  · rw [macros_of_ne he hm, weight_onMacro_of_ne ht he hm]
    exact h.count
  · intro u hu hpast
    rw [macros_of_ne he hm]
    exact h.past u hu hpast
  · intro hpast
    rw [Thread.pastTest_of_ne hnext] at hpast
    cases hpast
  · intro u hu hpast
    rw [Thread.pastTest_of_ne (hspawned u hu)] at hpast
    cases hpast

/-- Who may reset the count relies on its being 0. -/
theorem TestHolds.eq_zero_of_forcesReset (h : TestHolds m c) (ht : t ∈ c.pool)
    (hreset : t.forcesReset m = true) : (c.shared.macros m).threadCount = 0 := by
  refine h.past t ht ?_
  cases t with
  | worker | reset => cases hreset
  | call m' p =>
    obtain ⟨hm, hreset⟩ := Thread.forcesReset_call.mp hreset
    exact Thread.pastTest_call.mpr ⟨hm, CallPc.pastTest_of_forcesReset hreset⟩

/-- **One step** keeps the invariant, as long as no worker is counted while it is relied on. -/
theorem TestHolds.step (h : TestHolds m c) (hok : countsBeforeTest m c (.step i k) = true)
    (ht : c.pool[i]? = some t) (he : program.move c i k t = some e) :
    TestHolds m ⟨e.shared, c.pool.set i e.next ++ e.spawned⟩ := by
  by_cases hm : t.macroId = m
  · subst hm
    obtain ⟨a, hs, ha⟩ := step_of_program_move he
    have hmem := List.mem_of_getElem? ht
    have hle : t.counted t.macroId ≤ (c.shared.macros t.macroId).threadCount := by
      rw [h.count]
      exact le_weight _ hmem
    have hmoved := hs.threadCount ha hle (h.eq_zero_of_forcesReset hmem)
    -- the count stays at 0 while some thread relies on it
    have hstays : (∃ u ∈ c.pool, u.pastTest t.macroId = true) →
        (e.shared.macros t.macroId).threadCount = 0 := by
      rintro ⟨u, hu, hpast⟩
      have hzero := h.past u hu hpast
      have hnext := counted_next_eq_zero hok ht hs rfl ⟨u, hu, hpast⟩ (by omega)
      rw [hzero, hnext] at hmoved
      omega
    refine ⟨?_, forall_mem_set_append ?_ ?_ ?_⟩
    · have hspawned : weight (Thread.counted t.macroId) e.spawned = 0 :=
        hs.weight_spawned (fun _ => rfl) rfl
      have hpool := weight_set_append (Thread.counted t.macroId) e.next e.spawned ht
      have hcount := h.count
      dsimp only at hmoved ⊢
      omega
    · exact fun u hu hpast => hstays ⟨u, hu, hpast⟩
    · intro hpast
      generalize e.next = u, e.spawned = ts, e.events = ev at hs hmoved hpast
      cases hs with
      | worker | reset => cases hpast
      | @call m p p' a ts ev hs =>
        rcases hs.pastTest (Thread.pastTest_call.mp hpast).2 with hp | hzero
        · -- it was past its test before, so it is one of the threads of `hstays`
          exact hstays ⟨_, hmem, Thread.pastTest_call.mpr ⟨rfl, hp⟩⟩
        · dsimp only [Thread.macroId] at hmoved ⊢
          rw [Thread.counted_call, Thread.counted_call, hzero] at hmoved
          exact hmoved
    · intro u hu hpast
      rcases hs.of_mem_spawned hu with rfl | rfl <;> cases hpast
  · exact h.step_of_ne hm ht he

/-- Counting before the test only keeps the invariant over a run. -/
theorem testHolds_of_run (hinit : (mem.macros m).threadCount = 0)
    (h : program.Run (fun c l => countsBeforeTest m c l) (initial mem) tr c) : TestHolds m c := by
  refine Machine.Run.invariant (P := fun _ c => TestHolds m c) ?_ ?_ ?_ h
  · exact ⟨by simpa using hinit, fun t ht => absurd ht List.not_mem_nil⟩
  · -- a new call neither is counted nor has tested anything
    intro _ c t ev hc _ he
    have hnew : t.pastTest m = false := by
      rcases Thread.entry_cases he with ⟨m', rfl, -⟩ | ⟨m', rfl, -⟩ | ⟨m', pc, rfl, -, hpc⟩
      · rfl
      · simp [Thread.pastTest, CallPc.pastTest]
      · cases hpc <;> simp [Thread.pastTest, CallPc.pastTest, DisablePc.pastTest]
    refine ⟨?_, forall_mem_concat hc.past fun hpast => ?_⟩
    · rw [weight_append, weight_cons, counted_of_entry he, weight_nil]
      exact hc.count
    · rw [hnew] at hpast
      cases hpast
  · exact fun _ c i k t e hc ok ht he => hc.step ok ht he

/-- **What a step does to the signal list** of macro `m`, the step with label `l` leading from `c`
to `c'` with the events `ev`. -/
structure SignalsKept (m : MacroId) (c : Config Memory Thread) (l : Label Thread Bool)
    (ev : List Event) (c' : Config Memory Thread) : Prop where
  /-- The list stays while a run is counted. -/
  kept : 0 < (c.shared.macros m).threadCount →
    (c'.shared.macros m).signals = (c.shared.macros m).signals
  /-- `setSignals` throws and leaves the list, or finds no run counted. -/
  setSignals : ∀ i k array, l = .step i k →
    c.pool[i]? = some (.call m (.block (.setSignals array))) →
      ((c'.shared.macros m).signals = (c.shared.macros m).signals ∧
        ev = [.threw i (some ⟨.ebusy, "Cannot modify signals while macro is running"⟩)]) ∨
      ((∀ t ∈ c.pool, t.counted m = 0) ∧ (c'.shared.macros m).signals = array ∧ ev = [])
  /-- `copy` assigns while no run is counted. -/
  copy : ∀ i k other, l = .step i k → c.pool[i]? = some (.call m (.copy other .assign)) →
    ∀ t ∈ c.pool, t.counted m = 0

/-- `setSignals` under its guard: the list is replaced when nothing is counted, and otherwise the
call throws. -/
theorem TestHolds.setSignals (h : TestHolds m c) {array : List (Option SignalId)}
    (hs : (Thread.call m (.block (.setSignals array))).Step c i
      ⟨a, e.next, e.spawned, e.events⟩) (ha : a.apply m c.shared = some e.shared) :
    ((e.shared.macros m).signals = (c.shared.macros m).signals ∧
        e.events = [.threw i (some ⟨.ebusy, "Cannot modify signals while macro is running"⟩)]) ∨
      ((∀ t ∈ c.pool, t.counted m = 0) ∧ (e.shared.macros m).signals = array ∧
        e.events = []) := by
  have hsignals := Access.apply_signals ha
  generalize e.next = u, e.spawned = ts, e.events = ev at hs ⊢
  cases hs with
  | call hs =>
    cases hs with
    | block =>
      dsimp only at hsignals
      rw [Block.error]
      by_cases hcount : 0 < (c.shared.macros m).threadCount
      · rw [if_pos hcount] at hsignals
        rw [if_pos hcount]
        exact Or.inl ⟨hsignals, rfl⟩
      · rw [if_neg hcount] at hsignals
        rw [if_neg hcount]
        have hzero := Nat.eq_zero_of_not_pos hcount
        rw [h.count, weight_eq_zero_iff] at hzero
        exact Or.inr ⟨hzero, hsignals, rfl⟩

/-- Before the assignment of `copy` no run is counted. -/
theorem TestHolds.assign (h : TestHolds m c) {other : MacroId}
    (ht : .call m (.copy other .assign) ∈ c.pool) : (c.shared.macros m).threadCount = 0 :=
  h.past _ ht (Thread.pastTest_call.mpr ⟨rfl, rfl⟩)

/-- **The signal list is immutable during execution**, in every run in which no run of the macro
is counted after a `copy` has found nothing running and before it assigns. -/
theorem signals_kept (hinit : (mem.macros m).threadCount = 0)
    (h : program.Run (fun c l => countsBeforeTest m c l) (initial mem) tr c)
    (hstep : program.step c l = some (ev, c')) : SignalsKept m c l ev c' := by
  have hc := testHolds_of_run hinit h
  cases l with
  | call t =>
    obtain ⟨-, rfl⟩ := Machine.step_call_iff.mp hstep
    exact ⟨fun _ => rfl, fun _ _ _ hl => (nomatch hl), fun _ _ _ hl => (nomatch hl)⟩
  | step i k =>
    obtain ⟨t, e, ht, he, rfl, rfl⟩ := Machine.step_step_iff.mp hstep
    obtain ⟨a, hs, ha⟩ := step_of_program_move he
    have hmem := List.mem_of_getElem? ht
    refine ⟨fun hpos => ?_, ?_, ?_⟩
    · by_cases hm : t.macroId = m
      · subst hm
        have hsignals := Access.apply_signals ha
        cases a with
        | block b =>
          cases b with
          | setSignals array => exact hsignals.trans (if_pos hpos)
          | _ => exact hsignals
        | assign other =>
          -- no run is counted where `copy` assigns
          exfalso
          rcases hs.inner_or_outer with hin | hout
          · cases hin
          · generalize e.next = u, e.spawned = ts, e.events = ev at hout
            cases hout with
            | assign => exact hpos.ne' (hc.assign hmem)
        | _ => exact hsignals
      · rw [macros_of_ne he hm]
    · rintro _ _ array hl hi
      obtain ⟨rfl, rfl⟩ := Label.step.inj hl
      obtain rfl := Option.some.inj (ht.symm.trans hi)
      exact hc.setSignals hs ha
    · rintro _ _ other hl hi
      obtain ⟨rfl, rfl⟩ := Label.step.inj hl
      obtain rfl := Option.some.inj (ht.symm.trans hi)
      have hzero := hc.assign hmem
      rwa [hc.count, weight_eq_zero_iff] at hzero

end Run

/-- `setSignals` while worker 1 is counted. -/
theorem signals_kept_busy : ∃ tr c ev c',
    program.Run (fun c l => countsBeforeTest 0 c l)
      (initial (.ofMacro { interruptor := .continue })) tr c ∧
      program.step c (.step 2 true) = some (ev, c') ∧ (c.shared.macros 0).threadCount = 1 ∧
      SignalsKept 0 c (.step 2 true) ev c' := by
  obtain ⟨tr, c, ev, c', -, -, h, hstep, -, hcount⟩ := Machine.Run.exists_of_exec_step
    (countsBeforeTest 0) (fun _ _ => true) (initial (.ofMacro { interruptor := .continue }))
    (spawnOne ++ [.step 1 true, .call (.call 0 (.block (.setSignals [some 9])))])
    (.step 2 true) [] (M := program) (P := fun c _ _ => (c.shared.macros 0).threadCount = 1)
    (by decide)
  exact ⟨tr, c, ev, c', h, hstep, of_decide_eq_true hcount, signals_kept rfl h hstep⟩

/-- **The list changes under a counted run**: a `copy` to macro 0, which has one signal, has found
nothing running and joined; then a client calls `run`, which counts itself, and `copy` assigns. -/
theorem not_signals_kept_copy : ¬ ∀ mem tr c l ev c', (mem.macros 0).threadCount = 0 →
    program.Run (fun _ _ => True) (initial mem) tr c → program.step c l = some (ev, c') →
      SignalsKept 0 c l ev c' := by
  intro hall
  obtain ⟨tr, c, ev, c', tr', c'', h, hstep, hrest, hchanged⟩ := Machine.Run.exists_of_exec_step
    (fun _ _ => true) (fun _ _ => false) (initial (.ofMacro { context := some 0 }))
    (.call (.call 0 (.block (.setSignals [some 9]))) :: .step 0 true ::
      .call (.call 0 (.copy 1 .selfTest)) :: List.replicate 12 (.step 1 true) ++
      [.call (.worker 0 none .count), .step 2 true])
    (.step 1 true) [] (M := program) (P := fun c _ c'' =>
      (c.shared.macros 0).threadCount = 1 ∧ (c.shared.macros 0).signals = [some 9] ∧
        (c''.shared.macros 0).signals = []) (by decide +kernel)
  obtain ⟨hcount, hbefore, hafter⟩ := of_decide_eq_true hchanged
  have hkept := (hall _ tr c _ ev c' rfl h.weaken hstep).kept (by rw [hcount]; decide)
  cases hrest with
  | refl =>
    rw [hbefore, hafter] at hkept
    cases hkept
  | snoc _ ok => cases ok

end Libmacro
