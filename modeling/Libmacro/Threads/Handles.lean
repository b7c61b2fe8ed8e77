import Libmacro.Threads.InterruptAll
import Libmacro.Threads.Queue

/-! # The handles of the workers

`trySpawnThread` puts the handle of the worker it creates into `_threads`. Only `joinAllThreads`
takes handles out, all of them, and it is reached through `clearThreads` in `copy`, in the
destructor and in the reset thread of `INTERRUPT_ALL`; `onRunComplete` takes none out.
`threads_eq_created`: as long as none of the three is called, the handles are those of all workers
created so far, and `threads_le_iff` says when they are within the global limit. -/

namespace Libmacro

open Interleaving

/-- The worker of macro `m` that the event says was created. -/
def Event.created (m : MacroId) : Event → Option ThreadId
  | spawn m' w => if m' = m then some w else none
  | _ => none

/-- The workers of macro `m` created in the trace, in order. -/
def created (m : MacroId) (tr : List Event) : List ThreadId := tr.filterMap (Event.created m)

/-- No worker has been created at the beginning. -/
@[simp] theorem created_nil (m : MacroId) : created m [] = [] := rfl

/-- The workers created in two parts of a trace are those of each, in order. -/
@[simp] theorem created_append (m : MacroId) (tr ev : List Event) :
    created m (tr ++ ev) = created m tr ++ created m ev := List.filterMap_append

/-- The call does not reach `joinAllThreads`: it is none of `copy`, the destructor and
`setInterruptor(INTERRUPT_ALL)`. -/
def CallPc.keepsHandles : CallPc → Bool
  | checkInterruptor val => Interrupt.ofCode? val ≠ some .interruptAll
  | setInterruptor val _ => val ≠ .interruptAll
  | copy _ _ | destroy _ => false
  | _ => true

/-- The thread does not reach `joinAllThreads` of macro `m`, which alone drops handles. -/
def Thread.keepsHandles (m : MacroId) : Thread → Bool
  | worker _ _ _ => true
  | reset m' _ _ => m' != m
  | call m' pc => m' != m || pc.keepsHandles

/-- No client copies to macro `m`, destroys it, or interrupts all its threads. -/
def keepsHandles (m : MacroId) : Label Thread Bool → Bool
  | .call t => t.keepsHandles m
  | .step _ _ => true

/-- `start` may still create a worker. -/
def StartPc.unspawned : StartPc → ℕ
  | lock | switch | roomTest | reserve | incTest | increment | incLimit _ | retTest | zeroTest
  | spawn => 1
  | _ => 0

/-- Of the calls only `start` creates workers. -/
def CallPc.unspawned : CallPc → ℕ
  | start p => p.unspawned
  | _ => 0

/-- The worker of macro `m` that a thread may still create. -/
abbrev Thread.unspawned (m : MacroId) : Thread → ℕ :=
  onMacro m (fun _ _ => 0) (fun _ => 0) CallPc.unspawned

/-! ## Who empties the handles -/

section Edges

variable {mac : Macro} {mem : Memory} {m : MacroId} {i : ThreadId} {a : Access}
  {pool : List Thread}

/-- `limitMaxThreads` does not drop the handles. -/
theorem LimitPc.Step.ne_clearThreads {p : LimitPc} {q : Option LimitPc} (h : p.Step mac a q) :
    a ≠ .clearThreads := by
  cases h <;> nofun

/-- A wait does not drop the handles either. -/
theorem WaitPc.Step.ne_clearThreads {b : Bool} {p : WaitPc} {q : Option WaitPc}
    (h : p.Step mac b a q) : a ≠ .clearThreads := by
  cases h <;> nofun

/-- `setInterruptor` does not join; its reset thread does. -/
theorem SetPc.Step.ne_clearThreads {val : Interrupt} {p : SetPc val} {q : Option (SetPc val)}
    {ts : List Thread} {ev : List Event} (h : p.Step m mac i a q ts ev) : a ≠ .clearThreads := by
  cases h <;> nofun

/-- No more does `run`: a worker never joins another one. -/
theorem RunPc.Step.ne_clearThreads {p p' : RunPc} {ev : List Event} (h : p.Step mem m i a p' ev) :
    a ≠ .clearThreads := by
  cases h with
  | limit h | limited h => exact h.ne_clearThreads
  | consumeSet h | consumed h => exact h.ne_clearThreads
  | pauseWait h | pauseOver h => exact h.ne_clearThreads
  | notInterrupted _ hp => rcases hp with ⟨-, rfl⟩ | ⟨-, rfl⟩ <;> nofun
  | _ => nofun

/-- No more does `start`, which only adds a handle. -/
theorem StartPc.Step.ne_clearThreads {w : ThreadId} {p : StartPc} {q : Option StartPc}
    {ts : List Thread} {ev : List Event} (h : p.Step mem m i w a q ts ev) : a ≠ .clearThreads := by
  cases h with
  | incLimit h | incLimited h | limit h | limited h => exact h.ne_clearThreads
  | _ => nofun

/-- No call joins but `copy` and the destructor. -/
theorem CallPc.Step.ne_clearThreads {p p' : CallPc} {ts : List Thread} {ev : List Event}
    (h : p.Step mem pool m i a p' ts ev) (hp : p.keepsHandles = true) : a ≠ .clearThreads := by
  cases h with
  | start h | started h => exact h.ne_clearThreads
  | setInterruptor h | setDone h => exact h.ne_clearThreads
  | limit h | limited h => exact h.ne_clearThreads
  | copy | copied | destroy | destroyed => cases hp
  | _ => nofun

/-- A call that does not reach `joinAllThreads` does not get there later. -/
theorem CallPc.Step.keepsHandles {p p' : CallPc} {ts : List Thread} {ev : List Event}
    (h : p.Step mem pool m i a p' ts ev) (hp : p.keepsHandles = true) :
    p'.keepsHandles = true := by
  cases h with
  | inRange h => simpa [CallPc.keepsHandles, h] using hp
  | setInterruptor => exact hp
  | copy | destroy => cases hp
  | _ => rfl

end Edges

namespace Thread.Step

variable {c : Config Memory Thread} {i : ThreadId} {t : Thread} {mv : Move} {m : MacroId}
  {mem : Memory}

/-- A thread that does not reach `joinAllThreads` does not get there later, and creates no thread
that does: only `INTERRUPT_ALL` creates a reset thread. -/
theorem keepsHandles (h : t.Step c i mv) (ht : t.keepsHandles m = true) :
    mv.next.keepsHandles m = true ∧ ∀ u ∈ mv.spawned, u.keepsHandles m = true := by
  constructor
  · cases h with
    | worker => rfl
    | reset => exact ht
    | call h =>
      rw [Thread.keepsHandles, Bool.or_eq_true] at ht ⊢
      exact ht.imp_right h.keepsHandles
  · intro u hu
    rcases h.spawned_cases with hs | ⟨m', rfl, rfl⟩ | ⟨m', val, hv, rfl, rfl⟩
    · rw [hs] at hu
      cases hu
    · obtain rfl := List.mem_singleton.mp hu
      rfl
    · obtain rfl := List.mem_singleton.mp hu
      simpa [Thread.keepsHandles, CallPc.keepsHandles, hv] using ht

/-- A thread that keeps the handles of its macro does not empty them. -/
theorem ne_clearThreads (h : t.Step c i mv) (ht : t.keepsHandles t.macroId = true) :
    mv.access ≠ .clearThreads := by
  cases h with
  | worker h => exact h.ne_clearThreads
  | reset => simp [Thread.keepsHandles] at ht
  | call h =>
    have hp := by simpa [Thread.keepsHandles] using ht
    exact h.ne_clearThreads hp

/-- Only `trySpawnThread` of a macro creates workers of it. -/
theorem created_eq_nil (h : t.Step c i mv) (ht : t ≠ .call m (.start .spawn)) :
    created m mv.events = [] := by
  refine List.filterMap_eq_nil_iff.mpr fun ev hev => ?_
  rcases h.emits with hnone | hemits
  · rw [hnone] at hev
    cases hev
  · cases ev with
    | spawn m' w =>
      rw [Event.created, if_neg]
      rintro rfl
      exact ht (hemits.of_spawn hev).1
    | _ => rfl

/-- **One step keeps the handles of the workers it creates**, and all it finds. -/
theorem threads (h : t.Step c i mv) (ha : mv.access.apply t.macroId c.shared = some mem)
    (ht : t.keepsHandles t.macroId = true) :
    (mem.macros t.macroId).threads =
      (c.shared.macros t.macroId).threads ++ created t.macroId mv.events := by
  have hclear := h.ne_clearThreads ht
  have hthreads := Access.apply_threads ha
  by_cases hspawn : t = .call t.macroId (.start .spawn)
  · generalize t.macroId = m at hspawn hthreads
    subst hspawn
    cases h with
    | call h =>
      cases h with
      | start h =>
        cases h with
        | spawn => simpa [created, Event.created] using hthreads
        | spawnThrows => simpa using hthreads
      | started h => cases h
  · rw [h.created_eq_nil hspawn, List.append_nil]
    rcases h.inner_or_outer with hin | hout
    · generalize mv.access = a at hin hclear hthreads
      cases a with
      | pushThread => cases hin
      -- joining alone empties the list
      | clearThreads => exact absurd rfl hclear
      | _ => exact hthreads
    · cases hout with
      | spawn => exact absurd rfl hspawn
      | _ => exact hthreads

end Thread.Step

/-! ## Who creates workers -/

/-- `start` creates at most one worker. -/
theorem StartPc.Step.unspawned_le {mem : Memory} {m : MacroId} {i w : ThreadId} {a : Access}
    {p : StartPc} {q : Option StartPc} {ts : List Thread} {ev : List Event}
    (h : p.Step mem m i w a q ts ev) :
    (created m ev).length + q.elim 0 unspawned ≤ p.unspawned := by
  cases h with
  | spawn => simp [created, Event.created, unspawned]
  | _ => first | exact Nat.le_refl _ | exact Nat.zero_le _

/-- No other call creates workers, as `hnil` says. -/
theorem CallPc.Step.unspawned_le {mem : Memory} {pool : List Thread} {m : MacroId} {i : ThreadId}
    {a : Access} {p p' : CallPc} {ts : List Thread} {ev : List Event}
    (h : p.Step mem pool m i a p' ts ev) (hnil : (∀ q, p ≠ .start q) → created m ev = []) :
    (created m ev).length + p'.unspawned ≤ p.unspawned := by
  cases h with
  | start h | started h => exact h.unspawned_le
  | _ =>
    rw [hnil nofun]
    exact Nat.zero_le _

/-- A step creates the worker that its call may still create. -/
theorem Thread.Step.unspawned_le {c : Config Memory Thread} {i : ThreadId} {t : Thread} {mv : Move}
    {m : MacroId} (h : t.Step c i mv) :
    (created m mv.events).length + mv.next.unspawned m ≤ t.unspawned m := by
  have hnil := h.created_eq_nil (m := m)
  by_cases hm : t.macroId = m
  · subst hm
    cases h with
    | worker | reset => simpa using hnil nofun
    | call h =>
      simp only [Thread.macroId, onMacro_call]
      refine h.unspawned_le fun hp => hnil ?_
      rintro heq
      exact hp _ (Thread.call.inj heq).2
  · -- a thread of another macro creates none
    have hne : t ≠ .call m (.start .spawn) := by
      rintro rfl
      exact hm rfl
    have hnext : mv.next.unspawned m = 0 := Thread.onMacro_of_ne (h.macroId.trans_ne hm)
    rw [hnil hne, hnext]
    exact Nat.zero_le _

/-! ## Runs -/

section Runs

variable {mem : Memory} {m : MacroId} {c : Config Memory Thread} {tr : List Event}
  {allowed : Config Memory Thread → Label Thread Bool → Prop}

/-- No thread that reaches `joinAllThreads` of the macro is met. -/
theorem keepsHandles_of_run (hallowed : ∀ c l, allowed c l → keepsHandles m l = true)
    (h : program.Run allowed (initial mem) tr c) : ∀ t ∈ c.pool, t.keepsHandles m = true := by
  refine Machine.Run.forall_mem (by simp) (fun c t _ ok _ => hallowed c _ ok) ?_ h
  intro c i k t e ht _ _ he
  obtain ⟨a, hs, -⟩ := step_of_program_move he
  exact hs.keepsHandles ht

/-- A call creates no worker by itself. -/
theorem created_entry {t : Thread} {ev : List Event} (h : t.entry = some ev) :
    created m ev = [] := by
  rcases Thread.entry_cases h with ⟨m', -, rfl⟩ | ⟨m', -, rfl⟩ | ⟨m', pc, -, rfl, -⟩ <;> rfl

/-- **The handles are those of all workers created**, the finished ones included. -/
theorem threads_eq_created (hallowed : ∀ c l, allowed c l → keepsHandles m l = true)
    (h : program.Run allowed (initial mem) tr c) :
    (c.shared.macros m).threads = (mem.macros m).threads ++ created m tr := by
  have hrun := h.and_invariant (I := fun c => ∀ t ∈ c.pool, t.keepsHandles m = true)
    fun h => keepsHandles_of_run hallowed h
  refine Machine.Run.invariant
    (P := fun tr c => (c.shared.macros m).threads = (mem.macros m).threads ++ created m tr)
    (by simp) ?_ ?_ hrun
  · intro tr c t ev hc _ he
    rw [created_append, created_entry he, List.append_nil]
    exact hc
  · rintro tr c i k t e hc ⟨-, hkeeps⟩ ht he
    obtain ⟨a, hs, ha⟩ := step_of_program_move he
    rw [created_append, ← List.append_assoc, ← hc]
    by_cases hm : t.macroId = m
    · subst hm
      exact hs.threads ha (hkeeps t (List.mem_of_getElem? ht))
    · -- a thread of another macro creates no worker of this one
      have hnil : created m e.events = [] := hs.created_eq_nil (by rintro rfl; exact hm rfl)
      rw [hnil, List.append_nil, macros_of_ne he hm]

/-- **A start creates at most one worker**, in every run. -/
theorem created_le_starts (h : program.Run allowed (initial mem) tr c) :
    (created m tr).length ≤ tr.countP (Event.isStart m) := by
  have hle : (created m tr).length + weight (Thread.unspawned m) c.pool ≤
      tr.countP (Event.isStart m) := by
    refine Machine.Run.invariant (P := fun tr c => (created m tr).length +
      weight (Thread.unspawned m) c.pool ≤ tr.countP (Event.isStart m)) (by simp) ?_ ?_ h
    · -- a call: only `start` may create a worker, and it is counted as a start
      intro tr c t ev hle _ he
      have hnew : t.unspawned m ≤ ev.countP (Event.isStart m) := by
        rcases Thread.entry_cases he with ⟨m', rfl, rfl⟩ | ⟨m', rfl, rfl⟩ | ⟨m', pc, rfl, rfl, hpc⟩
        · simp [Thread.onMacro]
        · by_cases hm : m' = m <;>
            simp [Thread.onMacro, hm, CallPc.unspawned, StartPc.unspawned, Event.isStart]
        · have hnone : pc.unspawned = 0 := by cases hpc <;> rfl
          simp [Thread.onMacro, hnone]
      simp only [created_append, created_entry he, List.append_nil, List.countP_append,
        weight_append, weight_cons, weight_nil]
      omega
    · intro tr c i k t e hle _ ht he
      obtain ⟨a, hs, -⟩ := step_of_program_move he
      have hmoved := hs.unspawned_le (m := m)
      have hpool := weight_set_append (Thread.unspawned m) e.next e.spawned ht
      have hspawned : weight (Thread.unspawned m) e.spawned = 0 :=
        hs.weight_spawned (fun _ => rfl) rfl
      simp only [created_append, List.length_append, List.countP_append]
      simp only at hmoved
      omega
  omega

/-- **When the handles are within the limit**: exactly as long as no more workers have been
created, in the whole life of the macro, than may be alive at a time. -/
theorem threads_le_iff (hinit : (mem.macros m).threads = [])
    (h : program.Run (fun _ l => fixedLimit l ∧ keepsHandles m l) (initial mem) tr c) :
    (c.shared.macros m).threads.length ≤ c.shared.threadLimit ↔
      (created m tr).length ≤ mem.threadLimit := by
  have hthreads := threads_eq_created (fun _ _ ok => ok.2) h
  have hlimit := threadLimit_of_run (fun _ _ ok => ok.1) h
  rw [hthreads, hinit, List.nil_append, hlimit]

/-- The handles are within the limit as long as `start` has been called that often at most. -/
theorem threads_le_of_starts (hinit : (mem.macros m).threads = [])
    (hstarts : tr.countP (Event.isStart m) ≤ mem.threadLimit)
    (h : program.Run (fun _ l => fixedLimit l ∧ keepsHandles m l) (initial mem) tr c) :
    (c.shared.macros m).threads.length ≤ c.shared.threadLimit := by
  rw [threads_eq_created (fun _ _ ok => ok.2) h, threadLimit_of_run (fun _ _ ok => ok.1) h, hinit]
  exact (created_le_starts h).trans hstarts

end Runs

/-- A macro that has been started once keeps one handle. -/
theorem threads_le_iff_one : ∃ tr c,
    program.Run (fun _ l => fixedLimit l ∧ keepsHandles 0 l)
      (initial { Memory.ofMacro { interruptor := .continue, signals := [some 0] } with
        threadLimit := 1 }) tr c ∧
      (c.shared.macros 0).threads = [1] ∧
      ((c.shared.macros 0).threads.length ≤ c.shared.threadLimit ↔ (created 0 tr).length ≤ 1) := by
  obtain ⟨tr, c, h, hthreads⟩ := Machine.Run.exists_of_exec
    (fun _ l => fixedLimit l && keepsHandles 0 l)
    (initial { Memory.ofMacro { interruptor := .continue, signals := [some 0] } with
      threadLimit := 1 }) spawnOne
    (M := program) (P := fun _ c => (c.shared.macros 0).threads = [1]) (by decide +kernel)
  have hrun := h.and_of_bool
  exact ⟨tr, c, hrun, by simpa using hthreads, threads_le_iff rfl hrun⟩

/-- **Handles of finished workers stay**: with a limit of 1, worker 1 runs to its end, and a
second `start` creates worker 3; both handles are there. -/
theorem not_threads_le_startTwice : ¬ ∀ mem tr c, (mem.macros 0).interruptor = .continue →
    (mem.macros 0).threadCount = 0 → (mem.macros 0).queued = 0 → (mem.macros 0).threads = [] →
    mem.activeThreadCount = 0 → 1 ≤ (mem.macros 0).threadMax →
    (mem.macros 0).threadMax ≤ mem.threadLimit →
    program.Run (fun _ l => fixedLimit l ∧ onlyCalls 0 (· = .start) false l) (initial mem) tr c →
    (c.shared.macros 0).threads.length ≤ c.shared.threadLimit := by
  intro hall
  obtain ⟨tr, c, h, hcount⟩ := Machine.Run.exists_of_exec
    (fun _ l => fixedLimit l && onlyCalls 0 (· = .start) false l)
    (initial { Memory.ofMacro { interruptor := .continue, signals := [some 0] } with
      threadLimit := 1 })
    (spawnOne ++ List.replicate 26 (.step 1 true) ++
      .call (.call 0 (.start .lock)) :: List.replicate 12 (.step 2 true))
    (M := program) (P := fun _ c => c.pool[1]?.all Thread.ended = true ∧
      (c.shared.macros 0).threads.length = 2 ∧ c.shared.threadLimit = 1) (by decide +kernel)
  have hle := hall _ tr c rfl rfl rfl rfl rfl (by decide) (by decide) h.and_of_bool
  simp only [decide_eq_true_eq] at hcount
  omega

end Libmacro
