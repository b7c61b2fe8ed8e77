import Libmacro.Threads.Program

/-! # Mutual exclusion

A macro's mutex is locked in exactly the states in which one of its threads stands between its
`lock` and its `unlock` (`Thread.holds`), and then in just one of them. -/

namespace Libmacro

open Interleaving

/-- The access moves a thread in or out of the mutex, from `h` to `h'`. -/
def Access.Locks (h h' : ℕ) : Access → Prop
  | lock => h = 0 ∧ h' = 1
  | unlock => h = 1 ∧ h' = 0
  | _ => h' = h

/-- A wait holds the mutex from the lock to the sleep, while it tests its predicate. -/
def WaitPc.holds : WaitPc → ℕ
  | test | sleep => 1
  | lock | asleep _ => 0

/-- `run` holds the mutex across steps in `pauseLoop` only; its other guarded blocks are one step
each. -/
def RunPc.holds : RunPc → ℕ
  | pause (.loop p) => p.holds
  | _ => 0

/-- `start` holds the mutex up to its end, or up to a failed spawn. -/
def StartPc.holds : StartPc → ℕ
  | lock | limit _ => 0
  | _ => 1

/-- `clearThreadsSticky` holds the mutex in `waitThreadsChanged` only. -/
def StickyPc.holds : StickyPc → ℕ
  | wait p => p.holds
  | _ => 0

/-- `clearThreads` holds the mutex in `waitThreadsChanged` only. -/
def ClearPc.holds {stickyInterrupt : Bool} : ClearPc stickyInterrupt → ℕ
  | wait _ p => p.holds
  | sticky _ p => p.holds
  | _ => 0

/-- `disableEverything` holds the mutex in `clearThreads` only. -/
def DisablePc.holds : DisablePc → ℕ
  | clear p => p.holds
  | _ => 0

/-- A reset thread holds the mutex in `clearThreads` only. -/
def ResetPc.holds : ResetPc → ℕ
  | clear _ p => p.holds
  | _ => 0

/-- `copy` keeps the mutex from one step to the next in `disableEverything` only. -/
def CopyPc.holds : CopyPc → ℕ
  | disable p => p.holds
  | _ => 0

/-- The calls that keep the mutex from one step to the next. -/
def CallPc.holds : CallPc → ℕ
  | start p => p.holds
  | copy _ p => p.holds
  | destroy p => p.holds
  | _ => 0

/-- A thread of macro `m` holds the mutex of the macro, between the steps that lock and unlock it.
-/
abbrev Thread.holds (m : MacroId) : Thread → ℕ :=
  onMacro m (fun _ => RunPc.holds) ResetPc.holds CallPc.holds

section Edges

variable {mac : Macro} {mem : Memory} {m : MacroId} {i : ThreadId} {a : Access}
  {pool : List Thread}

/-- `limitMaxThreads` runs with the mutex or without it. -/
theorem LimitPc.Step.locks {p : LimitPc} {q : Option LimitPc} (h : p.Step mac a q) (n : ℕ) :
    a.Locks n n := by
  cases h <;> rfl

/-- `dequeue` runs with the mutex or without it. -/
theorem DequeuePc.Step.locks {val : Interrupt} {p : DequeuePc} {q : Option DequeuePc}
    (h : p.Step val a q) (n : ℕ) : a.Locks n n := by
  cases h <;> rfl

/-- A wait locks for its test, and unlocks to sleep or to return. -/
theorem WaitPc.Step.locks {b : Bool} {p : WaitPc} {q : Option WaitPc} (h : p.Step mac b a q) :
    a.Locks p.holds (q.elim 0 WaitPc.holds) := by
  cases h <;> first | rfl | exact ⟨rfl, rfl⟩

/-- `setInterruptor` locks for its guarded blocks only, each of which is one step. -/
theorem SetPc.Step.locks {val : Interrupt} {p : SetPc val} {q : Option (SetPc val)}
    {ts : List Thread} {ev : List Event} (h : p.Step m mac i a q ts ev) (n : ℕ) :
    a.Locks n n := by
  cases h <;> rfl

/-- `run` locks in `pauseLoop`; its guarded blocks are single steps. -/
theorem RunPc.Step.locks {p p' : RunPc} {ev : List Event} (h : p.Step mem m i a p' ev) :
    a.Locks p.holds p'.holds := by
  cases h with
  | limit h | limited h => exact h.locks 0
  | consumeSet h | consumed h => exact h.locks 0
  | pauseWait h | pauseOver h => exact h.locks
  | notInterrupted h hp =>
    next inLoop p =>
    rcases hp with ⟨rfl, rfl⟩ | ⟨rfl, rfl⟩ <;> cases inLoop <;> rfl
  | _ => rfl

/-- `start` locks at its beginning and unlocks at one of its two ends. -/
theorem StartPc.Step.locks {w : ThreadId} {p : StartPc} {q : Option StartPc} {ts : List Thread}
    {ev : List Event} (h : p.Step mem m i w a q ts ev) : a.Locks p.holds (q.elim 0 holds) := by
  cases h with
  | incLimit h | incLimited h => exact h.locks 1
  | limit h | limited h => exact h.locks 0
  | lock | fail | leave => exact ⟨rfl, rfl⟩
  | _ => rfl

/-- `clearThreadsSticky` takes and releases the mutex in its wait. -/
theorem StickyPc.Step.locks {clearType : Interrupt} {p : StickyPc} {q : Option StickyPc}
    (h : p.Step mac clearType a q) : a.Locks p.holds (q.elim 0 holds) := by
  cases h with
  | dequeue h | dequeued h => exact h.locks 0
  | wait h | waited h => exact h.locks
  | running _ hp => rcases hp with rfl | rfl <;> rfl
  | notRunning _ hp => rcases hp with rfl | ⟨rfl, rfl⟩ <;> rfl
  | _ => rfl

/-- `clearThreads` takes and releases it in its waits. -/
theorem ClearPc.Step.locks {clearType : Interrupt} {stickyInterrupt : Bool}
    {p : ClearPc stickyInterrupt} {q : Option (ClearPc stickyInterrupt)}
    (h : p.Step pool mac i clearType a q) : a.Locks p.holds (q.elim 0 holds) := by
  cases h with
  | dequeue h | dequeued h | dequeuedSticky h => exact h.locks 0
  | wait h | waited h => exact h.locks
  | sticky h | cleared h => exact h.locks
  | _ => rfl

/-- `disableEverything` takes and releases it in `clearThreads`. -/
theorem DisablePc.Step.locks {p : DisablePc} {q : Option DisablePc} (h : p.Step pool mac i a q) :
    a.Locks p.holds (q.elim 0 holds) := by
  cases h with
  | dequeue h | dequeued h => exact h.locks 0
  | clear h | cleared h => exact h.locks
  | remove => rfl

/-- `resetThread` takes and releases it in `clearThreads`. -/
theorem ResetPc.Step.locks {origin : ThreadId} {p p' : ResetPc} {ev : List Event}
    (h : p.Step pool mac m i origin a p' ev) : a.Locks p.holds p'.holds := by
  cases h with
  | dequeue h | dequeued h => exact h.locks 0
  | clear h | cleared h => exact h.locks
  | set h | setDone h => exact h.locks 0
  | _ => rfl

/-- `copy` takes and releases it in `disableEverything`. -/
theorem CopyPc.Step.locks {other : MacroId} {p : CopyPc} {q : Option CopyPc}
    (h : p.Step pool mac m other i a q) : a.Locks p.holds (q.elim 0 holds) := by
  cases h with
  | disable h | disabled h => exact h.locks
  | limit h | limited h => exact h.locks 0
  | _ => rfl

/-- The client calls take and release it in `start` and in their waits. -/
theorem CallPc.Step.locks {p p' : CallPc} {ts : List Thread} {ev : List Event}
    (h : p.Step mem pool m i a p' ts ev) : a.Locks p.holds p'.holds := by
  cases h with
  | start h | started h => exact h.locks
  | setInterruptor h | setDone h => exact h.locks 0
  | limit h | limited h => exact h.locks 0
  | copy h | copied h => exact h.locks
  | destroy h | destroyed h => exact h.locks
  | _ => rfl

/-- **Every edge locks, unlocks or stays**: what the thread holds changes with the mutex. -/
theorem Thread.Step.locks {c : Config Memory Thread} {t : Thread} {mv : Move}
    (h : t.Step c i mv) : mv.access.Locks (t.holds t.macroId) (mv.next.holds t.macroId) := by
  cases h with
  | worker h | reset h | call h => simpa [holds] using h.locks

end Edges

/-- What locks and unlocks: the mutex moves with the thread. -/
theorem Access.Locks.toNat {m : MacroId} {mem mem' : Memory} {a : Access} {h h' : ℕ}
    (hl : a.Locks h h') (ha : a.apply m mem = some mem')
    (hle : h ≤ (mem.macros m).locked.toNat) :
    (mem'.macros m).locked.toNat + h = (mem.macros m).locked.toNat + h' := by
  rw [apply_locked ha]
  cases a with
  | lock =>
    obtain ⟨rfl, rfl⟩ := hl
    simp [unlocked_of_apply ha rfl]
  | unlock =>
    obtain ⟨rfl, rfl⟩ := hl
    cases hb : (mem.macros m).locked <;> simp_all
  | _ =>
    obtain rfl : h' = h := hl
    rfl

/-- The mutex is locked while a thread holds it, so that nobody else can take it. -/
theorem locked_of_holds {c : Config Memory Thread} {m : MacroId} {t : Thread}
    (hlocked : (c.shared.macros m).locked.toNat = weight (Thread.holds m) c.pool)
    (ht : t ∈ c.pool) (hholds : t.holds m = 1) : (c.shared.macros m).locked = true := by
  have hle := le_weight (Thread.holds m) ht
  rw [hholds, ← hlocked] at hle
  cases hl : (c.shared.macros m).locked with
  | true => rfl
  | false =>
    rw [hl] at hle
    exact absurd hle (by decide)

/-- No other thread holds the mutex that a thread holds. -/
theorem holds_eq_zero_of_ne {c : Config Memory Thread} {m : MacroId} {i j : ThreadId} {t u : Thread}
    (hlocked : (c.shared.macros m).locked.toNat = weight (Thread.holds m) c.pool)
    (ht : c.pool[i]? = some t) (hholds : t.holds m = 1) (hu : c.pool[j]? = some u) (hji : j ≠ i) :
    u.holds m = 0 := by
  have hboth := add_le_weight (Thread.holds m) ht hu hji
  have hle := (c.shared.macros m).locked.toNat_le
  omega

/-- **Mutual exclusion**: in every state a run reaches, the number of threads of a macro that
hold its mutex is 1 when it is locked and 0 when it is not. -/
theorem locked_eq_weight {allowed : Config Memory Thread → Label Thread Bool → Prop}
    {mem : Memory} {c : Config Memory Thread} {tr : List Event} (m : MacroId)
    (hinit : (mem.macros m).locked = false) (h : program.Run allowed (initial mem) tr c) :
    (c.shared.macros m).locked.toNat = weight (Thread.holds m) c.pool := by
  refine counter_eq_onMacro (g := fun mac => mac.locked.toNat) (by simp [hinit]) ?_ ?_ h
  · -- a new thread does not hold it
    intro _ t ev _ he
    exact Thread.onMacro_of_entry he rfl rfl fun pc hpc => by cases hpc <;> rfl
  · -- nor does a spawned one
    rintro c i k t e a rfl _ ht hs ha hle
    have hspawned : weight (Thread.holds t.macroId) e.spawned = 0 :=
      hs.weight_spawned (fun _ => rfl) rfl
    rw [hspawned]
    exact hs.locks.toNat ha hle

end Libmacro
