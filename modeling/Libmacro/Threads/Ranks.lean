import Libmacro.Interleaving.Termination
import Libmacro.Threads.Counters

/-! # Steps ahead of a thread

`Thread.potential` counts what a thread can still do without help: its *budget* are the steps that
count a thread, queue an entry, create a thread or replace the signal list, its *stock* is the
queue of its macro, and its *rank* bounds the other steps ahead.

A `notify_all` sends every sleeper of the pool through its loop once more, four steps each. So the
ranks have a parameter `n`, the steps that one notification can cause, and a step that notifies
takes more than `n` off the rank of its thread (`Access.noise`).

Two kinds of steps are in nobody's rank: a wake-up without a notification (`Thread.dozes`), and the
step by which a sticky run stays on with nothing queued (`Thread.staysOn`). -/

namespace Libmacro

open Interleaving

namespace Access

/-- What the access adds to the ranks where a notification counts `n`. -/
def noise (n : ℕ) : Access → ℕ
  | notify | storeInterruptor _ => n
  | _ => 0

/-- The access gives no thread more to do, a wake-up apart. -/
def calm : Access → Bool
  | countThread | uncountThread | incQueued | pushThread _ | assign _ | block (.setSignals _) =>
    false
  | _ => true

/-- The accesses of the inner functions are calm. -/
theorem calm_of_inner {a : Access} (h : a.inner = true) : a.calm = true := by
  cases a with
  | block b => cases b <;> first | rfl | cases h
  | countThread | uncountThread | incQueued | pushThread | assign => cases h
  | _ => rfl

end Access

/-- The macro asks no more of its threads than before, a notification apart, which adds `d`. -/
structure Macro.Calmer (d : ℕ) (mac mac' : Macro) : Prop where
  signals : mac'.signals = mac.signals
  threads : mac'.threads.length ≤ mac.threads.length
  queued : mac'.queued.toNat ≤ mac.queued.toNat
  running : mac'.running = true → mac.running = true
  notified : mac'.notified = mac.notified ∨ d = 4

/-- A macro that has not changed is as calm as before. -/
theorem Macro.Calmer.refl (d : ℕ) (mac : Macro) : mac.Calmer d mac :=
  ⟨rfl, Nat.le_refl _, Nat.le_refl _, id, .inl rfl⟩

/-- Who notifies: an access without noise leaves the number of notifications. -/
theorem Access.apply_notified_of_noise {m : MacroId} {mem mem' : Memory} {a : Access}
    (h : a.apply m mem = some mem') (ha : a.noise 4 = 0) :
    (mem'.macros m).notified = (mem.macros m).notified := by
  have h := perform_of_apply h
  cases a with
  | notify | storeInterruptor => cases ha
  | block b => exact (Block.apply_notified_threads h).1
  | removeDispatch => exact (Block.apply_notified_threads (b := .removeDispatch) h).1
  | clampThreadMax =>
    obtain rfl := Option.some.inj h
    obtain ⟨n, hclamp⟩ := (mem.macros m).clampThreadMax_frame mem.threadLimit
    rw [Memory.modify_macros_self, hclamp]
  | _ =>
    obtain rfl := Option.some.inj h
    simp [Memory.copyFrom]

/-- **A calm access** makes its macro calmer. -/
theorem Access.calmer {m : MacroId} {mem mem' : Memory} {a : Access}
    (h : a.apply m mem = some mem') (ha : a.calm = true) (m' : MacroId) :
    (mem.macros m').Calmer (a.noise 4) (mem'.macros m') := by
  by_cases hm : m' = m
  · subst hm
    refine ⟨?_, ?_, ?_, ?_, ?_⟩
    · rw [apply_signals h]
      cases a with
      | block b => cases b <;> first | rfl | cases ha
      | assign => cases ha
      | _ => rfl
    · rw [apply_threads h]
      cases a with
      -- a calm access pushes no handle and puts nothing into the queue
      | pushThread => cases ha
      | clearThreads => exact Nat.zero_le _
      | _ => exact Nat.le_refl _
    · rw [apply_queued h]
      cases a with
      | incQueued => cases ha
      | clearQueued | refuseSlot => exact Nat.zero_le _
      | decQueued =>
        dsimp only
        omega
      | storeInterruptor val =>
        dsimp only
        split_ifs
        · exact Nat.zero_le _
        · exact Nat.le_refl _
      | _ => exact Nat.le_refl _
    · rw [Macro.running_iff, Macro.running_iff, apply_threadCount h]
      cases a with
      | countThread | uncountThread => cases ha
      | clearCount => exact fun hne => absurd rfl hne
      | _ => exact id
    · cases a with
      -- a notification is paid for by the noise of the access
      | notify | storeInterruptor => exact .inr rfl
      | _ => exact .inl (apply_notified_of_noise h rfl)
  · rw [apply_macros_of_ne h hm]
    exact .refl _ _

/-! ## Steps nobody counts -/

/-- The wait is asleep, and only a wake-up without a notification would let it go on. -/
def WaitPc.dozes (mac : Macro) : WaitPc → Bool
  | asleep n => n = mac.notified
  | _ => false

/-- A worker sleeps in `pauseLoop`, and nowhere else. -/
def RunPc.dozes (mac : Macro) : RunPc → Bool
  | pause (.loop p) => p.dozes mac
  | _ => false

/-- `clearThreadsSticky` sleeps in `waitThreadsChanged`. -/
def StickyPc.dozes (mac : Macro) : StickyPc → Bool
  | wait p => p.dozes mac
  | _ => false

/-- `clearThreads` waits for the threads to go. -/
def ClearPc.dozes {stickyInterrupt : Bool} (mac : Macro) : ClearPc stickyInterrupt → Bool
  | wait _ p => p.dozes mac
  | sticky _ p => p.dozes mac
  | _ => false

/-- `disableEverything` sleeps in `clearThreads`. -/
def DisablePc.dozes (mac : Macro) : DisablePc → Bool
  | clear p => p.dozes mac
  | _ => false

/-- A reset thread waits in `clearThreads`. -/
def ResetPc.dozes (mac : Macro) : ResetPc → Bool
  | clear _ p => p.dozes mac
  | _ => false

/-- `copy` sleeps in `disableEverything`. -/
def CopyPc.dozes (mac : Macro) : CopyPc → Bool
  | disable p => p.dozes mac
  | _ => false

/-- The calls that sleep are `copy` and the destructor. -/
def CallPc.dozes (mac : Macro) : CallPc → Bool
  | copy _ p => p.dozes mac
  | destroy p => p.dozes mac
  | _ => false

/-- **The thread sleeps**, and nobody has notified since it fell asleep: it can wake up for no
reason only. -/
def Thread.dozes (mem : Memory) : Thread → Bool
  | worker m _ pc => pc.dozes (mem.macros m)
  | reset m _ pc => pc.dozes (mem.macros m)
  | call m pc => pc.dozes (mem.macros m)

/-- **The thread stays on**: a run of a sticky macro with nothing queued begins another round. -/
def Thread.staysOn (mem : Memory) : Thread → Bool
  | worker m _ .stickyTest => (mem.macros m).sticky
  | _ => false

/-! ## Budgets -/

/-- `run` counts itself and uncounts itself, which other threads may have to look at again. -/
def RunPc.budget : RunPc → ℕ
  | count => 2
  | release | notifyDone | finished => 0
  | _ => 1

/-- `start` queues an entry and creates a worker, which bring the macro's other threads new work. -/
def StartPc.budget : StartPc → ℕ
  | lock | switch | roomTest | reserve | incTest | increment => 4
  | incLimit _ | retTest | zeroTest | spawn => 3
  | _ => 0

/-- `copy` replaces the signal list once, in its assignment. -/
def CopyPc.budget : CopyPc → ℕ
  | selfTest | disable _ | assign => 1
  | _ => 0

/-- The calls: `INTERRUPT_ALL` creates a reset thread, and a guarded setter may replace the signal
list. -/
def CallPc.budget : CallPc → ℕ
  | start p => p.budget
  | checkInterruptor _ | checkName _ | block _ => 1
  | setInterruptor val _ => if val = .interruptAll then 1 else 0
  | copy _ p => p.budget
  | _ => 0

/-- The steps ahead that may give other threads more to do. -/
def Thread.budget : Thread → ℕ
  | worker _ _ pc => pc.budget
  | reset _ _ _ => 0
  | call _ pc => pc.budget

/-! ## Ranks -/

/-- How many steps are left in `limitMaxThreads`, at most: it has no loop. -/
def LimitPc.rank : LimitPc → ℕ
  | clamp => 3
  | load => 2
  | store => 1

/-- How many are left in `dequeue`, a notification counting `n` besides. -/
def DequeuePc.rank (n : ℕ) : DequeuePc → ℕ
  | queued => n + 3
  | interruptor => n + 2
  | notify => n + 1

/-- A wait: a sleeper that has been notified goes through its loop once more. -/
def WaitPc.rank (mac : Macro) : WaitPc → ℕ
  | lock => 4
  | test => 3
  | sleep => 2
  | asleep notified => if notified = mac.notified then 1 else 5

/-- How many are left in `setInterruptor`, which notifies where it stores. -/
def SetPc.rank (n : ℕ) {val : Interrupt} : SetPc val → ℕ
  | readPrev => n + 5
  | compare _ => n + 4
  | store _ => n + 3
  | apply _ _ => 2
  | spawnReset _ => 1

/-- `consumeInterrupt`, with at most `no` steps when it returns false and `yes` when it returns
true. -/
def ConsumePc.rank (n no yes : ℕ) : ConsumePc → ℕ
  | test => no + 2
  | retest => no + 1
  | set p => yes + p.rank n

/-- `run`: another round costs an entry of the queue, so the loop is counted once. -/
def RunPc.rank (n : ℕ) (mac : Macro) : RunPc → ℕ
  | count => 3 * n + 20
  | notifyCount => 3 * n + 19
  | consume false p => p.rank n (2 * n + 16) (n + 3)
  | signalsTest => 2 * n + 16
  | pause .test => 2 * n + 15
  | pause (.loop p) => 2 * n + 10 + p.rank mac
  | consume true p => p.rank n (2 * n + 8) (n + 3)
  | loopTest => n + 7
  | idleTest => n + 6
  -- with an entry left in the queue the step ahead takes it
  | decTest => if 0 < mac.queued then n + 5 else 2 * n + 22 + 4 * mac.signals.length
  | decrement => if 0 < mac.queued then n + 4 else 2 * n + 21 + 4 * mac.signals.length
  | stickyTest => n + 4
  | countTest => 2 * n + 18 + 4 * mac.signals.length
  | limit p => 2 * n + 17 + 4 * mac.signals.length + p.rank
  | dispatchSignals => 2 * n + 17 + 4 * mac.signals.length
  | skipTest _ rest => 2 * n + 19 + 4 * rest.length
  | deliver _ rest => 2 * n + 18 + 4 * rest.length
  | delivering rest => 2 * n + 17 + 4 * rest.length
  | breakTest rest => 2 * n + 16 + 4 * rest.length
  | uncount => n + 3
  | release => n + 2
  | notifyDone => n + 1
  | finished => 0

/-- How many are left in `start`; the worker that it creates is paid from the budget. -/
def StartPc.rank (n : ℕ) : StartPc → ℕ
  | lock => n + 17
  | switch => n + 16
  | cancel => n + 3
  | cancelNotify => n + 2
  | roomTest => 15
  | reserve => 14
  | incTest => 13
  | increment => 12
  | incLimit p => 8 + p.rank
  | retTest => 8
  | zeroTest => 7
  | spawn => 6
  | refuse | abandon => 5
  | fail => 4
  | limit p => p.rank
  | leave => 1

/-- `clearThreadsSticky`: it begins again only when somebody has counted himself. -/
def StickyPc.rank (n : ℕ) (mac : Macro) : StickyPc → ℕ
  | runningTest => 2 * n + 13
  | dequeue p => n + 9 + p.rank n
  | wait p => n + 4 + p.rank mac
  | again => if mac.running then 2 * n + 13 else n + 4
  | finalTest _ => n + 3
  | reset => n + 2
  | notify => n + 1

/-- `clearThreads`: a step for each handle to join. -/
def ClearPc.rank (n : ℕ) (mac : Macro) {stickyInterrupt : Bool} : ClearPc stickyInterrupt → ℕ
  | dequeue p => mac.threads.length + 2 * n + 15 + p.rank n
  | wait _ p => mac.threads.length + 2 + p.rank mac
  | sticky _ p => mac.threads.length + 2 + p.rank n mac
  | joinAll => mac.threads.length + 2
  | join rest => rest.length + 1

/-- How many steps are left in `disableEverything`, which waits for the workers and joins each
handle. -/
def DisablePc.rank (n : ℕ) (mac : Macro) : DisablePc → ℕ
  | dequeue p => mac.threads.length + 3 * n + 19 + p.rank n
  | remove => mac.threads.length + 3 * n + 19
  | clear p => p.rank n mac

/-- How many steps are left in `resetThread`, with its `clearThreads` and its `setInterruptor`. -/
def ResetPc.rank (n : ℕ) (mac : Macro) : ResetPc → ℕ
  | readPrev => mac.threads.length + 5 * n + 29
  | dequeue _ p => mac.threads.length + 4 * n + 25 + p.rank n
  | runningTest _ => mac.threads.length + 4 * n + 25
  | clear _ p => n + 6 + p.rank n mac
  | prevTest _ => n + 6
  | set p => p.rank n
  | finished => 0

/-- How many are left in `copy`, after its `disableEverything`. -/
def CopyPc.rank (n : ℕ) (mac : Macro) : CopyPc → ℕ
  | selfTest => mac.threads.length + 4 * n + 28
  | disable p => 5 + p.rank n mac
  | assign => 5
  | limit p => 1 + p.rank
  | apply => 1

/-- How many steps are left in a client call, when nobody gives it more to do. -/
def CallPc.rank (n : ℕ) (mac : Macro) : CallPc → ℕ
  | start p => p.rank n
  | checkInterruptor _ => n + 6
  | setInterruptor _ p => p.rank n
  | checkName _ => 2
  | block _ => 1
  | checkThreadMax _ => 5
  | storeThreadMax _ => 4
  | limit p => p.rank
  | setContext _ | setGlobalThreadLimit _ => 1
  | copy _ p => p.rank n mac
  | destroy p => p.rank n mac
  | returned => 0

/-- The steps ahead of a thread when a notification counts `n`. -/
def Thread.rank (n : ℕ) (mem : Memory) : Thread → ℕ
  | worker m _ pc => pc.rank n (mem.macros m)
  | reset m _ pc => pc.rank n (mem.macros m)
  | call m pc => pc.rank n (mem.macros m)

/-- What a thread still has to go: a notification wakes the whole pool. -/
def Thread.potential : Potential Memory Thread where
  budget := Thread.budget
  stock mem t := (mem.macros t.macroId).queued.toNat
  rank threads := Thread.rank (4 * threads + 4)

/-! ## Ranks in a calmer state -/

section Calmer

variable {d n : ℕ} {mac mac' : Macro}

/-- A notification sends a sleeper through its loop. -/
theorem WaitPc.rank_le (h : mac.Calmer d mac') (p : WaitPc) : p.rank mac' ≤ p.rank mac + d := by
  cases p with
  | asleep notified =>
    rw [rank, rank]
    rcases h.notified with hsame | rfl
    · rw [hsame]
      exact Nat.le_add_right _ _
    · split_ifs <;> omega
  | _ => exact Nat.le_add_right _ _

/-- `run`, as long as its macro has as many entries queued. -/
theorem RunPc.rank_le (h : mac.Calmer d mac') (hq : mac'.queued.toNat = mac.queued.toNat)
    (p : RunPc) : p.rank n mac' ≤ p.rank n mac + d := by
  have hpos : 0 < mac'.queued ↔ 0 < mac.queued := by omega
  cases p with
  | pause p =>
    cases p with
    | test => exact Nat.le_add_right _ _
    | loop p =>
      have := p.rank_le h
      rw [rank, rank]
      omega
  | consume inLoop p => cases inLoop <;> exact Nat.le_add_right _ _
  | decTest | decrement => simp only [rank, hpos, h.signals, Nat.le_add_right]
  | countTest | limit | dispatchSignals => simp only [rank, h.signals, Nat.le_add_right]
  | _ => exact Nat.le_add_right _ _

/-- A calmer macro leaves `clearThreadsSticky` no more to do, but for a notification that adds
`d`. -/
theorem StickyPc.rank_le (h : mac.Calmer d mac') (p : StickyPc) :
    p.rank n mac' ≤ p.rank n mac + d := by
  cases p with
  | wait p =>
    have := p.rank_le h
    rw [rank, rank]
    omega
  | again =>
    rw [rank, rank]
    by_cases hr : mac'.running = true
    · rw [if_pos hr, if_pos (h.running hr)]
      exact Nat.le_add_right _ _
    · rw [if_neg hr]
      split_ifs <;> omega
  | _ => exact Nat.le_add_right _ _

/-- It leaves `clearThreads` no more to do, as it has no more handles to join. -/
theorem ClearPc.rank_le {stickyInterrupt : Bool} (h : mac.Calmer d mac')
    (p : ClearPc stickyInterrupt) : p.rank n mac' ≤ p.rank n mac + d := by
  have hthreads := h.threads
  cases p with
  | wait hs p =>
    have := p.rank_le h
    rw [rank, rank]
    omega
  | sticky hs p =>
    have := p.rank_le (n := n) h
    rw [rank, rank]
    omega
  | join rest => exact Nat.le_add_right _ _
  | _ => simp only [rank]; omega

/-- So it leaves `disableEverything` no more to do. -/
theorem DisablePc.rank_le (h : mac.Calmer d mac') (p : DisablePc) :
    p.rank n mac' ≤ p.rank n mac + d := by
  have hthreads := h.threads
  cases p with
  | clear p => exact p.rank_le h
  | _ => simp only [rank]; omega

/-- Nor does it leave `resetThread` more to do. -/
theorem ResetPc.rank_le (h : mac.Calmer d mac') (p : ResetPc) :
    p.rank n mac' ≤ p.rank n mac + d := by
  have hthreads := h.threads
  cases p with
  | clear prev p =>
    have := p.rank_le (n := n) h
    rw [rank, rank]
    omega
  | prevTest | set | finished => exact Nat.le_add_right _ _
  | _ => simp only [rank]; omega

/-- Nor does it leave `copy` more to do. -/
theorem CopyPc.rank_le (h : mac.Calmer d mac') (p : CopyPc) :
    p.rank n mac' ≤ p.rank n mac + d := by
  have hthreads := h.threads
  cases p with
  | disable p =>
    have := p.rank_le (n := n) h
    rw [rank, rank]
    omega
  | selfTest => simp only [rank]; omega
  | _ => exact Nat.le_add_right _ _

/-- So no client call has more to do in a calmer macro. -/
theorem CallPc.rank_le (h : mac.Calmer d mac') (p : CallPc) :
    p.rank n mac' ≤ p.rank n mac + d := by
  cases p with
  | copy other p => exact p.rank_le h
  | destroy p => exact p.rank_le h
  | _ => exact Nat.le_add_right _ _

/-- **A calmer memory** raises no rank by more than a notification counts. -/
theorem Thread.rank_le {mem mem' : Memory} (t : Thread)
    (h : (mem.macros t.macroId).Calmer d (mem'.macros t.macroId))
    (hq : Thread.potential.stock mem' t = Thread.potential.stock mem t) :
    t.rank n mem' ≤ t.rank n mem + d := by
  cases t with
  | worker m origin pc => exact pc.rank_le h hq
  | reset m origin pc => exact pc.rank_le h
  | call m pc => exact pc.rank_le h

end Calmer

end Libmacro
