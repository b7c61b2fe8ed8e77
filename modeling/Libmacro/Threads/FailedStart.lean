import Libmacro.Receivers
import Libmacro.Threads.Alone
import Libmacro.Threads.ThreadLimit

/-! # A start that fails

`trySpawnThread` fails in three ways: no global slot is free, the queue is refused, or the thread
cannot be created. The first two empty the queue, the third leaves the entry it has put there.
`failedStart_restores_iff` says from which states a failed `start` leaves the queue, the handles
and the global count as they were; `reaches_start` is the step-by-step run of `start` with nothing
else going on. -/

namespace Libmacro

open Interleaving

namespace Macro

/-- What `limitMaxThreads` makes of the queue: emptied when it is above the corrected limit, and
kept otherwise. -/
theorem limitMaxThreads_queued (limit : ℕ) (mac : Macro) :
    (mac.limitMaxThreads limit).queued =
      if toUnsigned mac.queued > (mac.clampThreadMax limit).threadMax then 0 else mac.queued := by
  rw [limitMaxThreads, clampThreadMax_queued]
  split_ifs
  · rfl
  · exact mac.clampThreadMax_queued limit

/-- What `limitMaxThreads` makes of the limit: the correction is all. -/
theorem limitMaxThreads_threadMax (limit : ℕ) (mac : Macro) :
    (mac.limitMaxThreads limit).threadMax = (mac.clampThreadMax limit).threadMax := by
  rw [limitMaxThreads]
  split_ifs <;> rfl

/-- An empty queue stays empty when the limit is corrected. -/
theorem limitMaxThreads_queued_of_zero (limit : ℕ) {mac : Macro} (h : mac.queued = 0) :
    (mac.limitMaxThreads limit).queued = 0 := by
  rw [limitMaxThreads_queued, h]
  split_ifs <;> rfl

/-- The correction of a positive limit is the smaller of it and the global one. -/
theorem clampThreadMax_threadMax (limit : ℕ) (mac : Macro) (h : 0 < mac.threadMax) :
    (mac.clampThreadMax limit).threadMax = min mac.threadMax limit := by
  rw [clampThreadMax, if_neg (by omega)]
  split_ifs with hlimit
  · exact (Nat.min_eq_right (Nat.le_of_lt hlimit)).symm
  · exact (Nat.min_eq_left (Nat.not_lt.mp hlimit)).symm

/-- `limitMaxThreads` leaves the handles of the workers alone. -/
theorem limitMaxThreads_threads (limit : ℕ) (mac : Macro) :
    (mac.limitMaxThreads limit).threads = mac.threads := by
  obtain ⟨n, q, hlimit⟩ := mac.limitMaxThreads_frame limit
  rw [hlimit]

/-- `incQueued` raises a queue that is not full, and corrects the limits after. -/
theorem incQueued_of_lt {limit : ℕ} {mac : Macro} (h : toUnsigned mac.queued < mac.threadMax) :
    mac.incQueued limit = { mac with queued := mac.queued + 1 }.limitMaxThreads limit := if_pos h

/-- `incQueued` leaves a full queue alone, and the limits too. -/
theorem incQueued_of_not_lt {limit : ℕ} {mac : Macro}
    (h : ¬ toUnsigned mac.queued < mac.threadMax) : mac.incQueued limit = mac := if_neg h

/-- `incQueued` leaves the handles of the workers alone. -/
theorem incQueued_threads (limit : ℕ) (mac : Macro) :
    (mac.incQueued limit).threads = mac.threads := by
  by_cases h : toUnsigned mac.queued < mac.threadMax
  · rw [incQueued_of_lt h, limitMaxThreads_threads]
  · rw [incQueued_of_not_lt h]

/-- The queue and the limit after `incQueued` has raised. -/
theorem incQueued_queued (limit : ℕ) {mac : Macro} (h : toUnsigned mac.queued < mac.threadMax) :
    (mac.incQueued limit).queued =
        (if toUnsigned (mac.queued + 1) > min mac.threadMax limit then 0 else mac.queued + 1) ∧
      (mac.incQueued limit).threadMax = min mac.threadMax limit := by
  have hclamp : (clampThreadMax limit { mac with queued := mac.queued + 1 }).threadMax =
      min mac.threadMax limit :=
    clampThreadMax_threadMax limit { mac with queued := mac.queued + 1 } (by simp only; omega)
  rw [incQueued_of_lt h, limitMaxThreads_queued, limitMaxThreads_threadMax, hclamp]
  exact ⟨rfl, rfl⟩

end Macro

/-- The queue, the handles and the global count are the same. -/
structure SamePending (m : MacroId) (mem mem' : Memory) : Prop where
  /-- `_queued`. -/
  queued : (mem'.macros m).queued = (mem.macros m).queued
  /-- `_threads`. -/
  threads : (mem'.macros m).threads = (mem.macros m).threads
  /-- `g_activeThreadCount`. -/
  activeThreadCount : mem'.activeThreadCount = mem.activeThreadCount

/-- A failed start finds nothing to lose and puts nothing into the queue: no slot is free and the
queue is empty, or a slot is free and the queue is full. -/
def NothingAtStake (mem : Memory) (m : MacroId) : Prop :=
  if mem.activeThreadCount ≥ mem.threadLimit then (mem.macros m).queued = 0
  else toUnsigned (mem.macros m).queued = (mem.macros m).threadMax ∧
    (mem.macros m).threadMax ≤ mem.threadLimit

section Fail

variable {mem : Memory} {m : MacroId} {worker : Option ThreadId}

/-- A start that is admitted and whose `trySpawnThread` fails goes on to `limitMaxThreads`. -/
theorem start_of_fails (hv : (mem.macros m).interruptor = .continue ∨
      (mem.macros m).interruptor = .pause)
    (hroom : (mem.macros m).threadCount < (mem.macros m).threadMax)
    (hfails : (mem.trySpawnThread m worker).2 = false) :
    mem.start m worker = (mem.trySpawnThread m worker).1.modify m
      (Macro.limitMaxThreads (mem.trySpawnThread m worker).1.threadLimit) := by
  rw [Memory.start]
  rcases hv with hv | hv
  · rw [hv]
    dsimp only
    rw [if_pos hroom, hfails, if_neg Bool.false_ne_true]
  · rw [hv]
    dsimp only
    rw [if_pos hroom, hfails, if_neg Bool.false_ne_true]

/-- A start that is admitted and creates its worker leaves what `trySpawnThread` leaves. -/
theorem start_of_spawns (hv : (mem.macros m).interruptor = .continue ∨
      (mem.macros m).interruptor = .pause)
    (hroom : (mem.macros m).threadCount < (mem.macros m).threadMax)
    (hspawns : (mem.trySpawnThread m worker).2 = true) :
    mem.start m worker = (mem.trySpawnThread m worker).1 := by
  rw [Memory.start]
  rcases hv with hv | hv
  · rw [hv]
    dsimp only
    rw [if_pos hroom, if_pos hspawns]
  · rw [hv]
    dsimp only
    rw [if_pos hroom, if_pos hspawns]

/-- The macro after `trySpawnThread` has refused the queue. -/
def Macro.refuse (limit : ℕ) (mac : Macro) : Macro := { mac.incQueued limit with queued := 0 }

/-- A start that is refused leaves the handles alone. -/
theorem Macro.refuse_threads (limit : ℕ) (mac : Macro) :
    (mac.refuse limit).threads = mac.threads := Macro.incQueued_threads limit mac

/-- The macro after `trySpawnThread` has created thread `w`. -/
def Macro.spawn (limit : ℕ) (w : ThreadId) (mac : Macro) : Macro :=
  { mac.incQueued limit with threads := (mac.incQueued limit).threads ++ [w] }

/-- The macro with its mutex locked or free. -/
def Macro.withLocked (b : Bool) (mac : Macro) : Macro := { mac with locked := b }

/-- The queue that `incQueued` leaves makes `trySpawnThread` refuse. -/
def Macro.Refused (mac : Macro) : Prop :=
  toUnsigned mac.queued > mac.threadMax ∨ mac.queued = 0

/-- When no slot is free the queue is emptied, and no worker is created. -/
theorem trySpawnThread_of_limit (hlimit : mem.activeThreadCount ≥ mem.threadLimit) :
    mem.trySpawnThread m worker = (mem.modify m fun mac => { mac with queued := 0 }, false) :=
  if_pos hlimit

/-- When the queue refuses the entry, the slot is given back and no worker is created. -/
theorem trySpawnThread_of_refused (hfree : ¬ mem.activeThreadCount ≥ mem.threadLimit)
    (h : ((mem.macros m).incQueued mem.threadLimit).Refused) : mem.trySpawnThread m worker =
      (mem.modify m (Macro.refuse mem.threadLimit), false) := by
  have h' : ((mem.modify m (Macro.incQueued mem.threadLimit)).macros m).Refused := by
    rw [Memory.modify_macros_self]
    exact h
  refine (if_neg hfree).trans ((if_pos h').trans ?_)
  rw [Memory.modify_modify]
  rfl

/-- The queue is accepted: the rest depends on the creation of the thread. -/
theorem trySpawnThread_of_accepted (hfree : ¬ mem.activeThreadCount ≥ mem.threadLimit)
    (h : ¬ ((mem.macros m).incQueued mem.threadLimit).Refused) : mem.trySpawnThread m worker =
      match worker with
      | none => (mem.modify m (Macro.incQueued mem.threadLimit), false)
      | some w => ({ mem with activeThreadCount := mem.activeThreadCount + 1 }.modify m
          (Macro.spawn mem.threadLimit w), true) := by
  have h' : ¬ ((mem.modify m (Macro.incQueued mem.threadLimit)).macros m).Refused := by
    rw [Memory.modify_macros_self]
    exact h
  refine (if_neg hfree).trans ((if_neg h').trans ?_)
  cases worker with
  | none => rfl
  | some w => simp [Memory.modify, Macro.spawn]

/-- **How `trySpawnThread` fails**, with what it leaves: no slot, a refused entry, or no thread. -/
theorem trySpawnThread_fails (hfails : (mem.trySpawnThread m worker).2 = false) :
    (mem.activeThreadCount ≥ mem.threadLimit ∧ (mem.trySpawnThread m worker).1 =
        mem.modify m fun mac => { mac with queued := 0 }) ∨
      ¬ mem.activeThreadCount ≥ mem.threadLimit ∧
        (((mem.macros m).incQueued mem.threadLimit).Refused ∧ (mem.trySpawnThread m worker).1 =
            mem.modify m (Macro.refuse mem.threadLimit) ∨
          ¬ ((mem.macros m).incQueued mem.threadLimit).Refused ∧
            (mem.trySpawnThread m worker).1 = mem.modify m (Macro.incQueued mem.threadLimit)) := by
  by_cases hlimit : mem.activeThreadCount ≥ mem.threadLimit
  · exact .inl ⟨hlimit, by rw [trySpawnThread_of_limit hlimit]⟩
  refine .inr ⟨hlimit, ?_⟩
  by_cases hrefused : ((mem.macros m).incQueued mem.threadLimit).Refused
  · exact .inl ⟨hrefused, by rw [trySpawnThread_of_refused hlimit hrefused]⟩
  · rw [trySpawnThread_of_accepted hlimit hrefused] at hfails ⊢
    cases worker with
    | none => exact .inr ⟨hrefused, rfl⟩
    | some w => cases hfails

/-- What `start` makes of the memory that a failed `trySpawnThread` leaves. -/
theorem samePending_limit_iff {f : Macro → Macro}
    (hf : (f (mem.macros m)).threads = (mem.macros m).threads) :
    SamePending m mem ((mem.modify m f).modify m
        (Macro.limitMaxThreads (mem.modify m f).threadLimit)) ↔
      ((f (mem.macros m)).limitMaxThreads mem.threadLimit).queued = (mem.macros m).queued := by
  rw [Memory.modify_modify]
  constructor
  · intro h
    have hqueued := h.queued
    rwa [Memory.modify_macros_self] at hqueued
  · intro h
    refine ⟨?_, ?_, rfl⟩
    · rw [Memory.modify_macros_self]
      exact h
    · rw [Memory.modify_macros_self, Macro.limitMaxThreads_threads, hf]

/-- An empty queue of an admitted start is not refused. -/
theorem not_refused_of_empty (hpos : 0 < (mem.macros m).threadMax)
    (hfree : mem.activeThreadCount < mem.threadLimit) (hq : (mem.macros m).queued = 0) :
    ¬ ((mem.macros m).incQueued mem.threadLimit).Refused := by
  have hlt : toUnsigned (mem.macros m).queued < (mem.macros m).threadMax := by
    rw [hq]
    exact hpos
  obtain ⟨hqueued, hmax⟩ := Macro.incQueued_queued mem.threadLimit hlt
  have hone : toUnsigned ((mem.macros m).queued + 1) = 1 := by
    rw [hq]
    rfl
  rw [hone, if_neg (by omega), hq] at hqueued
  rintro (habove | hzero)
  · rw [hqueued, hmax] at habove
    have hone' : toUnsigned (0 + 1) = 1 := rfl
    omega
  · omega

/-- **A failed start leaves the pending work as it was** exactly when there is nothing at stake:
no slot is free and the queue is empty, or a slot is free and the queue is full. -/
theorem failedStart_restores_iff (hv : (mem.macros m).interruptor = .continue ∨
      (mem.macros m).interruptor = .pause)
    (hroom : (mem.macros m).threadCount < (mem.macros m).threadMax)
    (hfails : (mem.trySpawnThread m worker).2 = false) :
    SamePending m mem (mem.start m worker) ↔ NothingAtStake mem m := by
  have hpos : 0 < (mem.macros m).threadMax := Nat.zero_lt_of_lt hroom
  rw [start_of_fails hv hroom hfails, NothingAtStake]
  rcases trySpawnThread_fails hfails with ⟨hlimit, heq⟩ | ⟨hfree, hexit⟩
  · -- the limit: the queue is emptied
    rw [heq, samePending_limit_iff rfl, Macro.limitMaxThreads_queued_of_zero _ rfl, if_pos hlimit]
    exact eq_comm
  rw [if_neg hfree]
  rcases hexit with ⟨hrefused, heq⟩ | ⟨haccepted, heq⟩
  · -- a refusal: the queue is emptied, and was not empty
    rw [heq, samePending_limit_iff (Macro.refuse_threads _ _),
      Macro.limitMaxThreads_queued_of_zero _ rfl]
    refine iff_of_false (fun hq => not_refused_of_empty hpos (Nat.not_le.mp hfree) hq.symm hrefused)
      ?_
    rintro ⟨hfull, -⟩
    rw [Macro.incQueued_of_not_lt (by omega)] at hrefused
    rcases hrefused with habove | hzero
    · omega
    · rw [hzero] at hfull
      exact absurd hfull (Nat.ne_of_lt hpos)
  · -- an exception: the entry stays, unless the queue was full
    rw [heq, samePending_limit_iff (Macro.incQueued_threads _ _), Macro.limitMaxThreads_queued]
    obtain ⟨hfits, hnonzero⟩ := not_or.mp haccepted
    by_cases hlt : toUnsigned (mem.macros m).queued < (mem.macros m).threadMax
    · -- the entry that was accepted also passes the last `limitMaxThreads`
      obtain ⟨hqueued, hmax⟩ := Macro.incQueued_queued mem.threadLimit hlt
      have hraised : ((mem.macros m).incQueued mem.threadLimit).queued =
          (mem.macros m).queued + 1 := by
        rw [hqueued] at hnonzero ⊢
        split_ifs at hnonzero ⊢ with habove
        · exact absurd rfl hnonzero
        · rfl
      have hclamp := Macro.clampThreadMax_threadMax mem.threadLimit
        ((mem.macros m).incQueued mem.threadLimit) (by rw [hmax]; omega)
      rw [hclamp, if_neg (by omega), hraised]
      exact iff_of_false (by omega) (by omega)
    · -- nothing was added: only a lowered limit empties the queue
      rw [Macro.incQueued_of_not_lt hlt] at hfits hnonzero ⊢
      rw [Macro.clampThreadMax_threadMax _ _ hpos]
      constructor
      · intro hsame
        split_ifs at hsame with habove
        · exact absurd hsame.symm hnonzero
        · exact ⟨by omega, by omega⟩
      · rintro ⟨hfull, hlimit⟩
        rw [if_neg (by omega)]

end Fail

/-- A thread that cannot be created, for a queue that is full already. -/
theorem failedStart_restores_full :
    SamePending 0 (.ofMacro { interruptor := .continue, queued := 1 })
      (Memory.start (.ofMacro { interruptor := .continue, queued := 1 }) 0 none) := by
  refine (failedStart_restores_iff (.inl rfl) (by decide) (by decide)).mpr ?_
  show toUnsigned 1 = 1 ∧ 1 ≤ 0x10
  decide

/-- **Failed starts leave a trace**: with one global slot, a second `start` finds it taken and
cancels the run that the first has queued; and a `start` whose thread cannot be created leaves its
entry in the queue. -/
theorem not_failedStart_restores :
    (∃ tr c, program.Run (fun _ _ => True)
        (initial { Memory.ofMacro { interruptor := .continue, threadMax := 2 } with
          threadLimit := 1 }) tr c ∧
      ((c.shared.macros 0).interruptor = .continue ∧
        (c.shared.macros 0).threadCount < (c.shared.macros 0).threadMax ∧
        (c.shared.trySpawnThread 0 (some c.pool.length)).2 = false) ∧
      ¬ SamePending 0 c.shared (c.shared.start 0 (some c.pool.length))) ∧
    ¬ SamePending 0 (.ofMacro { interruptor := .continue })
      (Memory.start (.ofMacro { interruptor := .continue }) 0 none) := by
  constructor
  -- the only slot is taken: the refused start takes away the entry of the running worker
  · obtain ⟨tr, c, h, hp⟩ := Machine.Run.exists_of_exec (fun _ _ => true)
      (initial { Memory.ofMacro { interruptor := .continue, threadMax := 2 } with
        threadLimit := 1 }) spawnOne (M := program)
      (P := fun _ c => ((c.shared.macros 0).interruptor = .continue ∧
        (c.shared.macros 0).threadCount < (c.shared.macros 0).threadMax ∧
        (c.shared.trySpawnThread 0 (some c.pool.length)).2 = false) ∧
        (c.shared.macros 0).queued = 1 ∧
        ((c.shared.start 0 (some c.pool.length)).macros 0).queued = 0) (by decide +kernel)
    obtain ⟨hfails, hone, hzero⟩ := of_decide_eq_true hp
    refine ⟨tr, c, h.weaken, hfails, fun hsame => ?_⟩
    have hqueued := hsame.queued
    omega
  -- the thread cannot be created: the entry of the failed start stays
  · intro hsame
    exact absurd hsame.queued (by decide)

/-! ## `start` step by step -/

section Alone

variable {mem mem' : Memory} {pool : List Thread} {i : ThreadId} {m : MacroId}

/-- Every edge of `limitMaxThreads` is its move: it leaves nothing open. -/
theorem LimitPc.Step.move_eq {mac : Macro} {p : LimitPc} {q : Option LimitPc} {a : Access}
    (h : p.Step mac a q) (goto : LimitPc → Access → Move) (done : Access → Move) :
    p.move mac goto done = (q.elim (done a) fun p => goto p a) := by
  cases h with
  | exceeds h => exact if_pos h
  | fits h => exact if_neg h
  | clamp | store => rfl

/-- Every edge of `start` is a move of it, for some choice of the outcome. -/
theorem StartPc.Step.exists_move {w : ThreadId} {p : StartPc} {q : Option StartPc} {a : Access}
    {ts : List Thread} {ev : List Event} (h : p.Step mem m i w a q ts ev)
    (wrap : StartPc → Thread) (ret : Thread) : ∃ k,
      p.move mem m i w k (fun p a => ⟨a, wrap p, [], []⟩) (fun a => ⟨a, ret, [], []⟩) =
        ⟨a, q.elim ret wrap, ts, ev⟩ := by
  cases h with
  | enabled h => rcases h with h | h <;> exact ⟨true, by simp [StartPc.move, h]⟩
  | disabled h => rcases h with h | h <;> exact ⟨true, by simp [StartPc.move, h]⟩
  | interrupted h => exact ⟨true, by simp [StartPc.move, h]⟩
  | admitted h | noSlot h | room h | above h | zero h => exact ⟨true, if_pos h⟩
  | full h | reserve h | noRoom h | notAbove h | notZero h => exact ⟨true, if_neg h⟩
  | incLimit h | incLimited h | limit h | limited h =>
    refine ⟨true, ?_⟩
    rw [StartPc.move, h.move_eq]
    rfl
  | spawnThrows => exact ⟨false, rfl⟩
  | _ => exact ⟨true, rfl⟩

/-- The pool, with thread `i` at a point of `start` on macro `m`. -/
abbrev starting (pool : List Thread) (i : ThreadId) (m : MacroId) (p : StartPc) : List Thread :=
  pool.set i (.call m (.start p))

/-- An edge of `start`, which may return from it or create the worker, is reached by the calling
thread. -/
theorem reaches_of_startEdge {p : StartPc} {q : Option StartPc} {a : Access} {ts : List Thread}
    {ev : List Event} (hi : i < pool.length) (h : p.Step mem m i pool.length a q ts ev)
    (ha : a.apply m mem = some mem') :
    Reaches i ⟨mem, starting pool i m p⟩
      ⟨mem', pool.set i (q.elim (.call m .returned) fun p => .call m (.start p)) ++ ts⟩ := by
  obtain ⟨k, hmove⟩ := h.exists_move (fun p => .call m (.start p)) (.call m .returned)
  have hmove' : (Thread.call m (.start p)).move ⟨mem, starting pool i m p⟩ i k =
      some ⟨a, q.elim (.call m .returned) fun p => .call m (.start p), ts, ev⟩ := by
    have hlength : (starting pool i m p).length = pool.length := List.length_set
    rw [← hmove, ← hlength]
    rfl
  exact reaches_of_move (t := .call m (.start p)) hi hmove' ha

/-- An edge of `start` that creates no thread leaves the pool as it is, but for the calling thread.
-/
theorem reaches_of_startEdge_nil {p : StartPc} {q : Option StartPc} {a : Access}
    {ev : List Event} (hi : i < pool.length) (h : p.Step mem m i pool.length a q [] ev)
    (ha : a.apply m mem = some mem') :
    Reaches i ⟨mem, starting pool i m p⟩
      ⟨mem', pool.set i (q.elim (.call m .returned) fun p => .call m (.start p))⟩ := by
  simpa using reaches_of_startEdge hi h ha

/-- `limitMaxThreads` inside `start`, run by the calling thread alone. -/
theorem reaches_limitMaxThreads {point : LimitPc → StartPc} {q : Option StartPc}
    (hi : i < pool.length)
    (hin : ∀ {mem : Memory} {p p' : LimitPc} {a : Access}, p.Step (mem.macros m) a (some p') →
      (point p).Step mem m i pool.length a (some (point p')) [] [])
    (hout : ∀ {mem : Memory} {p : LimitPc} {a : Access}, p.Step (mem.macros m) a none →
      (point p).Step mem m i pool.length a q [] []) :
    Reaches i ⟨mem, starting pool i m (point .clamp)⟩
      ⟨mem.modify m (Macro.limitMaxThreads mem.threadLimit),
        pool.set i (q.elim (.call m .returned) fun p => .call m (.start p))⟩ := by
  refine (reaches_of_startEdge_nil hi (hin .clamp) rfl).trans ?_
  rw [Option.elim_some]
  by_cases h : toUnsigned ((mem.modify m (·.clampThreadMax mem.threadLimit)).macros m).queued >
      ((mem.modify m (·.clampThreadMax mem.threadLimit)).macros m).threadMax
  · -- the two stores are the one that the atomic `limitMaxThreads` makes
    refine (reaches_of_startEdge_nil hi (hin (.exceeds h)) rfl).trans ?_
    refine reaches_of_startEdge_nil hi (hout .store) (congrArg some ?_)
    rw [Memory.modify_modify]
    rw [Memory.modify_macros_self] at h
    exact mem.modify_congr m (if_pos h).symm
  · refine reaches_of_startEdge_nil hi (hout (.fits h)) (congrArg some ?_)
    rw [Memory.modify_macros_self] at h
    exact mem.modify_congr m (if_neg h).symm

/-- `incQueued` inside `start`, run by the calling thread alone. -/
theorem reaches_incQueued (hi : i < pool.length) :
    Reaches i ⟨mem, starting pool i m .incTest⟩
      ⟨mem.modify m (Macro.incQueued mem.threadLimit), starting pool i m .retTest⟩ := by
  by_cases h : toUnsigned (mem.macros m).queued < (mem.macros m).threadMax
  · refine (reaches_of_startEdge_nil hi (.room h) rfl).trans ?_
    refine (reaches_of_startEdge_nil hi .increment rfl).trans ?_
    have hinc : (mem.modify m fun mac => { mac with queued := mac.queued + 1 }).modify m
        (Macro.limitMaxThreads mem.threadLimit) =
          mem.modify m (Macro.incQueued mem.threadLimit) :=
      (mem.modify_modify ..).trans (mem.modify_congr m (Macro.incQueued_of_lt h).symm)
    rw [← hinc]
    exact reaches_limitMaxThreads hi .incLimit .incLimited
  · refine reaches_of_startEdge_nil hi (.noRoom h) (congrArg some ?_)
    exact (mem.modify_eq_self m (Macro.incQueued_of_not_lt h)).symm

/-- `trySpawnThread` inside `start`; `created` says whether the thread can be created. -/
theorem reaches_trySpawnThread (created : Bool) (hi : i < pool.length) :
    Reaches i ⟨mem, starting pool i m .reserve⟩
      ⟨(mem.trySpawnThread m (if created then some pool.length else none)).1,
        if (mem.trySpawnThread m (if created then some pool.length else none)).2 then
          starting pool i m .leave ++ [.worker m (some i) .count]
        else starting pool i m .fail⟩ := by
  by_cases hlimit : mem.activeThreadCount ≥ mem.threadLimit
  · rw [trySpawnThread_of_limit hlimit]
    exact reaches_of_startEdge_nil hi (.noSlot hlimit) rfl
  refine (reaches_of_startEdge_nil hi (.reserve hlimit) rfl).trans ?_
  refine (reaches_incQueued hi).trans ?_
  have hmac : (Memory.modify { mem with activeThreadCount := mem.activeThreadCount + 1 } m
      (Macro.incQueued mem.threadLimit)).macros m = (mem.macros m).incQueued mem.threadLimit :=
    Memory.modify_macros_self ..
  -- the queue is looked at twice
  by_cases habove : toUnsigned ((mem.macros m).incQueued mem.threadLimit).queued >
      ((mem.macros m).incQueued mem.threadLimit).threadMax
  · rw [trySpawnThread_of_refused hlimit (.inl habove)]
    refine (reaches_of_startEdge_nil hi (.above (by rw [hmac]; exact habove)) rfl).trans ?_
    refine reaches_of_startEdge_nil hi .refuse (congrArg some ?_)
    simp [Memory.modify, Macro.refuse]
  refine (reaches_of_startEdge_nil hi (.notAbove (by rw [hmac]; exact habove)) rfl).trans ?_
  by_cases hzero : ((mem.macros m).incQueued mem.threadLimit).queued = 0
  · rw [trySpawnThread_of_refused hlimit (.inr hzero)]
    refine (reaches_of_startEdge_nil hi (.zero (by rw [hmac]; exact hzero)) rfl).trans ?_
    refine reaches_of_startEdge_nil hi .refuse (congrArg some ?_)
    simp [Memory.modify, Macro.refuse]
  refine (reaches_of_startEdge_nil hi (.notZero (by rw [hmac]; exact hzero)) rfl).trans ?_
  rw [trySpawnThread_of_accepted hlimit (not_or.mpr ⟨habove, hzero⟩)]
  cases created with
  | true =>
    refine reaches_of_startEdge hi .spawn (congrArg some ?_)
    exact Memory.modify_modify ..
  | false =>
    -- the handler gives the global slot back, and nothing else
    refine (reaches_of_startEdge_nil hi .spawnThrows rfl).trans ?_
    exact reaches_of_startEdge_nil hi .abandon (congrArg some (by simp [Memory.modify]))

/-- `limitMaxThreads` does not look at the mutex, which its callers hold or not. -/
theorem limitMaxThreads_withLocked (limit : ℕ) (mac : Macro) (b : Bool) :
    (mac.withLocked b).limitMaxThreads limit = (mac.limitMaxThreads limit).withLocked b := by
  unfold Macro.withLocked Macro.limitMaxThreads Macro.clampThreadMax
  dsimp only
  split_ifs <;> rfl

/-- `incQueued` does not look at the mutex, which `start` holds around it. -/
theorem incQueued_withLocked (limit : ℕ) (mac : Macro) (b : Bool) :
    (mac.withLocked b).incQueued limit = (mac.incQueued limit).withLocked b := by
  by_cases h : toUnsigned mac.queued < mac.threadMax
  · have h' : toUnsigned (mac.withLocked b).queued < (mac.withLocked b).threadMax := h
    rw [Macro.incQueued_of_lt h, Macro.incQueued_of_lt h']
    exact limitMaxThreads_withLocked limit { mac with queued := mac.queued + 1 } b
  · have h' : ¬ toUnsigned (mac.withLocked b).queued < (mac.withLocked b).threadMax := h
    rw [Macro.incQueued_of_not_lt h, Macro.incQueued_of_not_lt h']

/-- `trySpawnThread` does not look at the mutex, which `start` holds around it. -/
theorem trySpawnThread_withLocked (worker : Option ThreadId) (b : Bool) :
    (mem.modify m (Macro.withLocked b)).trySpawnThread m worker =
      ((mem.trySpawnThread m worker).1.modify m (Macro.withLocked b),
        (mem.trySpawnThread m worker).2) := by
  have hinc : ((mem.modify m (Macro.withLocked b)).macros m).incQueued mem.threadLimit =
      ((mem.macros m).incQueued mem.threadLimit).withLocked b := by
    rw [Memory.modify_macros_self]
    exact incQueued_withLocked ..
  by_cases hlimit : mem.activeThreadCount ≥ mem.threadLimit
  -- no slot is left
  · rw [trySpawnThread_of_limit hlimit, trySpawnThread_of_limit (by exact hlimit),
      Memory.modify_modify, Memory.modify_modify]
    rfl
  by_cases hrefused : ((mem.macros m).incQueued mem.threadLimit).Refused
  -- the queue refuses the entry
  · have hrefused' : (((mem.modify m (Macro.withLocked b)).macros m).incQueued
        mem.threadLimit).Refused := by
      rw [hinc]
      exact hrefused
    rw [trySpawnThread_of_refused hlimit hrefused,
      trySpawnThread_of_refused (by exact hlimit) hrefused', Memory.modify_modify,
      Memory.modify_modify]
    refine congrArg (fun mem => (mem, false)) (mem.modify_congr m ?_)
    rw [Macro.refuse, Memory.modify_threadLimit, incQueued_withLocked]
    rfl
  -- the entry is in the queue, and the thread is created or not
  · have haccepted : ¬ (((mem.modify m (Macro.withLocked b)).macros m).incQueued
        mem.threadLimit).Refused := by
      rw [hinc]
      exact hrefused
    rw [trySpawnThread_of_accepted hlimit hrefused,
      trySpawnThread_of_accepted (by exact hlimit) haccepted]
    cases worker with
    | none =>
      dsimp only
      rw [Memory.modify_modify, Memory.modify_modify]
      refine congrArg (fun mem => (mem, false)) (mem.modify_congr m ?_)
      exact incQueued_withLocked ..
    | some w =>
      dsimp only
      rw [Memory.modify_modify]
      refine congrArg (fun mem => (mem, true)) ?_
      show Memory.modify (Memory.modify { mem with activeThreadCount := _ } m _) m _ = _
      rw [Memory.modify_modify]
      refine Memory.modify_congr _ m ?_
      rw [Macro.spawn, Memory.modify_threadLimit, incQueued_withLocked]
      rfl

/-- The worker that a `start` creates, if it creates one: the interruptor lets it, there is room,
and the thread can be created. -/
def startedWorkers (mem : Memory) (m : MacroId) (i : ThreadId) (worker : Option ThreadId) :
    List Thread :=
  if ((mem.macros m).interruptor = .continue ∨ (mem.macros m).interruptor = .pause) ∧
    (mem.macros m).threadCount < (mem.macros m).threadMax ∧
    (mem.trySpawnThread m worker).2 = true then [.worker m (some i) .count] else []

/-- **`start` run alone** computes `Memory.start`, and creates the worker that it spawns. -/
theorem reaches_start (created : Bool) (hi : i < pool.length)
    (hfree : (mem.macros m).locked = false) :
    Reaches i ⟨mem, starting pool i m .lock⟩
      ⟨mem.start m (if created then some pool.length else none), pool.set i (.call m .returned) ++
        startedWorkers mem m i (if created then some pool.length else none)⟩ := by
  have hlock : Access.lock.apply m mem = some (mem.modify m (Macro.withLocked true)) :=
    Access.apply_of_unlocked hfree rfl
  refine (reaches_of_startEdge_nil hi .lock hlock).trans ?_
  generalize hw : (if created then some pool.length else none) = worker
  have hmac : (mem.modify m (Macro.withLocked true)).macros m =
      (mem.macros m).withLocked true := Memory.modify_macros_self ..
  -- whoever keeps the mutex free while it works on the macro unlocks it as it was found
  have hunlock : ∀ mem' : Memory, (mem'.macros m).locked = false →
      (mem'.modify m (Macro.withLocked true)).modify m (Macro.withLocked false) = mem' := by
    intro mem' hfree'
    rw [Memory.modify_modify]
    refine mem'.modify_eq_self m ?_
    rw [Macro.withLocked, Macro.withLocked, ← hfree']
  have hleave : Reaches i ⟨mem.modify m (Macro.withLocked true), starting pool i m .leave⟩
      ⟨mem, pool.set i (.call m .returned)⟩ :=
    reaches_of_startEdge_nil hi .leave (congrArg some (hunlock mem hfree))
  cases hv : (mem.macros m).interruptor with
  | interruptAll | disable =>
    rw [Memory.start, startedWorkers, hv]
    refine (reaches_of_startEdge_nil hi (.disabled (by rw [hmac]; simp [Macro.withLocked, hv]))
      rfl).trans ?_
    simpa using hleave
  | interrupt =>
    rw [Memory.start, startedWorkers, hv]
    refine (reaches_of_startEdge_nil hi (.interrupted (by rw [hmac]; exact hv)) rfl).trans ?_
    refine (reaches_of_startEdge_nil hi .cancel rfl).trans ?_
    refine (reaches_of_startEdge_nil hi .cancelNotify rfl).trans ?_
    simp only [reduceCtorEq, or_self, false_and, if_false, List.append_nil]
    refine reaches_of_startEdge_nil hi .leave (congrArg some ?_)
    rw [Memory.modify_modify, Memory.modify_modify, Memory.modify_modify]
    refine mem.modify_congr m ?_
    rw [Macro.withLocked, ← hfree]
  | «continue» | pause =>
    have hon : (mem.macros m).interruptor = .continue ∨ (mem.macros m).interruptor = .pause := by
      simp [hv]
    refine (reaches_of_startEdge_nil hi (.enabled (by rw [hmac]; exact hon)) rfl).trans ?_
    by_cases hroom : (mem.macros m).threadCount < (mem.macros m).threadMax
    · refine (reaches_of_startEdge_nil hi (.admitted (by rw [hmac]; exact hroom)) rfl).trans ?_
      refine (reaches_trySpawnThread created hi).trans ?_
      rw [hw, trySpawnThread_withLocked]
      have hback := hunlock (mem.trySpawnThread m worker).1 (by
        rw [(Memory.startFrame_trySpawnThread mem m worker).setup]
        exact hfree)
      cases hspawned : (mem.trySpawnThread m worker).2 with
      | true =>
        -- the worker stands behind `i`, so the steps of `i` and its creation commute
        have hset : ∀ t, pool.set i t ++ [Thread.worker m (some i) .count] =
            (pool ++ [Thread.worker m (some i) .count]).set i t :=
          fun t => (List.set_append_left i t hi).symm
        rw [start_of_spawns hon hroom hspawned, startedWorkers, if_pos rfl, hset,
          if_pos ⟨hon, hroom, hspawned⟩, hset]
        have hi' : i < (pool ++ [Thread.worker m (some i) .count]).length := by
          rw [List.length_append]
          exact Nat.lt_add_right _ hi
        exact reaches_of_startEdge_nil hi' .leave (congrArg some hback)
      | false =>
        -- the last `limitMaxThreads` comes after the mutex is free again
        rw [start_of_fails hon hroom hspawned, startedWorkers, hspawned]
        refine (reaches_of_startEdge_nil hi .fail (congrArg some hback)).trans ?_
        simpa using reaches_limitMaxThreads hi .limit .limited
    · rw [Memory.start, startedWorkers, hv]
      refine (reaches_of_startEdge_nil hi (.full (by rw [hmac]; exact hroom)) rfl).trans ?_
      simpa [hroom] using hleave

end Alone

/-- A `start` whose thread is created, beside an older call. -/
theorem reaches_start_created : ∃ mem : Memory,
    Reaches 1
      ⟨.ofMacro { interruptor := .continue, context := some 0, threadMax := 2 },
        [.call 0 .returned, .call 0 (.start .lock)]⟩
      ⟨mem, [.call 0 .returned, .call 0 .returned, .worker 0 (some 1) .count]⟩ ∧
    (mem.macros 0).queued = 1 ∧ mem.activeThreadCount = 1 := by
  have hreaches := @reaches_start
    (.ofMacro { interruptor := .continue, context := some 0, threadMax := 2 })
    [.call 0 .returned, .call 0 (.start .lock)] 1 0 true (by decide) rfl
  exact ⟨_, hreaches, by decide, by decide⟩

end Libmacro
