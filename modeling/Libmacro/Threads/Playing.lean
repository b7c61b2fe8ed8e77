import Libmacro.Threads.Solo
import Mathlib.Data.List.ReduceOption

/-! # A macro that is played

What becomes of a `start` when nothing else is going on: the worker it creates makes one pass over
the signals for each entry of the queue, in the order of the list, and leaves the macro as it was
found. -/

namespace Libmacro

open Interleaving

/-- What a pass over the signals of the macro shows. -/
def Memory.pass (mem : Memory) (m : MacroId) : List Shown :=
  .pass m :: (mem.macros m).signals.reduceOption.map fun s =>
    .delivered m s (mem.dispatcherPtr s)

/-- What a worker shows that finds `n` entries in the queue. -/
def Memory.passes (mem : Memory) (m : MacroId) (n : ℕ) : List Shown :=
  if (mem.macros m).signals = [] then [] else (List.replicate n (mem.pass m)).flatten

/-- The queue that a worker leaves, which does not look at it without signals. -/
def Macro.drain (mac : Macro) : Macro :=
  { mac with queued := if mac.signals = [] then mac.queued else min mac.queued 0 }

/-- The memory that a worker leaves: its slot is free, and it has notified twice. -/
def Memory.afterRun (mem : Memory) (m : MacroId) : Memory :=
  { mem with activeThreadCount := mem.activeThreadCount - 1 }.modify m fun mac =>
    { mac.drain with notified := mac.notified + 2 }

/-- An entry in range passes the comparison with `_threadMax`. -/
theorem toUnsigned_le {q : ℤ} {n : ℕ} (hpos : 0 ≤ q) (hle : q ≤ n) : toUnsigned q ≤ n := by
  unfold toUnsigned
  omega

/-- `limitMaxThreads` has nothing to correct when the limits are in order and the queue fits. -/
theorem Macro.limitMaxThreads_eq_self {limit : ℕ} {mac : Macro} (hpos : 0 < mac.threadMax)
    (hmax : mac.threadMax ≤ limit) (hq : 0 ≤ mac.queued) (hle : mac.queued ≤ mac.threadMax) :
    mac.limitMaxThreads limit = mac := by
  have hclamp : mac.clampThreadMax limit = mac := by
    rw [clampThreadMax, if_neg (by omega), if_neg (by omega)]
  have hfits := toUnsigned_le hq hle
  rw [limitMaxThreads, hclamp, if_neg (by omega)]

section Worker

variable {P : List Shown → Config Memory Thread → Prop} {s : List Shown} {mem : Memory}
  {m : MacroId} {o : Option ThreadId} {old : List Thread}

/-- The rest of a pass delivers the rest of the list, when nothing interrupts it. -/
theorem comes_deliver (hold : ∀ t ∈ old, t.ended = true)
    (hv : (mem.macros m).interruptor = .continue) (rest : List (Option SignalId))
    (h : Comes P (s ++ rest.reduceOption.map fun s => .delivered m s (mem.dispatcherPtr s))
      ⟨mem, old ++ [.worker m o (.pause .test)]⟩) :
    Comes P s ⟨mem, old ++ [.worker m o (.breakTest rest)]⟩ := by
  induction rest generalizing s with
  | nil =>
    refine comes_of_silent hold rfl (a := .skip) rfl rfl ?_
    simpa [List.reduceOption] using h
  | cons signalPtr rest ih =>
    refine comes_of_silent (m := m) hold rfl (a := .skip)
      (u := .worker m o (.skipTest signalPtr rest)) ?_ rfl ?_
    · simp [Thread.move, RunPc.move, hv, Interrupt.code]
    refine comes_of_silent (m := m) hold rfl (a := .skip)
      (u := .worker m o (.deliver signalPtr rest)) ?_ rfl ?_
    · simp [Thread.move, RunPc.move, hv, Interrupt.code]
    cases signalPtr with
    | none =>
      refine comes_of_silent (m := m) hold rfl (a := .skip) rfl rfl (ih ?_)
      rwa [List.reduceOption_cons_of_none] at h
    | some sig =>
      refine comes_of_move (m := m) hold rfl (a := .skip) (u := .worker m o (.delivering rest)) rfl
        rfl ?_
      refine comes_of_silent (m := m) hold rfl (a := .skip) (u := .worker m o (.breakTest rest)) rfl
        rfl (ih ?_)
      rw [List.reduceOption_cons_of_some] at h
      simpa [Event.shown] using h

/-- **A pass** delivers every signal of the list, in its order. -/
theorem comes_pass (hold : ∀ t ∈ old, t.ended = true)
    (hv : (mem.macros m).interruptor = .continue)
    (h : Comes P (s ++ mem.pass m) ⟨mem, old ++ [.worker m o (.consume true .test)]⟩) :
    Comes P s ⟨mem, old ++ [.worker m o .dispatchSignals]⟩ := by
  refine comes_of_move (m := m) hold rfl (a := .skip) rfl rfl ?_
  refine comes_deliver hold hv _ ?_
  refine comes_of_silent (m := m) hold rfl (a := .skip)
    (u := .worker m o (.consume true .test)) ?_ rfl ?_
  · simp [Thread.move, RunPc.move, PausePc.move, hv]
  simpa [Event.shown, Memory.pass] using h

/-- **The loop of a worker that is alone** makes a pass for each entry of the queue. -/
theorem comes_loop (hold : ∀ t ∈ old, t.ended = true) (n : ℕ) : ∀ {mem : Memory} {s : List Shown},
    (mem.macros m).interruptor = .continue → (mem.macros m).sticky = false →
    0 < (mem.macros m).threadMax → (mem.macros m).threadMax ≤ mem.threadLimit →
    (mem.macros m).queued.toNat = n → (mem.macros m).queued ≤ (mem.macros m).threadMax →
    Comes P (s ++ (List.replicate n (mem.pass m)).flatten)
      ⟨mem.modify m fun mac => { mac with queued := min mac.queued 0 },
        old ++ [.worker m o .uncount]⟩ →
    Comes P s ⟨mem, old ++ [.worker m o (.consume true .test)]⟩ := by
  induction n with
  | zero =>
    intro mem s hv hsticky hpos hmax hn hle h
    -- nothing is queued: the loop is left
    have hempty : (mem.macros m).queued ≤ 0 := by omega
    have hsame : (mem.modify m fun mac => { mac with queued := min mac.queued 0 }) = mem := by
      refine mem.modify_eq_self m ?_
      rw [min_eq_left hempty]
    rw [hsame] at h
    refine comes_of_silent (m := m) hold rfl (a := .skip) (u := .worker m o .loopTest) ?_ rfl ?_
    · simp [Thread.move, RunPc.move, ConsumePc.move, hv]
    refine comes_of_silent (m := m) hold rfl (a := .skip) (u := .worker m o .idleTest) ?_ rfl ?_
    · simp [Thread.move, RunPc.move, hv, Interrupt.code]
    refine comes_of_silent (m := m) hold rfl (a := .skip) (u := .worker m o .stickyTest) ?_ rfl ?_
    · simp [Thread.move, RunPc.move, hempty]
    refine comes_of_silent (m := m) hold rfl (a := .skip) (u := .worker m o .uncount) ?_ rfl ?_
    · simp [Thread.move, RunPc.move, hsticky]
    simpa using h
  | succ n ih =>
    intro mem s hv hsticky hpos hmax hn hle h
    -- an entry is queued: it is taken, the list is sent, and the loop goes on with one entry less
    have hqueued : 0 < (mem.macros m).queued := by omega
    refine comes_of_silent (m := m) hold rfl (a := .skip) (u := .worker m o .loopTest) ?_ rfl ?_
    · simp [Thread.move, RunPc.move, ConsumePc.move, hv]
    refine comes_of_silent (m := m) hold rfl (a := .skip) (u := .worker m o .idleTest) ?_ rfl ?_
    · simp [Thread.move, RunPc.move, hv, Interrupt.code]
    refine comes_of_silent (m := m) hold rfl (a := .skip) (u := .worker m o .decTest) ?_ rfl ?_
    · simp [Thread.move, RunPc.move, hqueued]
    refine comes_of_silent (m := m) hold rfl (a := .skip) (u := .worker m o .decrement) ?_ rfl ?_
    · simp [Thread.move, RunPc.move, hqueued]
    refine comes_of_silent (m := m) hold rfl (a := .decQueued) (u := .worker m o (.limit .clamp))
      rfl rfl ?_
    refine comes_limitMaxThreads (m := m) (fun p => .worker m o (.limit p)) _ hold (fun _ => rfl)
      (fun _ _ _ => rfl) ?_
    rw [Memory.modify_modify]
    -- the entry taken leaves the queue in range, so the limits correct nothing
    have hkept : (mem.modify m fun mac => Macro.limitMaxThreads
        (mem.modify m fun mac => { mac with queued := mac.queued - 1 }).threadLimit
          { mac with queued := mac.queued - 1 }) =
        mem.modify m fun mac => { mac with queued := mac.queued - 1 } :=
      mem.modify_congr m (Macro.limitMaxThreads_eq_self hpos hmax (by simp only; omega)
        (by simp only; omega))
    rw [hkept]
    refine comes_pass hold (by simpa using hv) (ih (by simpa using hv) (by simpa using hsticky)
      (by simpa using hpos) (by simpa using hmax) ?_ ?_ ?_)
    · simp only [Memory.modify_macros_self]
      omega
    · simp only [Memory.modify_macros_self]
      omega
    · have hdrained : (mem.modify m fun mac => { mac with queued := mac.queued - 1 }).modify m
          (fun mac => { mac with queued := min mac.queued 0 }) =
            mem.modify m fun mac => { mac with queued := min mac.queued 0 } := by
        rw [Memory.modify_modify]
        refine mem.modify_congr m ?_
        have hmin : min ((mem.macros m).queued - 1) 0 = min (mem.macros m).queued 0 := by omega
        simp only [hmin]
      have hpass : (mem.modify m fun mac => { mac with queued := mac.queued - 1 }).pass m =
          mem.pass m := by
        simp [Memory.pass]
      rw [hdrained, hpass, List.append_assoc]
      simpa [List.replicate_succ] using h

/-- The end of a run: the worker is not counted any more, and gives its slot back. -/
theorem comes_uncount (hold : ∀ t ∈ old, t.ended = true) {n : ℕ}
    (hfree : (mem.macros m).locked = false) (hcount : (mem.macros m).threadCount = n + 1)
    (h : Comes P s ⟨{ mem with activeThreadCount := mem.activeThreadCount - 1 }.modify m
      fun mac => { mac with threadCount := n, notified := mac.notified + 1 },
        old ++ [.worker m o .finished]⟩) :
    Comes P s ⟨mem, old ++ [.worker m o .uncount]⟩ := by
  refine comes_of_silent (m := m) hold rfl (a := .uncountThread) (u := .worker m o .release) rfl
    (Access.apply_of_unlocked hfree rfl) ?_
  refine comes_of_silent (m := m) hold rfl (a := .releaseSlot) (u := .worker m o .notifyDone) rfl
    rfl ?_
  refine comes_of_silent (m := m) hold rfl (a := .notify) rfl (congrArg some ?_) h
  have hpred : uintPred (mem.macros m).threadCount = n := by
    rw [hcount, uintPred_succ]
  simp [Memory.modify, hpred]

/-- **A worker that is alone** makes a pass for each entry of the queue, and ends. -/
theorem comes_run (hold : ∀ t ∈ old, t.ended = true) (hfree : (mem.macros m).locked = false)
    (hv : (mem.macros m).interruptor = .continue) (hsticky : (mem.macros m).sticky = false)
    (hpos : 0 < (mem.macros m).threadMax) (hmax : (mem.macros m).threadMax ≤ mem.threadLimit)
    (hle : (mem.macros m).queued ≤ (mem.macros m).threadMax)
    (h : Comes P (s ++ mem.passes m (mem.macros m).queued.toNat)
      ⟨mem.afterRun m, old ++ [.worker m o .finished]⟩) :
    Comes P s ⟨mem, old ++ [.worker m o .count]⟩ := by
  refine comes_of_silent (m := m) hold rfl (a := .countThread) (u := .worker m o .notifyCount) rfl
    (Access.apply_of_unlocked hfree rfl) ?_
  refine comes_of_silent (m := m) hold rfl (a := .notify) (u := .worker m o (.consume false .test))
    rfl rfl ?_
  rw [Memory.modify_modify]
  refine comes_of_silent (m := m) hold rfl (a := .skip) (u := .worker m o .signalsTest) ?_ rfl ?_
  · simp [Thread.move, RunPc.move, ConsumePc.move, hv]
  by_cases hempty : (mem.macros m).signals = []
  -- without signals `run` returns before the loop
  · refine comes_of_silent (m := m) hold rfl (a := .skip) (u := .worker m o .uncount) ?_ rfl ?_
    · simp [Thread.move, RunPc.move, hempty]
    refine comes_uncount (n := (mem.macros m).threadCount) hold (by simpa using hfree) (by simp) ?_
    simpa [Memory.passes, hempty, Memory.afterRun, Memory.modify, Macro.drain] using h
  -- the loop, which is not paused
  · refine comes_of_silent (m := m) hold rfl (a := .skip) (u := .worker m o (.pause .test)) ?_ rfl
      ?_
    · simp [Thread.move, RunPc.move, hempty]
    refine comes_of_silent (m := m) hold rfl (a := .skip)
      (u := .worker m o (.consume true .test)) ?_ rfl ?_
    · simp [Thread.move, RunPc.move, PausePc.move, hv]
    refine comes_loop hold _ (by simpa using hv) (by simpa using hsticky) (by simpa using hpos)
      (by simpa using hmax) rfl (by simpa using hle) ?_
    refine comes_uncount (n := (mem.macros m).threadCount) hold (by simpa using hfree) (by simp) ?_
    simpa [Memory.passes, Memory.pass, hempty, Memory.afterRun, Memory.modify, Macro.drain] using h

/-- Where all threads have ended none can move. -/
theorem halted_of_ended {c : Config Memory Thread} (h : ∀ t ∈ c.pool, t.ended = true) :
    program.Halted NothingFails c := by
  intro i k _
  cases ht : c.pool[i]? with
  | none => simp [Machine.step, ht]
  | some t => simp [Machine.step, ht, move_of_ended (h t (List.mem_of_getElem? ht))]

/-- **A worker left to itself**, where nothing fails, plays the macro once for each entry of the
queue: that is what every run of it shows that has come to a halt, and the worker has then ended and
left the macro as it was found, with an empty queue. Without signals it makes no pass and leaves the
queue as it is. -/
theorem played_of_halted (hold : ∀ t ∈ old, t.ended = true)
    (hfree : (mem.macros m).locked = false) (hv : (mem.macros m).interruptor = .continue)
    (hsticky : (mem.macros m).sticky = false) (hpos : 0 < (mem.macros m).threadMax)
    (hmax : (mem.macros m).threadMax ≤ mem.threadLimit)
    (hle : (mem.macros m).queued ≤ (mem.macros m).threadMax) :
    (∃ tr c, program.Run (Machine.Unattended NothingFails)
        ⟨mem, old ++ [.worker m o .count]⟩ tr c ∧ program.Halted NothingFails c) ∧
      ∀ tr c, program.Run (Machine.Unattended NothingFails)
          ⟨mem, old ++ [.worker m o .count]⟩ tr c → program.Halted NothingFails c →
        tr.filterMap Event.shown = mem.passes m (mem.macros m).queued.toNat ∧
          c = ⟨mem.afterRun m, old ++ [.worker m o .finished]⟩ := by
  have hended : ∀ t ∈ old ++ [.worker m o .finished], t.ended = true :=
    forall_mem_concat hold rfl
  have hhalt := halted_of_ended (c := ⟨mem.afterRun m, old ++ [.worker m o .finished]⟩) hended
  obtain ⟨⟨tr, hrun, -⟩, hall⟩ := Machine.Attains.outcome
    (comes_run hold hfree hv hsticky hpos hmax hle (.done ⟨rfl, rfl⟩)) hhalt
  exact ⟨⟨tr, _, hrun, hhalt⟩, hall⟩

end Worker

/-- A worker with two entries in its queue. -/
theorem played_of_halted_two : ∃ tr c,
    program.Run (Machine.Unattended NothingFails)
      ⟨.ofMacro
        { interruptor := .continue, threadMax := 2, queued := 2, signals := [some 7, none] },
        [.worker 0 none .count]⟩ tr c ∧
    program.Halted NothingFails c ∧
    tr.filterMap Event.shown =
      [.pass 0, .delivered 0 7 (some 1), .pass 0, .delivered 0 7 (some 1)] := by
  obtain ⟨⟨tr, c, hrun, hhalt⟩, hall⟩ := @played_of_halted
    (.ofMacro { interruptor := .continue, threadMax := 2, queued := 2, signals := [some 7, none] })
    0 none [] (by simp) rfl rfl rfl (by decide) (by decide) (by decide)
  exact ⟨tr, c, hrun, hhalt, (hall tr c hrun hhalt).1.trans (by decide)⟩

/-! ## `start` -/

section Start

variable {P : List Shown → Config Memory Thread → Prop} {s : List Shown} {mem : Memory}
  {m : MacroId} {o : Option ThreadId} {old : List Thread}

/-- `incQueued` inside `start`, when nothing else moves. -/
theorem comes_incQueued (hold : ∀ t ∈ old, t.ended = true)
    (h : Comes P s ⟨mem.modify m (Macro.incQueued mem.threadLimit),
      old ++ [.call m (.start .retTest)]⟩) :
    Comes P s ⟨mem, old ++ [.call m (.start .incTest)]⟩ := by
  by_cases hroom : toUnsigned (mem.macros m).queued < (mem.macros m).threadMax
  · refine comes_of_silent (m := m) hold rfl (a := .skip) (u := .call m (.start .increment)) ?_ rfl
      ?_
    · simp [Thread.move, CallPc.move, StartPc.move, hroom]
    refine comes_of_silent (m := m) hold rfl (a := .incQueued)
      (u := .call m (.start (.incLimit .clamp))) rfl rfl ?_
    refine comes_limitMaxThreads (m := m) (fun p => .call m (.start (.incLimit p))) _ hold
      (fun _ => rfl) (fun _ _ _ => rfl) ?_
    have hinc : (mem.modify m fun mac => { mac with queued := mac.queued + 1 }).modify m
        (Macro.limitMaxThreads mem.threadLimit) = mem.modify m (Macro.incQueued mem.threadLimit) :=
      (mem.modify_modify ..).trans (mem.modify_congr m (Macro.incQueued_of_lt hroom).symm)
    rwa [← hinc] at h
  · refine comes_of_silent (m := m) hold rfl (a := .skip) (u := .call m (.start .retTest)) ?_ rfl ?_
    · simp [Thread.move, CallPc.move, StartPc.move, hroom]
    rwa [mem.modify_eq_self m (Macro.incQueued_of_not_lt hroom)] at h

/-- The end of a `start` that has created its worker, which waits for the mutex. -/
theorem comes_leave (hold : ∀ t ∈ old, t.ended = true) (hlocked : (mem.macros m).locked = true)
    (h : Comes P s ⟨mem.modify m (Macro.withLocked false),
      old ++ [.call m .returned] ++ [.worker m o .count]⟩) :
    Comes P s ⟨mem, old ++ [.call m (.start .leave)] ++ [.worker m o .count]⟩ := by
  refine .of_only (i := old.length) (t := .call m (.start .leave))
    (e := ⟨mem.modify m (Macro.withLocked false), .call m .returned, [], []⟩) (by simp) ?_
    ⟨true, rfl⟩ ?_ ?_
  · intro j v k hj _ hv
    rcases getElem?_concat_cases hv with hv | ⟨-, rfl⟩
    · rcases getElem?_concat_cases hv with hv | ⟨rfl, -⟩
      · exact move_of_ended (hold v (List.mem_of_getElem? hv))
      · exact absurd rfl hj
    · -- the worker's first step needs the mutex
      simp [program, Thread.move, RunPc.move, Access.apply, Access.guarded, hlocked]
  · rintro k rfl
    rfl
  · simpa using h

/-- The step of `start` that creates the worker. -/
theorem comes_spawn (hold : ∀ t ∈ old, t.ended = true)
    (h : Comes P s ⟨mem.modify m fun mac => { mac with threads := mac.threads ++ [old.length + 1] },
      old ++ [.call m (.start .leave)] ++ [.worker m (some old.length) .count]⟩) :
    Comes P s ⟨mem, old ++ [.call m (.start .spawn)]⟩ := by
  refine .of_only (i := old.length) (t := .call m (.start .spawn))
    (e := ⟨mem.modify m fun mac => { mac with threads := mac.threads ++ [old.length + 1] },
      .call m (.start .leave), [.worker m (some old.length) .count],
      [.spawn m (old.length + 1)]⟩) (by simp) ?_ ⟨true, rfl⟩ ?_ ?_
  · intro j v k hj _ hv
    rcases getElem?_concat_cases hv with hv | ⟨rfl, -⟩
    · exact move_of_ended (hold v (List.mem_of_getElem? hv))
    · exact absurd rfl hj
  · rintro k rfl
    simp [program, Thread.move, CallPc.move, StartPc.move, Access.apply, Access.guarded,
      Access.perform]
  · have hshown : [Event.spawn m (old.length + 1)].filterMap Event.shown = [] := rfl
    simpa [hshown] using h

/-- **A `start` that is admitted** comes to the first point of its worker. -/
theorem comes_start (hold : ∀ t ∈ old, t.ended = true) (hfree : (mem.macros m).locked = false)
    (hv : (mem.macros m).interruptor = .continue ∨ (mem.macros m).interruptor = .pause)
    (hroom : (mem.macros m).threadCount < (mem.macros m).threadMax)
    (hslot : mem.activeThreadCount < mem.threadLimit)
    (haccepted : ¬ ((mem.macros m).incQueued mem.threadLimit).Refused)
    (h : Comes P s ⟨mem.start m (some (old.length + 1)),
      old ++ [.call m .returned] ++ [.worker m (some old.length) .count]⟩) :
    Comes P s ⟨mem, old ++ [.call m (.start .lock)]⟩ := by
  have hlock : Access.lock.apply m mem = some (mem.modify m (Macro.withLocked true)) :=
    Access.apply_of_unlocked hfree rfl
  refine comes_of_silent (m := m) hold rfl (u := .call m (.start .switch)) rfl hlock ?_
  refine comes_of_silent (m := m) hold rfl (a := .skip) (u := .call m (.start .roomTest)) ?_ rfl ?_
  · rcases hv with hv | hv <;> simp [Thread.move, CallPc.move, StartPc.move, Macro.withLocked, hv]
  refine comes_of_silent (m := m) hold rfl (a := .skip) (u := .call m (.start .reserve)) ?_ rfl ?_
  · simp [Thread.move, CallPc.move, StartPc.move, Macro.withLocked, hroom]
  refine comes_of_silent (m := m) hold rfl (a := .reserveSlot) (u := .call m (.start .incTest)) ?_
    rfl ?_
  · simp [Thread.move, CallPc.move, StartPc.move, Nat.not_le.mpr hslot]
  refine comes_incQueued hold ?_
  obtain ⟨habove, hzero⟩ := not_or.mp haccepted
  -- the queue gets its entry under the mutex
  have hmem : Memory.modify { mem.modify m (Macro.withLocked true) with
      activeThreadCount := mem.activeThreadCount + 1 } m (Macro.incQueued mem.threadLimit) =
        Memory.modify { mem with activeThreadCount := mem.activeThreadCount + 1 } m fun mac =>
          (mac.incQueued mem.threadLimit).withLocked true := by
    simp [Memory.modify, incQueued_withLocked]
  -- and once the mutex is free again, the memory is that of the sequential start
  have hmem' : ((Memory.modify { mem with activeThreadCount := mem.activeThreadCount + 1 } m
      fun mac => (mac.incQueued mem.threadLimit).withLocked true).modify m fun mac =>
        { mac with threads := mac.threads ++ [old.length + 1] }).modify m (Macro.withLocked false) =
          mem.start m (some (old.length + 1)) := by
    have hspawns := @trySpawnThread_of_accepted mem m (some (old.length + 1))
      (Nat.not_le.mpr hslot) haccepted
    have hfree' : ((mem.macros m).incQueued mem.threadLimit).locked = false := by
      rw [Macro.sameSetup_incQueued mem.threadLimit (mem.macros m)]
      exact hfree
    rw [start_of_spawns hv hroom (by rw [hspawns]), hspawns, Memory.modify_modify,
      Memory.modify_modify]
    refine Memory.modify_congr _ m ?_
    simp only [Macro.withLocked, Macro.spawn, ← hfree']
  suffices hrest : Comes P s ⟨Memory.modify { mem with
      activeThreadCount := mem.activeThreadCount + 1 } m fun mac =>
        (mac.incQueued mem.threadLimit).withLocked true, old ++ [.call m (.start .retTest)]⟩ by
    rw [← hmem] at hrest
    exact hrest
  refine comes_of_silent (m := m) hold rfl (a := .skip) (u := .call m (.start .zeroTest)) ?_ rfl ?_
  · simp [Thread.move, CallPc.move, StartPc.move, Macro.withLocked, habove]
  refine comes_of_silent (m := m) hold rfl (a := .skip) (u := .call m (.start .spawn)) ?_ rfl ?_
  · simp [Thread.move, CallPc.move, StartPc.move, Macro.withLocked, hzero]
  refine comes_spawn hold (comes_leave hold (by simp [Macro.withLocked]) ?_)
  rw [hmem']
  exact h

/-- A `start` that the interruptor turns away, or that takes back an `INTERRUPT`. -/
theorem comes_start_of_interrupted (hold : ∀ t ∈ old, t.ended = true)
    (hfree : (mem.macros m).locked = false) (hv : (mem.macros m).interruptor ≠ .continue)
    (hpause : (mem.macros m).interruptor ≠ .pause) (w : Option ThreadId)
    (h : Comes P s ⟨mem.start m w, old ++ [.call m .returned]⟩) :
    Comes P s ⟨mem, old ++ [.call m (.start .lock)]⟩ := by
  have hlock : Access.lock.apply m mem = some (mem.modify m (Macro.withLocked true)) :=
    Access.apply_of_unlocked hfree rfl
  refine comes_of_silent (m := m) hold rfl (u := .call m (.start .switch)) rfl hlock ?_
  cases hi : (mem.macros m).interruptor with
  | «continue» => exact absurd hi hv
  | pause => exact absurd hi hpause
  -- the start is the one that `INTERRUPT` cancels
  | interrupt =>
    rw [Memory.start, hi] at h
    refine comes_of_silent (m := m) hold rfl (a := .skip) (u := .call m (.start .cancel)) ?_ rfl ?_
    · simp [Thread.move, CallPc.move, StartPc.move, Macro.withLocked, hi]
    refine comes_of_silent (m := m) hold rfl (a := .writeInterruptor .continue)
      (u := .call m (.start .cancelNotify)) rfl rfl ?_
    refine comes_of_silent (m := m) hold rfl (a := .notify) (u := .call m (.start .leave)) rfl rfl
      ?_
    refine comes_of_silent (m := m) hold rfl (a := .unlock) rfl (congrArg some ?_) h
    rw [Memory.modify_modify, Memory.modify_modify, Memory.modify_modify]
    refine mem.modify_congr m ?_
    simp only [Macro.withLocked, ← hfree]
  -- the start returns and leaves everything as it was
  | interruptAll | disable =>
    rw [Memory.start, hi] at h
    refine comes_of_silent (m := m) hold rfl (a := .skip) (u := .call m (.start .leave)) ?_ rfl ?_
    · simp [Thread.move, CallPc.move, StartPc.move, Macro.withLocked, hi]
    refine comes_of_silent (m := m) hold rfl (a := .unlock) rfl (congrArg some ?_) h
    rw [Memory.modify_modify]
    refine mem.modify_eq_self m ?_
    simp only [Macro.withLocked, ← hfree]

end Start

end Libmacro
