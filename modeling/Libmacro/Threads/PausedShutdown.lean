import Libmacro.Threads.Mutex
import Libmacro.Threads.ThreadLimit
import Libmacro.Threads.Writers

/-! # Shutting down a paused macro

A worker waits out a `PAUSE` in `pauseLoop`, and `copy` and the destructor wait for the workers in
`waitThreadsChanged`, both on `_cndThreadCount`. `disableEverything` writes the interruptor and
notifies without the mutex, so all of its notifications may fall between a worker's test and its
sleep. `never_deadlocked`: the macro is not left with everybody asleep in the runs in which the last
notification before the wait finds no worker between the two. -/

namespace Libmacro

open Interleaving

/-- Where in `disableEverything` a call of `copy` or of the destructor stands. -/
def CallPc.disabling : CallPc → Option DisablePc
  | copy _ (.disable p) | destroy p => some p
  | _ => none

/-- Where in `waitThreadsChanged` `disableEverything` stands, if it has come there. -/
def DisablePc.waits : DisablePc → Option WaitPc
  | clear (.sticky _ (.wait p)) => some p
  | _ => none

/-- `disableEverything` has written `DISABLE` for the first time, over whatever value it found. -/
def DisablePc.written : DisablePc → Bool
  | dequeue .queued | dequeue .interruptor => false
  | _ => true

/-- The next step is the last notification before a wait. -/
def DisablePc.notifiesLast : DisablePc → Bool
  | clear (.sticky _ (.dequeue .notify)) => true
  | _ => false

/-- `disableEverything` has made its last notification before a wait, and may wait. -/
def DisablePc.told : DisablePc → Bool
  | clear (.sticky _ (.wait _)) | clear (.sticky _ .again) => true
  | _ => false

/-- A wait may be ahead: the forced reset has not been made. -/
def DisablePc.waitsAhead : DisablePc → Bool
  | clear (.sticky _ .notify) | clear .joinAll | clear (.join _) => false
  | _ => true

/-- A wait may be ahead of the call. -/
def CallPc.waitsAhead : CallPc → Bool
  | copy _ .selfTest => true
  | copy _ (.disable p) | destroy p => p.waitsAhead
  | _ => false

/-- A call of `copy` or of the destructor that has not taken its first step. -/
inductive CallPc.ShutsDown : CallPc → Prop
  | copy (other : MacroId) : ShutsDown (.copy other .selfTest)
  | destroy : ShutsDown (.destroy (.dequeue .queued))

/-- The worker has found the macro paused and is about to fall asleep. -/
def RunPc.fallsAsleep : RunPc → Bool
  | pause (.loop .sleep) => true
  | _ => false

/-- The thread is a worker of macro `m` about to fall asleep in `pauseLoop`. -/
def Thread.fallsAsleep (m : MacroId) : Thread → Bool
  | worker m' _ p => m' = m && p.fallsAsleep
  | _ => false

/-- The last notification of macro `m` before a wait is made while no worker is between its test in
`pauseLoop` and its sleep. -/
def lastNotifyHeard (m : MacroId) (c : Config Memory Thread) : Label Thread Bool → Bool
  | .step i _ =>
    match c.pool[i]? with
    | some (.call m' pc) => m' ≠ m || !pc.disabling.any DisablePc.notifiesLast ||
      c.pool.all fun t => !t.fallsAsleep m
    | _ => true
  | .call _ => true

/-- **Everybody is asleep**: a call waits in `waitThreadsChanged` and every counted worker in
`pauseLoop`, all of them since the last notification, although the macro is not paused; and no
worker is on its way to a notification, uncounted. -/
structure Deadlocked (m : MacroId) (c : Config Memory Thread) : Prop where
  caller : ∃ pc p, .call m pc ∈ c.pool ∧ pc.disabling = some p ∧
    p.waits = some (.asleep (c.shared.macros m).notified)
  workers : ∀ o p, .worker m o p ∈ c.pool → p.counted = 1 →
    p = .pause (.loop (.asleep (c.shared.macros m).notified))
  interruptor : (c.shared.macros m).interruptor ≠ .pause
  quiet : ∀ o p, .worker m o p ∈ c.pool → p.counted = 0 → p = .finished

/-! ## The edges of the workers -/

/-- The worker sleeps, or is about to, and has not heard notification `k`. -/
def RunPc.misses (k : ℕ) : RunPc → Bool
  | pause (.loop .sleep) => true
  | pause (.loop (.asleep n)) => k ≤ n
  | _ => false

/-- The number of notifications before the worker's sleep, if it sleeps. -/
def RunPc.asleepSince : RunPc → ℕ
  | pause (.loop (.asleep n)) => n
  | _ => 0

/-- A worker past its decrement has a notification ahead. -/
def RunPc.leaving : RunPc → Bool
  | release | notifyDone => true
  | _ => false

/-- The thread is a worker of macro `m` that has not heard notification `k`. -/
def Thread.misses (m : MacroId) (k : ℕ) : Thread → Bool
  | worker m' _ p => m' = m && p.misses k
  | _ => false

/-- The thread is a worker of macro `m` past its decrement that has not notified. -/
def Thread.leaving (m : MacroId) : Thread → Bool
  | worker m' _ p => m' = m && p.leaving
  | _ => false

/-- The number of notifications before the sleep of a worker of macro `m`. -/
abbrev Thread.asleepSince (m : MacroId) : Thread → ℕ :=
  onMacro m (fun _ => RunPc.asleepSince) (fun _ => 0) (fun _ => 0)

section Edges

variable {mac : Macro} {mem mem' : Memory} {m : MacroId} {i : ThreadId} {a : Access}
  {pool : List Thread}

/-- A worker falls asleep after the notifications so far. -/
theorem RunPc.Step.asleepSince_le {p p' : RunPc} {ev : List Event} (h : p.Step mem m i a p' ev) :
    p'.asleepSince ≤ p.asleepSince ∨ p'.asleepSince = (mem.macros m).notified := by
  cases h with
  | pauseWait h =>
    cases h with
    | sleep => exact .inr rfl
    | _ => exact .inl (Nat.zero_le _)
  | notInterrupted h hp =>
    next inLoop p => cases inLoop <;> exact .inl (Nat.zero_le _)
  | _ => exact .inl (Nat.zero_le _)

/-- **No worker goes to sleep** in a macro that is not paused. -/
theorem RunPc.Step.misses {p p' : RunPc} {ev : List Event} {k : ℕ} (h : p.Step mem m i a p' ev)
    (hi : (mem.macros m).interruptor ≠ .pause) (hhears : p.misses k = false) :
    p'.misses k = false := by
  cases h with
  | pauseWait h =>
    cases h with
    | fails hpred => exact absurd hpred (by simpa using hi)
    | sleep => cases hhears
    | _ => rfl
  | notInterrupted h hp =>
    next inLoop p => cases inLoop <;> rfl
  | _ => rfl

/-- **A worker that lowers the count** is on its way to a notification until it makes it. -/
theorem RunPc.Step.leaving {p p' : RunPc} {ev : List Event} (h : p.Step mem m i a p' ev) :
    (p.leaving = true → p'.leaving = true ∨ a = .notify) ∧
      (a = .uncountThread → p'.leaving = true) := by
  cases h with
  | limit h | limited h => exact ⟨nofun, fun ha => by rw [ha] at h; cases h⟩
  | consumeSet h | consumed h => exact ⟨nofun, fun ha => by rw [ha] at h; cases h⟩
  | pauseWait h | pauseOver h => exact ⟨nofun, fun ha => by rw [ha] at h; cases h⟩
  | notInterrupted h hp => rcases hp with ⟨rfl, rfl⟩ | ⟨rfl, rfl⟩ <;> exact ⟨nofun, nofun⟩
  | uncount => exact ⟨nofun, fun _ => rfl⟩
  | release => exact ⟨fun _ => .inl rfl, nofun⟩
  | notifyDone => exact ⟨fun _ => .inr rfl, nofun⟩
  | _ => exact ⟨nofun, nofun⟩

/-! ## The edges of the shutdown -/

/-- **What the shutdown does to the interruptor**: once written it stays, or is written again. -/
theorem DisablePc.Step.written {p p' : DisablePc} (h : p.Step pool mac i a (some p'))
    (hp' : p'.written = true) :
    a = .writeInterruptor .disable ∨ p.written = true ∧ a.writesInterruptor = false := by
  rcases h.writes with hw | hw
  · refine .inr ⟨?_, hw⟩
    cases h with
    | dequeue h =>
      cases h with
      | queued => cases hp'
      | interruptor => cases hw
    | dequeued h => cases h; rfl
    | _ => rfl
  · exact .inl hw

/-- **The last notification** comes before the wait. -/
theorem DisablePc.Step.told {p p' : DisablePc} (h : p.Step pool mac i a (some p'))
    (hp' : p'.told = true) : p.told = true ∨ p.notifiesLast = true ∧ a = .notify := by
  cases h with
  | dequeue | dequeued | remove => cases hp'
  | clear h =>
    cases h with
    | sticky h =>
      cases h with
      | dequeued h =>
        cases h
        exact .inr ⟨rfl, rfl⟩
      | wait | waited => exact .inl rfl
      | _ => cases hp'
    | _ => cases hp'

/-- The call falls asleep while something is running. -/
theorem DisablePc.Step.waits_sleep {p p' : DisablePc} (h : p.Step pool mac i a (some p'))
    (hp' : p'.waits = some .sleep) : mac.threadCount ≠ 0 ∧ a = .skip := by
  cases h with
  | dequeue | dequeued | remove => cases hp'
  | clear h =>
    cases h with
    | sticky h =>
      cases h with
      | wait h =>
        cases h with
        | fails h =>
          rw [Bool.not_eq_false', Macro.running_iff] at h
          exact ⟨h, rfl⟩
        | _ => cases hp'
      | _ => cases hp'
    | _ => cases hp'

/-- The call sleeps after the notifications so far. -/
theorem DisablePc.Step.waits_asleep {p p' : DisablePc} {n : ℕ}
    (h : p.Step pool mac i a (some p')) (hp' : p'.waits = some (.asleep n)) :
    p.waits = some .sleep ∧ n = mac.notified ∧ a = .unlock := by
  cases h with
  | dequeue | dequeued | remove => cases hp'
  | clear h =>
    cases h with
    | sticky h =>
      cases h with
      | wait h =>
        cases h with
        | sleep =>
          cases hp'
          exact ⟨rfl, rfl, rfl⟩
        | _ => cases hp'
      | _ => cases hp'
    | _ => cases hp'

/-- After the forced reset no wait is ahead. -/
theorem DisablePc.Step.waitsAhead {p p' : DisablePc} (h : p.Step pool mac i a (some p'))
    (hp' : p'.waitsAhead = true) : p.waitsAhead = true ∧ p.forcesReset = false := by
  cases h with
  | dequeue | dequeued | remove => exact ⟨rfl, rfl⟩
  | clear h =>
    cases h with
    | sticky h =>
      cases h with
      | running _ hp => rcases hp with rfl | rfl <;> exact ⟨rfl, rfl⟩
      | notRunning _ hp => rcases hp with rfl | ⟨rfl, -⟩ <;> exact ⟨rfl, rfl⟩
      | reset => cases hp'
      | _ => exact ⟨rfl, rfl⟩
    | cleared | joinAll | join => cases hp'
    | _ => exact ⟨rfl, rfl⟩

/-- Where a call in `disableEverything` comes from. -/
theorem CallPc.Step.disabling {p p' : CallPc} {ts : List Thread} {ev : List Event} {q' : DisablePc}
    (h : p.Step mem pool m i a p' ts ev) (hq' : p'.disabling = some q') :
    (∃ q, p.disabling = some q ∧ q.Step pool (mem.macros m) i a (some q')) ∨
      q' = .dequeue .queued := by
  cases h with
  | copy h =>
    cases h with
    | differs =>
      cases hq'
      exact .inr rfl
    | disable h =>
      cases hq'
      exact .inl ⟨_, rfl, h⟩
    | _ => cases hq'
  | destroy h =>
    cases hq'
    exact .inl ⟨_, rfl, h⟩
  | _ => cases hq'

/-- A call with a wait ahead has not made the forced reset. -/
theorem CallPc.Step.waitsAhead {p p' : CallPc} {ts : List Thread} {ev : List Event}
    (h : p.Step mem pool m i a p' ts ev) (hp' : p'.waitsAhead = true) :
    p.waitsAhead = true ∧ p.forcesReset = false := by
  cases h with
  | copy h =>
    cases h with
    | differs => exact ⟨rfl, rfl⟩
    | disable h => exact h.waitsAhead hp'
    | _ => cases hp'
  | destroy h => exact h.waitsAhead hp'
  | _ => cases hp'

end Edges

/-! ## The invariant -/

/-- **The invariant** of the runs in which the call at position `i₀`, at `pc`, shuts macro `m` down
and only workers run beside it. -/
structure ShutdownInv (m : MacroId) (i₀ : ThreadId) (pc : CallPc) (c : Config Memory Thread) :
    Prop where
  /-- The call. -/
  caller : c.pool[i₀]? = some (.call m pc)
  /-- It is `copy` or the destructor. -/
  kind : pc.kind = some .copy ∨ pc.kind = some .destroy ∨ pc.kind = none
  /-- Nobody else calls. -/
  others : ∀ j t, j ≠ i₀ → c.pool[j]? = some t → t.macroId = m → t.isWorker = true ∨ t.ended = true
  /-- The count is right as long as the call may wait for it. -/
  count : pc.waitsAhead = true →
    (c.shared.macros m).threadCount = weight (Thread.counted m) c.pool
  /-- No worker sleeps since a notification to come. -/
  stamps : ∀ t ∈ c.pool, t.asleepSince m ≤ (c.shared.macros m).notified
  /-- The pause is over. -/
  written : ∀ p, pc.disabling = some p → p.written = true →
    (c.shared.macros m).interruptor ≠ .pause
  /-- After the last notification no worker sleeps in `pauseLoop`. -/
  told : ∀ p, pc.disabling = some p → p.told = true →
    ∀ t ∈ c.pool, t.misses m (c.shared.macros m).notified = false
  /-- The call falls asleep while something is counted. -/
  sleep : ∀ p, pc.disabling = some p → p.waits = some .sleep → (c.shared.macros m).threadCount ≠ 0
  /-- While it sleeps something is counted, or the worker that lowered the count notifies. -/
  asleep : ∀ p n, pc.disabling = some p → p.waits = some (.asleep n) →
    n ≤ (c.shared.macros m).notified ∧ (n = (c.shared.macros m).notified →
      (c.shared.macros m).threadCount ≠ 0 ∨ ∃ t ∈ c.pool, t.leaving m = true)

section Run

variable {m : MacroId} {i₀ i : ThreadId} {pc : CallPc} {c : Config Memory Thread} {k : Bool}
  {t : Thread} {e : Effect Memory Thread Event}

/-- A worker that has heard a notification has not missed a later one. -/
theorem RunPc.misses_mono {p : RunPc} {n n' : ℕ} (hle : n ≤ n') (h : p.misses n = false) :
    p.misses n' = false := by
  cases p with
  | pause p =>
    cases p with
    | test => rfl
    | loop p =>
      cases p with
      | sleep => cases h
      | asleep s => exact decide_eq_false fun hle' => of_decide_eq_false h (hle.trans hle')
      | _ => rfl
  | _ => rfl

/-- A thread that has heard a notification has heard those that count later as well. -/
theorem Thread.misses_mono {n n' : ℕ} (hle : n ≤ n') (h : t.misses m n = false) :
    t.misses m n' = false := by
  cases t with
  | worker m' o p =>
    rw [misses, Bool.and_eq_false_imp] at h ⊢
    exact fun hm => RunPc.misses_mono hle (h hm)
  | _ => rfl

/-- A thread of another macro is no worker of `m`. -/
theorem Thread.misses_of_ne {n : ℕ} (h : t.macroId ≠ m) : t.misses m n = false := by
  cases t with
  | worker m' o p => exact Bool.and_eq_false_imp.mpr fun hm => absurd (of_decide_eq_true hm) h
  | _ => rfl

/-- A leaving worker of `m` belongs to `m`. -/
theorem Thread.macroId_of_leaving (h : t.leaving m = true) : t.macroId = m := by
  cases t with
  | worker m' o p => exact of_decide_eq_true (Bool.and_eq_true_iff.mp h).1
  | _ => cases h

/-- A thread that has ended does not move. -/
theorem move_of_ended (h : t.ended = true) : program.move c i k t = none := by
  have hmove : t.move c i k = none := by
    unfold Thread.ended at h
    split at h
    · rfl
    · rfl
    · rfl
    · cases h
  exact congrArg (Option.bind · _) hmove

/-- A call that has been told has written the interruptor. -/
theorem DisablePc.written_of_told {p : DisablePc} (h : p.told = true) : p.written = true := by
  cases p with
  | dequeue => cases h
  | _ => rfl

/-- A call that waits has not made the forced reset. -/
theorem DisablePc.waitsAhead_of_waits {p : DisablePc} {w : WaitPc} (h : p.waits = some w) :
    p.waitsAhead = true := by
  unfold waits at h
  split at h
  · rfl
  · cases h

/-- A worker is counted once or not at all. -/
theorem RunPc.counted_cases (p : RunPc) : p.counted = 0 ∨ p.counted = 1 := by
  cases p <;> first | exact .inl rfl | exact .inr rfl

/-- A call that sleeps has been told. -/
theorem DisablePc.told_of_waits {p : DisablePc} {w : WaitPc} (h : p.waits = some w) :
    p.told = true := by
  unfold waits at h
  split at h
  · rfl
  · cases h

/-- A new thread does not sleep. -/
theorem asleepSince_of_entry {ev : List Event} (he : t.entry = some ev) : t.asleepSince m = 0 :=
  Thread.onMacro_of_entry he rfl rfl fun _ _ => rfl

/-- A step sends no worker to sleep since a notification to come. -/
theorem asleepSince_le_step {mv : Move} {mem' : Memory}
    (hstamps : ∀ t ∈ c.pool, t.asleepSince m ≤ (c.shared.macros m).notified)
    (ht : c.pool[i]? = some t) (hs : t.Step c i mv)
    (ha : mv.access.apply t.macroId c.shared = some mem') :
    ∀ u ∈ c.pool.set i mv.next ++ mv.spawned, u.asleepSince m ≤ (mem'.macros m).notified := by
  have hnotified : (c.shared.macros m).notified ≤ (mem'.macros m).notified := by
    by_cases hm : t.macroId = m
    · exact hm ▸ (Access.apply_notified ha).1
    · rw [Access.apply_macros_of_ne ha (Ne.symm hm)]
  refine forall_mem_set_append (fun u hu => (hstamps u hu).trans hnotified) ?_ fun u hu => ?_
  · by_cases hm : t.macroId = m
    · have hold := hstamps t (List.mem_of_getElem? ht)
      cases hs with
      | @worker m' o p p' a ev h =>
        obtain rfl : m' = m := hm
        rw [Thread.asleepSince, Thread.onMacro_worker] at hold ⊢
        rcases h.asleepSince_le with hsince | hsince <;> omega
      | reset | call => simp [Thread.onMacro]
    · rw [Thread.asleepSince, Thread.onMacro_of_ne (hs.macroId.trans_ne hm)]
      exact Nat.zero_le _
  · rcases hs.of_mem_spawned hu with rfl | rfl <;> simp [Thread.onMacro, RunPc.asleepSince]

/-- **A step on another macro** keeps the invariant. -/
theorem ShutdownInv.step_of_ne (hinv : ShutdownInv m i₀ pc c) (ht : c.pool[i]? = some t)
    (he : program.move c i k t = some e) (hm : t.macroId ≠ m) :
    ShutdownInv m i₀ pc ⟨e.shared, c.pool.set i e.next ++ e.spawned⟩ := by
  have hsame := macros_of_ne he hm
  obtain ⟨hnext, hspawned⟩ := macroId_of_ne he hm
  obtain ⟨a, hs, ha⟩ := step_of_program_move he
  -- the destructor is on the macro, so it is not the thread that steps
  have hi : i₀ ≠ i := by
    rintro rfl
    rw [hinv.caller] at ht
    exact hm (congrArg Thread.macroId (Option.some.inj ht)).symm
  refine ⟨?_, hinv.kind, ?_, ?_, ?_, ?_, ?_, ?_, ?_⟩
  · rw [getElem?_set_append _ _ ht hinv.caller, if_neg hi]
  · intro j u hj hu hum
    rcases getElem?_set_append_cases hu with ⟨-, rfl⟩ | ⟨-, hu⟩ | hu
    · exact absurd hum hnext
    · exact hinv.others j u hj hu hum
    · exact absurd hum (hspawned u hu)
  · intro hahead
    rw [weight_onMacro_of_ne ht he hm, hsame]
    exact hinv.count hahead
  · exact asleepSince_le_step hinv.stamps ht hs ha
  · simpa only [hsame] using hinv.written
  · intro p hp htold
    simp only [hsame]
    exact forall_mem_set_append (hinv.told p hp htold) (Thread.misses_of_ne hnext)
      fun u hu => Thread.misses_of_ne (hspawned u hu)
  · simpa only [hsame] using hinv.sleep
  · intro p n hp hwaits
    simp only [hsame]
    obtain ⟨hle, hasleep⟩ := hinv.asleep p n hp hwaits
    refine ⟨hle, fun hn => (hasleep hn).imp_right ?_⟩
    rintro ⟨u, hu, hleaving⟩
    refine ⟨u, mem_set_append_of_ne _ _ ht hu ?_, hleaving⟩
    rintro rfl
    exact hm (Thread.macroId_of_leaving hleaving)

/-- The mutex is locked while the call is about to fall asleep. -/
theorem ShutdownInv.locked (hinv : ShutdownInv m i₀ pc c)
    (hlocked : (c.shared.macros m).locked.toNat = weight (Thread.holds m) c.pool) {p : DisablePc}
    (hp : pc.disabling = some p) (hwaits : p.waits = some .sleep) :
    (c.shared.macros m).locked = true := by
  have hholds : pc.holds = 1 := by
    have hp' : p.holds = 1 := by
      unfold DisablePc.waits at hwaits
      split at hwaits
      · cases hwaits
        rfl
      · cases hwaits
    unfold CallPc.disabling at hp
    split at hp
    · cases hp
      exact hp'
    · cases hp
      exact hp'
    · cases hp
  refine locked_of_holds hlocked (List.mem_of_getElem? hinv.caller) ?_
  rw [Thread.holds, Thread.onMacro_call, hholds]

/-- What a worker does to the interruptor: a macro that is not paused stays so. -/
theorem RunPc.Step.interruptor_ne_pause {mem mem' : Memory} {p p' : RunPc} {a : Access}
    {ev : List Event} (h : p.Step mem m i a p' ev) (ha : a.apply m mem = some mem')
    (hi : (mem.macros m).interruptor ≠ .pause) : (mem'.macros m).interruptor ≠ .pause := by
  have hstep : Thread.Step ⟨mem, []⟩ i (.worker m none p) ⟨a, .worker m none p', [], ev⟩ :=
    .worker h
  rcases hstep.writer with hw | hw
  · rw [Access.interruptor_eq ha hw]
    exact hi
  · cases hw with
    | consume =>
      rw [Access.apply_interruptor ha]
      simp [Macro.interruptorAfter]

/-- What a worker does to the count: it stays, unless the mutex is free. -/
theorem RunPc.Step.threadCount_eq {mem mem' : Memory} {p p' : RunPc} {a : Access}
    {ev : List Event} (h : p.Step mem m i a p' ev) (ha : a.apply m mem = some mem') :
    (mem'.macros m).threadCount = (mem.macros m).threadCount ∨
      (mem.macros m).locked = false ∧
        ((mem'.macros m).threadCount ≠ 0 ∨ p'.leaving = true ∧ a ≠ .notify) := by
  have hcount := Access.apply_threadCount ha
  have hcounts := h.countsThread
  have hleaving := h.leaving.2
  cases a with
  | countThread => exact .inr ⟨Access.unlocked_of_apply ha rfl, .inl (by rw [hcount]; exact nofun)⟩
  | uncountThread => exact .inr ⟨Access.unlocked_of_apply ha rfl, .inr ⟨hleaving rfl, nofun⟩⟩
  | clearCount => exact hcounts.elim
  | _ => exact .inl hcount

/-- **A step of a worker** keeps the invariant. -/
theorem ShutdownInv.step_worker {j : ThreadId} {o : Option ThreadId} {p p' : RunPc} {a : Access}
    {ev : List Event} {mem' : Memory} (hinv : ShutdownInv m i₀ pc c)
    (hlocked : (c.shared.macros m).locked.toNat = weight (Thread.holds m) c.pool)
    (ht : c.pool[j]? = some (.worker m o p)) (h : p.Step c.shared m j a p' ev)
    (ha : a.apply m c.shared = some mem') :
    ShutdownInv m i₀ pc ⟨mem', c.pool.set j (.worker m o p') ++ []⟩ := by
  have hstep : Thread.Step c j (.worker m o p) ⟨a, .worker m o p', [], ev⟩ := .worker h
  have hmem := List.mem_of_getElem? ht
  obtain ⟨hnotified, hnotify⟩ := Access.apply_notified ha
  have hj : i₀ ≠ j := by
    rintro rfl
    rw [hinv.caller] at ht
    cases ht
  refine ⟨?_, hinv.kind, ?_, ?_, ?_, ?_, ?_, ?_, ?_⟩
  · rw [getElem?_set_append _ _ ht hinv.caller, if_neg hj]
  · intro n u hn hu hum
    rcases getElem?_set_append_cases hu with ⟨-, rfl⟩ | ⟨-, hu⟩ | hu
    · exact .inl rfl
    · exact hinv.others n u hn hu hum
    · cases hu
  · intro hahead
    have hcount := hinv.count hahead
    have hle := le_weight (Thread.counted m) hmem
    have hmoved := hstep.threadCount ha (hcount ▸ hle) nofun
    have hpool := weight_set_append (Thread.counted m) (.worker m o p') [] ht
    simp only [Thread.macroId, weight_nil] at hmoved hpool
    simp only
    omega
  · exact asleepSince_le_step hinv.stamps ht hstep ha
  · exact fun q hq hwritten => h.interruptor_ne_pause ha (hinv.written q hq hwritten)
  · intro q hq htold
    have hhears := hinv.told q hq htold
    have hi := hinv.written q hq (DisablePc.written_of_told htold)
    refine forall_mem_set_append (fun u hu => Thread.misses_mono hnotified (hhears u hu)) ?_ nofun
    refine Thread.misses_mono hnotified ?_
    have hold := hhears _ hmem
    simp only [Thread.misses, decide_true, Bool.true_and] at hold ⊢
    exact h.misses hi hold
  · intro q hq hwaits
    rcases h.threadCount_eq ha with heq | ⟨hfree, -⟩
    · simp only
      rw [heq]
      exact hinv.sleep q hq hwaits
    · -- the call keeps the mutex
      rw [hinv.locked hlocked hq hwaits] at hfree
      cases hfree
  · intro q n hq hwaits
    obtain ⟨hle, hasleep⟩ := hinv.asleep q n hq hwaits
    refine ⟨hle.trans hnotified, fun hn => ?_⟩
    have hquiet : a ≠ .notify := fun hnot => by
      have := hnotify hnot
      simp only at hn
      omega
    have hold := hasleep (le_antisymm hle (hn ▸ hnotified))
    have hself := mem_set_append_self (.worker m o p') [] ht
    rcases h.threadCount_eq ha with heq | ⟨-, hnonzero | ⟨hleaving, -⟩⟩
    · rcases hold with hcount | ⟨u, hu, hleaving⟩
      · exact .inl (by simp only; rwa [heq])
      · right
        by_cases hut : u = .worker m o p
        · -- the leaving worker has not notified yet
          rw [hut] at hleaving
          simp only [Thread.leaving, decide_true, Bool.true_and] at hleaving
          refine ⟨_, hself, ?_⟩
          simp only [Thread.leaving, decide_true, Bool.true_and]
          exact (h.leaving.1 hleaving).resolve_right hquiet
        · exact ⟨u, mem_set_append_of_ne _ _ ht hu hut, hleaving⟩
    · exact .inl hnonzero
    · exact .inr ⟨_, hself, by simp [Thread.leaving, hleaving]⟩

/-- **After the last notification no worker sleeps**, when none is about to. -/
theorem not_misses_of_notify {n : ℕ} (hstamp : t.asleepSince m ≤ n)
    (hfalls : t.fallsAsleep m = false) : t.misses m (n + 1) = false := by
  cases t with
  | worker m' o p =>
    rw [Thread.misses, Bool.and_eq_false_imp]
    intro hm
    obtain rfl : m' = m := of_decide_eq_true hm
    rw [Thread.asleepSince, Thread.onMacro_worker] at hstamp
    cases p with
    | pause p =>
      cases p with
      | test => rfl
      | loop p =>
        cases p with
        | sleep => simp [Thread.fallsAsleep, RunPc.fallsAsleep] at hfalls
        | asleep s =>
          simp only [RunPc.asleepSince] at hstamp
          exact decide_eq_false (by omega)
        | _ => rfl
    | _ => rfl
  | _ => rfl

/-- **A step of the call** keeps the invariant, if its last notification finds no worker about to
fall asleep. -/
theorem ShutdownInv.step_call {pc' : CallPc} {a : Access} {ts : List Thread} {ev : List Event}
    {mem' : Memory} (hinv : ShutdownInv m i₀ pc c)
    (hheard : lastNotifyHeard m c (.step i₀ k) = true)
    (h : pc.Step c.shared c.pool m i₀ a pc' ts ev) (ha : a.apply m c.shared = some mem') :
    ShutdownInv m i₀ pc' ⟨mem', c.pool.set i₀ (.call m pc') ++ ts⟩ := by
  have hstep : Thread.Step c i₀ (.call m pc) ⟨a, .call m pc', ts, ev⟩ := .call h
  have ht := hinv.caller
  have hmem := List.mem_of_getElem? ht
  obtain ⟨hnotified, hnotify⟩ := Access.apply_notified ha
  -- `copy` and the destructor create no thread
  obtain rfl : ts = [] := by
    rcases hstep.spawned_cases with hs | ⟨m', ht', -⟩ | ⟨m', val, hv, ht', -⟩
    · exact hs
    · cases ht'
      rcases hinv.kind with hk | hk | hk <;> cases hk
    · cases ht'
      rcases hinv.kind with hk | hk | hk <;> cases hk
  refine ⟨?_, ?_, ?_, ?_, ?_, ?_, ?_, ?_, ?_⟩
  · rw [getElem?_set_append _ _ ht ht, if_pos rfl]
  · rcases h.kind with hk | hk
    · rw [hk]
      exact hinv.kind
    · exact .inr (.inr hk)
  · intro j u hj hu hum
    rcases getElem?_set_append_cases hu with ⟨rfl, -⟩ | ⟨-, hu⟩ | hu
    · exact absurd rfl hj
    · exact hinv.others j u hj hu hum
    · cases hu
  · intro hahead
    obtain ⟨hbefore, hreset⟩ := h.waitsAhead hahead
    have hcount := hinv.count hbefore
    have hzero : (Thread.call m pc).counted m = 0 := Thread.counted_call m pc
    have hmoved := hstep.threadCount ha (hzero.le.trans (Nat.zero_le _)) fun hforces => by
      rw [(Thread.forcesReset_call.mp hforces).2] at hreset
      cases hreset
    have hpool := weight_set_append (Thread.counted m) (.call m pc') [] ht
    simp only [Thread.macroId, Thread.counted_call, weight_nil] at hmoved hpool
    simp only
    omega
  · exact asleepSince_le_step hinv.stamps ht hstep ha
  · intro q' hq' hwritten
    rcases h.disabling hq' with ⟨q, hq, hstep⟩ | rfl
    · rcases hstep.written hwritten with rfl | ⟨hbefore, hwrites⟩
      · simp only
        rw [Access.apply_interruptor ha]
        exact nofun
      · simp only
        rw [Access.interruptor_eq ha hwrites]
        exact hinv.written q hq hbefore
    · cases hwritten
  · intro q' hq' htold
    refine forall_mem_set_append (fun u hu => ?_) rfl nofun
    rcases h.disabling hq' with ⟨q, hq, hstep⟩ | rfl
    · rcases hstep.told htold with hbefore | ⟨hlast, hnot⟩
      · exact Thread.misses_mono hnotified (hinv.told q hq hbefore u hu)
      · -- the last notification
        have hall : c.pool.all (fun t => !t.fallsAsleep m) = true := by
          simpa [lastNotifyHeard, ht, hq, hlast] using hheard
        have hfalls := List.all_eq_true.mp hall u hu
        simp only
        rw [hnotify hnot]
        exact not_misses_of_notify (hinv.stamps u hu) ((Bool.not_eq_true' _).mp hfalls)
    · cases htold
  · intro q' hq' hwaits
    rcases h.disabling hq' with ⟨q, hq, hstep⟩ | rfl
    · obtain ⟨hcount, rfl⟩ := hstep.waits_sleep hwaits
      simp only
      rw [Access.apply_threadCount ha]
      exact hcount
    · cases hwaits
  · intro q' n hq' hwaits
    rcases h.disabling hq' with ⟨q, hq, hstep⟩ | rfl
    · obtain ⟨hsleep, rfl, rfl⟩ := hstep.waits_asleep hwaits
      refine ⟨hnotified, fun _ => .inl ?_⟩
      simp only
      rw [Access.apply_threadCount ha]
      exact hinv.sleep q hq hsleep
    · cases hwaits

/-- **A call on another macro, or of `run`,** keeps the invariant. -/
theorem ShutdownInv.append (hinv : ShutdownInv m i₀ pc c) {ev : List Event}
    (honly : onlyCalls m (fun _ => false) true (.call t) = true) (he : t.entry = some ev) :
    ShutdownInv m i₀ pc ⟨c.shared, c.pool ++ [t]⟩ := by
  have hthread : t.only m (fun _ => false) true = true := honly
  -- the new thread is no call on the macro, and it is at its beginning
  have hnew : (t.macroId = m → t.isWorker = true) ∧
      t.misses m (c.shared.macros m).notified = false := by
    rcases Thread.entry_cases he with ⟨m', rfl, -⟩ | ⟨m', rfl, -⟩ | ⟨m', p, rfl, -, hp⟩
    · exact ⟨fun _ => rfl, Bool.and_false _⟩
    · refine ⟨fun hm => ?_, rfl⟩
      obtain rfl : m' = m := hm
      cases Thread.kind_of_only hthread rfl
    · refine ⟨fun hm => ?_, rfl⟩
      obtain rfl : m' = m := hm
      cases hp <;> cases Thread.kind_of_only hthread rfl
  obtain ⟨hworker, hmisses⟩ := hnew
  refine ⟨getElem?_append_of_some hinv.caller, hinv.kind, ?_, ?_, ?_, hinv.written, ?_, hinv.sleep,
    ?_⟩
  · intro j u hj hu hum
    rcases getElem?_concat_cases hu with hu | ⟨-, rfl⟩
    · exact hinv.others j u hj hu hum
    · exact .inl (hworker hum)
  · intro hahead
    rw [weight_append, weight_cons, weight_nil, counted_of_entry he]
    exact hinv.count hahead
  · refine forall_mem_concat hinv.stamps ?_
    rw [asleepSince_of_entry he]
    exact Nat.zero_le _
  · exact fun q hq htold => forall_mem_concat (hinv.told q hq htold) hmisses
  · intro q n hq hwaits
    obtain ⟨hle, hasleep⟩ := hinv.asleep q n hq hwaits
    refine ⟨hle, fun hn => (hasleep hn).imp_right ?_⟩
    rintro ⟨u, hu, hleaving⟩
    exact ⟨u, List.mem_append_left _ hu, hleaving⟩

/-- **One step** keeps the invariant, for some point of the call. -/
theorem ShutdownInv.step (hinv : ShutdownInv m i₀ pc c)
    (hlocked : (c.shared.macros m).locked.toNat = weight (Thread.holds m) c.pool)
    (hheard : lastNotifyHeard m c (.step i k) = true) (ht : c.pool[i]? = some t)
    (he : program.move c i k t = some e) :
    ∃ pc', ShutdownInv m i₀ pc' ⟨e.shared, c.pool.set i e.next ++ e.spawned⟩ := by
  by_cases hm : t.macroId = m
  · obtain ⟨a, hs, ha⟩ := step_of_program_move he
    by_cases hi : i = i₀
    · -- the call
      subst hi
      rw [hinv.caller] at ht
      obtain rfl := Option.some.inj ht
      generalize e.next = u, e.spawned = ts, e.events = ev at hs
      cases hs with
      | call h => exact ⟨_, hinv.step_call hheard h ha⟩
    · -- a worker, since who has ended does not move
      rcases hinv.others i t hi ht hm with hworker | hended
      · generalize e.next = u, e.spawned = ts, e.events = ev at hs
        cases hs with
        | worker h =>
          obtain rfl : _ = m := hm
          exact ⟨pc, hinv.step_worker hlocked ht h ha⟩
        | reset | call => cases hworker
      · rw [move_of_ended hended] at he
        cases he
  · exact ⟨pc, hinv.step_of_ne ht he hm⟩

/-- A call that waits has the count right ahead of it. -/
theorem CallPc.waitsAhead_of_waits {p : DisablePc} {w : WaitPc} (hp : pc.disabling = some p)
    (hwaits : p.waits = some w) : pc.waitsAhead = true := by
  cases pc with
  | copy other q =>
    cases q with
    | disable q =>
      cases hp
      exact DisablePc.waitsAhead_of_waits hwaits
    | _ => cases hp
  | destroy q =>
    cases hp
    exact DisablePc.waitsAhead_of_waits hwaits
  | _ => cases hp

/-- Whoever shuts a macro down is still at it. -/
theorem not_ended_of_disabling {p : DisablePc} (hp : pc.disabling = some p) :
    (Thread.call m pc).ended = false := by
  cases pc with
  | returned => cases hp
  | _ => rfl

/-- A call that shuts the macro down is the one at position `i₀`. -/
theorem ShutdownInv.eq_of_disabling {pc' : CallPc} {p : DisablePc} (hinv : ShutdownInv m i₀ pc c)
    (hmem : .call m pc' ∈ c.pool) (hp : pc'.disabling = some p) : pc' = pc := by
  obtain ⟨j, hj⟩ := List.mem_iff_getElem?.mp hmem
  by_cases hji : j = i₀
  · rw [hji, hinv.caller] at hj
    cases hj
    rfl
  · rcases hinv.others j _ hji hj rfl with hworker | hended
    · cases hworker
    · rw [not_ended_of_disabling hp] at hended
      cases hended

/-- With everybody asleep and told no worker is counted. -/
theorem Deadlocked.counted_eq_zero (hdead : Deadlocked m c)
    (htold : ∀ t ∈ c.pool, t.misses m (c.shared.macros m).notified = false) :
    ∀ t ∈ c.pool, t.counted m = 0 := by
  intro t ht
  cases t with
  | worker m' o q =>
    by_cases hm : m' = m
    · subst hm
      rw [Thread.counted_worker]
      rcases q.counted_cases with hzero | hone
      · exact hzero
      · -- a counted one sleeps in `pauseLoop`, and has missed the last notification
        have hmisses := htold _ ht
        rw [hdead.workers o q ht hone] at hmisses
        simp [Thread.misses, RunPc.misses] at hmisses
    · exact Thread.onMacro_of_ne hm
  | reset | call => simp [Thread.onMacro]

/-- **The invariant excludes a deadlock**: the call would sleep with nothing counted, and the worker
that lowered the count last would not have notified. -/
theorem ShutdownInv.not_deadlocked (hinv : ShutdownInv m i₀ pc c) : ¬ Deadlocked m c := by
  intro hdead
  obtain ⟨pc', p, hmem, hp, hwaits⟩ := hdead.caller
  obtain rfl := hinv.eq_of_disabling hmem hp
  have hnone := hdead.counted_eq_zero (hinv.told p hp (DisablePc.told_of_waits hwaits))
  have hzero : (c.shared.macros m).threadCount = 0 := by
    rw [hinv.count (CallPc.waitsAhead_of_waits hp hwaits)]
    exact weight_eq_zero_iff.mpr hnone
  obtain ⟨-, hasleep⟩ := hinv.asleep p _ hp hwaits
  rcases hasleep rfl with hcount | ⟨t, ht, hleaving⟩
  · exact hcount hzero
  · cases t with
    | worker m' o q =>
      obtain ⟨hm, hq⟩ := Bool.and_eq_true_iff.mp hleaving
      obtain rfl : m' = m := of_decide_eq_true hm
      have hfinished := hdead.quiet o q ht (Thread.counted_worker m' o q ▸ hnone _ ht)
      rw [hfinished] at hq
      cases hq
    | _ => cases hleaving

end Run

section

variable {m : MacroId} {mem : Memory} {c₁ c : Config Memory Thread} {tr tr' : List Event}
  {pc : CallPc}

/-- Every worker that sleeps does so since a notification that has been made. -/
theorem asleepSince_le_notified {allowed : Config Memory Thread → Label Thread Bool → Prop}
    (h : program.Run allowed (initial mem) tr c) :
    ∀ t ∈ c.pool, t.asleepSince m ≤ (c.shared.macros m).notified := by
  refine Machine.Run.invariant
    (P := fun _ c => ∀ t ∈ c.pool, t.asleepSince m ≤ (c.shared.macros m).notified) (by simp) ?_ ?_ h
  · intro _ c t ev hstamps _ he
    refine forall_mem_concat hstamps ?_
    rw [asleepSince_of_entry he]
    exact Nat.zero_le _
  · intro _ c i k t e hstamps _ ht he
    obtain ⟨a, hs, ha⟩ := step_of_program_move he
    exact asleepSince_le_step hstamps ht hs ha

/-- The call begins with the invariant. -/
theorem shutdownInv_of_call (hcount : (mem.macros m).threadCount = 0)
    (h : program.Run (fun c l => resetFindsZero m c l = true) (initial mem) tr c₁)
    (honly : ∀ t ∈ c₁.pool, t.macroId = m → t.isWorker = true ∨ t.ended = true)
    (hcall : pc.ShutsDown) :
    ShutdownInv m c₁.pool.length pc ⟨c₁.shared, c₁.pool ++ [.call m pc]⟩ := by
  have hexact := threadCount_eq_weight_of_resets (fun _ _ ok => ok) hcount h
  have hstamps := asleepSince_le_notified (m := m) h
  -- nothing is written yet
  have hnone : ∀ p, pc.disabling = some p → p = .dequeue .queued := by
    intro p hp
    cases hcall with
    | copy => cases hp
    | destroy => exact (Option.some.inj hp).symm
  refine ⟨List.getElem?_concat_length, ?_, ?_, ?_, ?_, ?_, ?_, ?_, ?_⟩
  · cases hcall with
    | copy => exact .inl rfl
    | destroy => exact .inr (.inl rfl)
  · intro j u hj hu hum
    rcases getElem?_concat_cases hu with hu | ⟨rfl, -⟩
    · exact honly u (List.mem_of_getElem? hu) hum
    · exact absurd rfl hj
  · intro _
    rw [weight_append, weight_cons, weight_nil, Thread.counted_call]
    exact hexact
  · refine forall_mem_concat hstamps ?_
    rw [Thread.asleepSince, Thread.onMacro_call]
    exact Nat.zero_le _
  · intro p hp hwritten
    rw [hnone p hp] at hwritten
    cases hwritten
  · intro p hp htold
    rw [hnone p hp] at htold
    cases htold
  · intro p hp hwaits
    rw [hnone p hp] at hwaits
    cases hwaits
  · intro p n hp hwaits
    rw [hnone p hp] at hwaits
    cases hwaits

/-- **Shutting down a paused macro does not deadlock**: while a call of `copy` or of the destructor
is the only one on the macro, no state with everybody asleep is reached, in the runs in which its
last notification before a wait finds no worker between its test in `pauseLoop` and its sleep. The
count the call waits for was right when it began. -/
theorem never_deadlocked (hcount : (mem.macros m).threadCount = 0)
    (hfree : (mem.macros m).locked = false)
    (h : program.Run (fun c l => resetFindsZero m c l = true) (initial mem) tr c₁)
    (honly : ∀ t ∈ c₁.pool, t.macroId = m → t.isWorker = true ∨ t.ended = true)
    (hcall : pc.ShutsDown)
    (h' : program.Run (fun c l => onlyCalls m (fun _ => false) true l = true ∧
      lastNotifyHeard m c l = true) ⟨c₁.shared, c₁.pool ++ [.call m pc]⟩ tr' c) :
    ¬ Deadlocked m c := by
  have hbegin : program.Run (fun _ _ => True) (initial mem) (tr ++ [])
      ⟨c₁.shared, c₁.pool ++ [.call m pc]⟩ := by
    refine .snoc (l := .call (.call m pc)) h.weaken trivial (Machine.step_call_iff.mpr ⟨?_, rfl⟩)
    cases hcall <;> rfl
  have hlocked := h'.and_invariant (I := fun c =>
    (c.shared.macros m).locked.toNat = weight (Thread.holds m) c.pool)
    fun h' => locked_eq_weight m hfree (hbegin.trans h'.weaken)
  have hinv : ∃ pc', ShutdownInv m c₁.pool.length pc' c := by
    refine Machine.Run.invariant (P := fun _ c => ∃ pc', ShutdownInv m c₁.pool.length pc' c)
      ⟨pc, shutdownInv_of_call hcount h honly hcall⟩ ?_ ?_ hlocked
    · rintro _ c t ev ⟨pc', hinv⟩ ⟨⟨hcalls, -⟩, -⟩ he
      exact ⟨pc', hinv.append hcalls he⟩
    · rintro _ c i k t e ⟨pc', hinv⟩ ⟨⟨-, hheard⟩, hlocked⟩ ht he
      exact hinv.step hlocked hheard ht he
  obtain ⟨pc', hinv⟩ := hinv
  exact hinv.not_deadlocked

end

/-- A paused macro with a null signal, so that its worker comes to the wait of its preamble. -/
def pausedMacro : Macro := { interruptor := .pause, context := some 0, signals := [none] }

/-- A worker that is asleep is told by the destructor. -/
theorem never_deadlocked_asleep : ∃ tr c₁ tr' c,
    program.Run (fun c l => resetFindsZero 0 c l = true) (initial (.ofMacro pausedMacro)) tr c₁ ∧
      program.Run (fun c l => onlyCalls 0 (fun _ => false) true l = true ∧
          lastNotifyHeard 0 c l = true)
        ⟨c₁.shared, c₁.pool ++ [.call 0 (.destroy (.dequeue .queued))]⟩ tr' c ∧
      c₁.pool[1]? = some (.worker 0 (some 0) (.pause (.loop (.asleep 1)))) ∧
      c.pool[2]? = some (.call 0 (.destroy (.clear (.sticky rfl (.wait (.asleep 4)))))) ∧
      ¬ Deadlocked 0 c := by
  obtain ⟨tr, c₁, ev, c₂, tr', c, h, hstep, h', hp⟩ := Machine.Run.exists_of_exec_step
    (fun c l => resetFindsZero 0 c l)
    (fun c l => onlyCalls 0 (fun _ => false) true l && lastNotifyHeard 0 c l)
    (initial (.ofMacro pausedMacro)) (spawnOne ++ List.replicate 8 (.step 1 true))
    (.call (.call 0 (.destroy (.dequeue .queued)))) (List.replicate 14 (.step 2 true))
    (M := program)
    (P := fun c₁ _ c => (∀ t ∈ c₁.pool, t.macroId = 0 → t.isWorker = true ∨ t.ended = true) ∧
      c₁.pool[1]? = some (.worker 0 (some 0) (.pause (.loop (.asleep 1)))) ∧
      c.pool[2]? = some (.call 0 (.destroy (.clear (.sticky rfl (.wait (.asleep 4)))))))
    (by decide +kernel)
  obtain ⟨-, rfl⟩ := Machine.step_call_iff.mp hstep
  obtain ⟨honly, hworker, hcall⟩ := of_decide_eq_true hp
  exact ⟨tr, c₁, tr', c, h, h'.and_of_bool, hworker, hcall,
    never_deadlocked rfl rfl h honly .destroy h'.and_of_bool⟩

/-- **Everybody sleeps**: worker 1 has found the macro paused and keeps the mutex, while the
destructor makes all its notifications; then both fall asleep. -/
theorem not_never_deadlocked : ¬ ∀ mem tr c₁ tr' c, (mem.macros 0).threadCount = 0 →
    (mem.macros 0).locked = false →
    program.Run (fun c l => resetFindsZero 0 c l = true) (initial mem) tr c₁ →
    (∀ t ∈ c₁.pool, t.macroId = 0 → t.isWorker = true ∨ t.ended = true) →
    program.Run (fun _ l => onlyCalls 0 (fun _ => false) true l = true)
      ⟨c₁.shared, c₁.pool ++ [.call 0 (.destroy (.dequeue .queued))]⟩ tr' c →
    ¬ Deadlocked 0 c := by
  intro hall
  obtain ⟨tr, c₁, ev, c₂, tr', c, h, hstep, h', hp⟩ := Machine.Run.exists_of_exec_step
    (fun c l => resetFindsZero 0 c l) (fun _ l => onlyCalls 0 (fun _ => false) true l)
    (initial (.ofMacro pausedMacro)) (spawnOne ++ List.replicate 7 (.step 1 true))
    (.call (.call 0 (.destroy (.dequeue .queued))))
    (List.replicate 11 (.step 2 true) ++ [.step 1 true] ++ List.replicate 3 (.step 2 true))
    (M := program)
    (P := fun c₁ _ c => (∀ t ∈ c₁.pool, t.macroId = 0 → t.isWorker = true ∨ t.ended = true) ∧
      (c.shared.macros 0).notified = 4 ∧ (c.shared.macros 0).interruptor = .disable ∧
      c.pool = [.call 0 .returned, .worker 0 (some 0) (.pause (.loop (.asleep 4))),
        .call 0 (.destroy (.clear (.sticky rfl (.wait (.asleep 4)))))])
    (by decide +kernel)
  -- the destructor disables and notifies between the worker's test and its sleep
  obtain ⟨-, rfl⟩ := Machine.step_call_iff.mp hstep
  obtain ⟨honly, hnotified, hdisable, hpool⟩ := of_decide_eq_true hp
  refine hall _ tr c₁ tr' c rfl rfl h honly h' ⟨?_, ?_, ?_, ?_⟩
  · refine ⟨.destroy (.clear (.sticky rfl (.wait (.asleep 4)))), _, ?_, rfl, ?_⟩
    · rw [hpool]
      exact List.mem_cons_of_mem _ (List.mem_cons_of_mem _ List.mem_cons_self)
    · rw [hnotified]
      rfl
  · intro o p hmem _
    rw [hpool] at hmem
    rw [hnotified]
    simp only [List.mem_cons, List.not_mem_nil, reduceCtorEq, Thread.worker.injEq, or_false,
      false_or] at hmem
    exact hmem.2.2
  · rw [hdisable]
    intro hpause
    cases hpause
  · intro o p hmem hzero
    rw [hpool] at hmem
    simp only [List.mem_cons, List.not_mem_nil, reduceCtorEq, Thread.worker.injEq, or_false,
      false_or] at hmem
    rw [hmem.2.2] at hzero
    cases hzero

end Libmacro
