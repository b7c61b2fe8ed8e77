import Libmacro.Threads.Calls

/-! # Counting threads

`_threadCount` is raised by a worker itself, in its preamble, and lowered by it when it leaves.
`copy` and the destructor may force it to 0 (`Thread.forcesReset`). As long as a forced reset finds
it at 0 anyway, it is the number of workers between the two (`threadCount_eq_weight_of_resets`);
without these calls it always is (`threadCount_eq_weight`).

`Access.inner` marks the accesses of the functions that several others call; the edge lemmas say
that those make no other. What changes a counter, or sets a limit, is not among them. -/

namespace Libmacro

open Interleaving

/-- Accesses that `run`, `start` and the setters do not keep to themselves: those of
`limitMaxThreads`, `dequeue`, the waits, `setInterruptor`, `clearThreads`, `disableEverything`,
`resetThread` and, the assignment apart, `copy`. -/
def Access.inner : Access → Bool
  | countThread | uncountThread | reserveSlot | releaseSlot | refuseSlot | abandonSlot
  | incQueued | decQueued | pushThread _ | assign _ | setThreadMax _ | setContext _
  | setThreadLimit _ => false
  | block .applyDispatch => true
  | block _ => false
  | _ => true

/-- Inner accesses leave the configuration of the macro as it is. -/
theorem Access.configures_of_inner {a : Access} (h : a.inner = true) : a.configures = false := by
  cases a with
  | block b => cases b <;> first | rfl | cases h
  | assign | setContext => cases h
  | _ => rfl

section Inner

variable {mac : Macro} {mem : Memory} {m : MacroId} {i : ThreadId} {a : Access}
  {pool : List Thread}

/-- The accesses of `limitMaxThreads` are inner ones: to the limits and the queue. -/
theorem LimitPc.Step.inner {p : LimitPc} {q : Option LimitPc} (h : p.Step mac a q) :
    a.inner = true ∧ a ≠ .clearCount := by
  cases h <;> exact ⟨rfl, nofun⟩

/-- The accesses of `dequeue` are inner ones: to the queue and the interruptor. -/
theorem DequeuePc.Step.inner {val : Interrupt} {p : DequeuePc} {q : Option DequeuePc}
    (h : p.Step val a q) : a.inner = true ∧ a ≠ .clearCount := by
  cases h <;> exact ⟨rfl, nofun⟩

/-- A wait only takes and releases the mutex, which is inner. -/
theorem WaitPc.Step.inner {b : Bool} {p : WaitPc} {q : Option WaitPc} (h : p.Step mac b a q) :
    a.inner = true ∧ a ≠ .clearCount := by
  cases h <;> exact ⟨rfl, nofun⟩

/-- The accesses of `setInterruptor` are inner ones: to the interruptor and the registrations. -/
theorem SetPc.Step.inner {val : Interrupt} {p : SetPc val} {q : Option (SetPc val)}
    {ts : List Thread} {ev : List Event} (h : p.Step m mac i a q ts ev) :
    a.inner = true ∧ a ≠ .clearCount := by
  cases h <;> exact ⟨rfl, nofun⟩

/-- So are those of `clearThreadsSticky`, which may force the count to 0 as well. -/
theorem StickyPc.Step.inner {clearType : Interrupt} {p : StickyPc} {q : Option StickyPc}
    (h : p.Step mac clearType a q) : a.inner = true := by
  cases h with
  | dequeue h | dequeued h => exact h.inner.1
  | wait h | waited h => exact h.inner.1
  | _ => rfl

/-- The accesses of `clearThreads` are inner, those of its wait and its joins included. -/
theorem ClearPc.Step.inner {clearType : Interrupt} {stickyInterrupt : Bool}
    {p : ClearPc stickyInterrupt} {q : Option (ClearPc stickyInterrupt)}
    (h : p.Step pool mac i clearType a q) : a.inner = true := by
  cases h with
  | dequeue h | dequeued h | dequeuedSticky h => exact h.inner.1
  | wait h | waited h => exact h.inner.1
  | sticky h | cleared h => exact h.inner
  | _ => rfl

/-- So are those of `disableEverything`, which removes registrations besides. -/
theorem DisablePc.Step.inner {p : DisablePc} {q : Option DisablePc} (h : p.Step pool mac i a q) :
    a.inner = true := by
  cases h with
  | dequeue h | dequeued h => exact h.inner.1
  | clear h | cleared h => exact h.inner
  | remove => rfl

/-- So are those of `resetThread`, up to its `setInterruptor`. -/
theorem ResetPc.Step.inner {origin : ThreadId} {p p' : ResetPc} {ev : List Event}
    (h : p.Step pool mac m i origin a p' ev) : a.inner = true := by
  cases h with
  | dequeue h | dequeued h => exact h.inner.1
  | clear h | cleared h => exact h.inner
  | set h | setDone h => exact h.inner.1
  | _ => rfl

/-- `resetThread` waits without a time limit, and so never forces the count to 0. -/
theorem ResetPc.Step.ne_clearCount {origin : ThreadId} {p p' : ResetPc} {ev : List Event}
    (h : p.Step pool mac m i origin a p' ev) : a ≠ .clearCount := by
  cases h with
  | dequeue h | dequeued h => exact h.inner.2
  | clear h =>
    cases h with
    | dequeue h | dequeued h => exact h.inner.2
    | wait h | waited h => exact h.inner.2
    | dequeuedSticky h hs => cases hs
    | @sticky hs | @cleared hs => cases hs
    | joinAll | join => nofun
  | cleared h =>
    cases h
    nofun
  | set h | setDone h => exact h.inner.2
  | _ => nofun

/-- So are those of `copy`, the assignment of the source's fields apart. -/
theorem CopyPc.Step.inner {other : MacroId} {p : CopyPc} {q : Option CopyPc}
    (h : p.Step pool mac m other i a q) :
    a.inner = true ∨ p = .assign ∧ a = .assign other ∧ q = some (.limit .clamp) := by
  cases h with
  | assign => exact .inr ⟨rfl, rfl, rfl⟩
  | disable h | disabled h => exact .inl h.inner
  | limit h | limited h => exact .inl h.inner.1
  | _ => exact .inl rfl

/-- The edges that are not inner: those of the counters in `run` and `start`, the setters, and
the assignment in `copy`. -/
inductive Thread.Outer (c : Config Memory Thread) (i : ThreadId) : Thread → Move → Prop
  | count {m : MacroId} {o : Option ThreadId} :
    Outer c i (worker m o .count) ⟨.countThread, worker m o .notifyCount, [], []⟩
  | decrement {m : MacroId} {o : Option ThreadId} :
    Outer c i (worker m o .decrement) ⟨.decQueued, worker m o (.limit .clamp), [], []⟩
  | uncount {m : MacroId} {o : Option ThreadId} :
    Outer c i (worker m o .uncount) ⟨.uncountThread, worker m o .release, [], []⟩
  | release {m : MacroId} {o : Option ThreadId} :
    Outer c i (worker m o .release) ⟨.releaseSlot, worker m o .notifyDone, [], []⟩
  | reserve {m : MacroId} (h : ¬ c.shared.activeThreadCount ≥ c.shared.threadLimit) :
    Outer c i (call m (.start .reserve)) ⟨.reserveSlot, call m (.start .incTest), [], []⟩
  | increment {m : MacroId} :
    Outer c i (call m (.start .increment)) ⟨.incQueued, call m (.start (.incLimit .clamp)), [], []⟩
  | refuse {m : MacroId} :
    Outer c i (call m (.start .refuse)) ⟨.refuseSlot, call m (.start .fail), [], []⟩
  | spawn {m : MacroId} :
    Outer c i (call m (.start .spawn)) ⟨.pushThread c.pool.length, call m (.start .leave),
      [worker m (some i) .count], [.spawn m c.pool.length]⟩
  | abandon {m : MacroId} :
    Outer c i (call m (.start .abandon)) ⟨.abandonSlot, call m (.start .fail), [], []⟩
  | block {m : MacroId} {b : Block} {ev : List Event} :
    Outer c i (call m (.block b)) ⟨.block b, call m .returned, [], ev⟩
  | assign {m other : MacroId} :
    Outer c i (call m (.copy other .assign))
      ⟨.assign other, call m (.copy other (.limit .clamp)), [], []⟩
  | setThreadMax {m : MacroId} {val : ℕ} :
    Outer c i (call m (.storeThreadMax val)) ⟨.setThreadMax val, call m (.limit .clamp), [], []⟩
  | setContext {m : MacroId} {ctx : Option ContextId} :
    Outer c i (call m (.setContext ctx)) ⟨.setContext ctx, call m .returned, [], []⟩
  | setGlobalThreadLimit {m : MacroId} {val : ℕ} :
    Outer c i (call m (.setGlobalThreadLimit val)) ⟨.setThreadLimit val, call m .returned, [], []⟩

/-- **Who makes which access**: every edge is an inner one or is on the list. -/
theorem Thread.Step.inner_or_outer {c : Config Memory Thread} {t : Thread} {mv : Move}
    (h : t.Step c i mv) : mv.access.inner = true ∨ t.Outer c i mv := by
  cases h with
  | worker h =>
    cases h with
    | count => exact .inr .count
    | decrement => exact .inr .decrement
    | uncount => exact .inr .uncount
    | release => exact .inr .release
    | limit h | limited h => exact .inl h.inner.1
    | consumeSet h | consumed h => exact .inl h.inner.1
    | pauseWait h | pauseOver h => exact .inl h.inner.1
    | notInterrupted _ hp => rcases hp with ⟨-, rfl⟩ | ⟨-, rfl⟩ <;> exact .inl rfl
    | _ => exact .inl rfl
  | reset h => exact .inl h.inner
  | call h =>
    cases h with
    | start h =>
      cases h with
      | reserve h => exact .inr (.reserve h)
      | increment => exact .inr .increment
      | refuse => exact .inr .refuse
      | spawn => exact .inr .spawn
      | abandon => exact .inr .abandon
      | incLimit h | incLimited h | limit h => exact .inl h.inner.1
      | _ => exact .inl rfl
    | started h =>
      cases h with
      | limited h => exact .inl h.inner.1
      | leave => exact .inl rfl
    | setInterruptor h | setDone h => exact .inl h.inner.1
    | limit h | limited h => exact .inl h.inner.1
    -- the assignment is the one access of `copy` that no other function makes
    | copy h =>
      rcases h.inner with hin | ⟨rfl, rfl, hq⟩
      · exact .inl hin
      · cases hq
        exact .inr .assign
    | copied h =>
      rcases h.inner with hin | ⟨rfl, rfl, hq⟩
      · exact .inl hin
      · cases hq
    | destroy h | destroyed h => exact .inl h.inner
    | block => exact .inr .block
    | storeThreadMax => exact .inr .setThreadMax
    | setContext => exact .inr .setContext
    | setGlobalThreadLimit => exact .inr .setGlobalThreadLimit
    | _ => exact .inl rfl

end Inner

/-- **The configuration stays** in a step that is none of a setter, of `setContext` or of
`copy`. -/
theorem Thread.Step.sameConfig {c : Config Memory Thread} {i : ThreadId} {t : Thread} {mv : Move}
    {mem : Memory} {K : CallKind → Bool} {direct : Bool} (h : t.Step c i mv)
    (ha : mv.access.apply t.macroId c.shared = some mem)
    (honly : t.only t.macroId K direct = true) (hsetter : K .setter = false)
    (hcontext : K .setContext = false) (hcopy : K .copy = false) :
    Access.SameConfig (c.shared.macros t.macroId) (mem.macros t.macroId) := by
  refine Access.apply_sameConfig ha ?_
  rcases h.inner_or_outer with hin | hout
  · exact Access.configures_of_inner hin
  · cases hout with
    | block => exact absurd (Thread.kind_of_only honly rfl) (by simp [hsetter])
    | assign => exact absurd (Thread.kind_of_only honly rfl) (by simp [hcopy])
    | setContext => exact absurd (Thread.kind_of_only honly rfl) (by simp [hcontext])
    | _ => rfl

/-! ## `_threadCount` -/

/-- The access moves a worker in or out of the count, from `h` to `h'`. -/
def Access.CountsThread (h h' : ℕ) : Access → Prop
  | countThread => h = 0 ∧ h' = 1
  | uncountThread => h = 1 ∧ h' = 0
  | clearCount => False
  | _ => h' = h

/-- Inner accesses, the forced reset apart, leave a thread where it is. -/
theorem Access.countsThread_of_inner {a : Access} (hc : a.inner = true) (hn : a ≠ clearCount)
    (n : ℕ) : a.CountsThread n n := by
  cases a <;> first | rfl | exact absurd rfl hn | cases hc

/-- `run` stands between the increment in `runPreamble` and the decrement in
`onRunComplete`. -/
def RunPc.counted : RunPc → ℕ
  | count | release | notifyDone | finished => 0
  | _ => 1

/-- A worker of macro `m` that has raised `_threadCount` and has not lowered it yet. -/
abbrev Thread.counted (m : MacroId) : Thread → ℕ :=
  onMacro m (fun _ => RunPc.counted) (fun _ => 0) (fun _ => 0)

/-- A worker of the macro is counted from its `++_threadCount` to its `--_threadCount`. -/
theorem Thread.counted_worker (m : MacroId) (o : Option ThreadId) (p : RunPc) :
    (Thread.worker m o p).counted m = p.counted := onMacro_worker o p

/-- A reset thread is not counted: it runs beside the workers. -/
theorem Thread.counted_reset (m : MacroId) (o : ThreadId) (p : ResetPc) :
    (Thread.reset m o p).counted m = 0 := onMacro_reset o p

/-- A call of a client is not counted either. -/
theorem Thread.counted_call (m : MacroId) (p : CallPc) : (Thread.call m p).counted m = 0 :=
  onMacro_call p

/-- The thread of a client's call is not counted. -/
theorem counted_of_entry {m : MacroId} {t : Thread} {ev : List Event}
    (h : t.entry = some ev) : t.counted m = 0 :=
  Thread.onMacro_of_entry h rfl rfl fun _ _ => rfl

/-- The next step is the forced reset. -/
def DisablePc.forcesReset : DisablePc → Bool
  | clear (.sticky _ .reset) => true
  | _ => false

/-- The next step is the forced reset. -/
def CallPc.forcesReset : CallPc → Bool
  | copy _ (.disable p) | destroy p => p.forcesReset
  | _ => false

/-- The next step of the thread forces the count of macro `m` to 0. -/
def Thread.forcesReset (m : MacroId) : Thread → Bool
  | call m' pc => m' == m && pc.forcesReset
  | _ => false

/-- A call forces a reset when it is one on this macro and its code goes that way. -/
theorem Thread.forcesReset_call {m m' : MacroId} {pc : CallPc} :
    (call m' pc).forcesReset m = true ↔ m' = m ∧ pc.forcesReset = true := by
  rw [forcesReset, Bool.and_eq_true, beq_iff_eq]

/-- **A forced reset finds the count at 0.** It is the one write of `_threadCount` that no worker
makes for itself. -/
def resetFindsZero (m : MacroId) (c : Config Memory Thread) : Label Thread Bool → Bool
  | .call _ => true
  | .step i _ =>
    !(c.pool[i]?).any (Thread.forcesReset m) || (c.shared.macros m).threadCount == 0

section Edges

variable {mac : Macro} {mem : Memory} {m : MacroId} {i : ThreadId} {a : Access}
  {pool : List Thread}

/-- **A worker counts itself**, in and out: its access and its being counted change together. -/
theorem RunPc.Step.countsThread {p p' : RunPc} {ev : List Event} (h : p.Step mem m i a p' ev) :
    a.CountsThread p.counted p'.counted := by
  cases h with
  | limit h | limited h => exact Access.countsThread_of_inner h.inner.1 h.inner.2 1
  | consumeSet h | consumed h => exact Access.countsThread_of_inner h.inner.1 h.inner.2 1
  | pauseWait h | pauseOver h => exact Access.countsThread_of_inner h.inner.1 h.inner.2 1
  | notInterrupted h hp =>
    next inLoop p =>
    rcases hp with ⟨rfl, rfl⟩ | ⟨rfl, rfl⟩ <;> cases inLoop <;> rfl
  | count | uncount => exact ⟨rfl, rfl⟩
  | _ => rfl

/-- `start` leaves the count to the workers that it creates. -/
theorem StartPc.Step.countsThread {w : ThreadId} {p : StartPc} {q : Option StartPc}
    {ts : List Thread} {ev : List Event} (h : p.Step mem m i w a q ts ev) :
    a.CountsThread 0 0 := by
  cases h with
  | incLimit h | incLimited h | limit h | limited h =>
    exact Access.countsThread_of_inner h.inner.1 h.inner.2 0
  | _ => rfl

/-- So do the other calls, the forced reset apart. -/
theorem CallPc.Step.countsThread {p p' : CallPc} {ts : List Thread} {ev : List Event}
    (h : p.Step mem pool m i a p' ts ev) (ha : a ≠ .clearCount) : a.CountsThread 0 0 := by
  cases h with
  | start h | started h => exact h.countsThread
  | setInterruptor h | setDone h => exact Access.countsThread_of_inner h.inner.1 ha 0
  | limit h | limited h => exact Access.countsThread_of_inner h.inner.1 ha 0
  | copy h | copied h =>
    rcases h.inner with hin | ⟨-, rfl, -⟩
    · exact Access.countsThread_of_inner hin ha 0
    · rfl
  | destroy h | destroyed h => exact Access.countsThread_of_inner h.inner ha 0
  | _ => rfl

/-- `clearThreadsSticky` sets the count to 0 at its forced reset only. -/
theorem StickyPc.Step.eq_reset {clearType : Interrupt} {p : StickyPc} {q : Option StickyPc}
    (h : p.Step mac clearType a q) (ha : a = .clearCount) : p = .reset := by
  cases h with
  | dequeue h | dequeued h => exact absurd ha h.inner.2
  | wait h | waited h => exact absurd ha h.inner.2
  | reset => rfl
  | _ => cases ha

/-- `disableEverything` does so in the `clearThreadsSticky` it calls. -/
theorem DisablePc.Step.forcesReset {p : DisablePc} {q : Option DisablePc}
    (h : p.Step pool mac i a q) (ha : a = .clearCount) : p.forcesReset = true := by
  cases h with
  | dequeue h | dequeued h => exact absurd ha h.inner.2
  | remove => cases ha
  | clear h =>
    cases h with
    | dequeue h | dequeuedSticky h => exact absurd ha h.inner.2
    | dequeued h hs => cases hs
    | sticky h | cleared h =>
      rw [h.eq_reset ha]
      rfl
    | @wait hs | @waited hs => cases hs
    | joinAll | join => cases ha
  | cleared h =>
    cases h
    cases ha

/-- A call does so in `copy` and in the destructor. -/
theorem CallPc.Step.forcesReset {p p' : CallPc} {ts : List Thread} {ev : List Event}
    (h : p.Step mem pool m i a p' ts ev) (ha : a = .clearCount) : p.forcesReset = true := by
  cases h with
  | start h | started h =>
    have hcount := h.countsThread
    rw [ha] at hcount
    exact hcount.elim
  | setInterruptor h | setDone h => exact absurd ha h.inner.2
  | limit h | limited h => exact absurd ha h.inner.2
  | copy h =>
    cases h with
    | disable h | disabled h => exact h.forcesReset ha
    | limit h | limited h => exact absurd ha h.inner.2
    | _ => cases ha
  | copied h =>
    cases h <;> cases ha
  | destroy h | destroyed h => exact h.forcesReset ha
  | _ => cases ha

end Edges

/-- What counts and uncounts: `_threadCount` moves with the worker. -/
theorem Access.CountsThread.threadCount {m : MacroId} {mem mem' : Memory} {a : Access} {h h' : ℕ}
    (hc : a.CountsThread h h') (ha : a.apply m mem = some mem')
    (hle : h ≤ (mem.macros m).threadCount) :
    (mem'.macros m).threadCount + h = (mem.macros m).threadCount + h' := by
  rw [apply_threadCount ha]
  cases a with
  | countThread =>
    obtain ⟨rfl, rfl⟩ := hc
    rfl
  | uncountThread =>
    obtain ⟨rfl, rfl⟩ := hc
    -- the thread itself is counted, so the decrement does not wrap
    obtain ⟨n, hn⟩ := Nat.exists_eq_add_of_le' hle
    rw [hn]
    rfl
  | clearCount => exact hc.elim
  | _ =>
    obtain rfl : h' = h := hc
    rfl

/-- **One step** moves the count with the worker, if a forced reset finds it at 0. -/
theorem Thread.Step.threadCount {c : Config Memory Thread} {i : ThreadId} {t : Thread} {mv : Move}
    {mem : Memory} (h : t.Step c i mv) (ha : mv.access.apply t.macroId c.shared = some mem)
    (hle : t.counted t.macroId ≤ (c.shared.macros t.macroId).threadCount)
    (hreset : t.forcesReset t.macroId = true → (c.shared.macros t.macroId).threadCount = 0) :
    (mem.macros t.macroId).threadCount + t.counted t.macroId =
      (c.shared.macros t.macroId).threadCount + mv.next.counted t.macroId := by
  cases h with
  | @worker m o p p' a ev h =>
    dsimp only [Thread.macroId] at ha hle ⊢
    refine Access.CountsThread.threadCount ?_ ha hle
    rw [Thread.counted_worker, Thread.counted_worker]
    exact h.countsThread
  | @reset m o p p' a ev h =>
    dsimp only [Thread.macroId] at ha hle ⊢
    refine Access.CountsThread.threadCount ?_ ha hle
    rw [Thread.counted_reset, Thread.counted_reset]
    exact Access.countsThread_of_inner h.inner h.ne_clearCount 0
  | @call m p p' a ts ev h =>
    dsimp only [Thread.macroId] at ha hle hreset ⊢
    rw [Thread.counted_call, Thread.counted_call]
    by_cases hclear : a = .clearCount
    · -- the forced reset leaves the count at 0
      have hzero : (c.shared.macros m).threadCount = 0 :=
        hreset (Thread.forcesReset_call.mpr ⟨rfl, h.forcesReset hclear⟩)
      have hcount := Access.apply_threadCount ha
      rw [hclear] at hcount
      exact congrArg (· + 0) (hcount.trans hzero.symm)
    · exact Access.CountsThread.threadCount (h.countsThread hclear) ha (Nat.zero_le _)

/-- **The running count**: while every forced reset finds it at 0, `_threadCount` is the number of
the macro's workers between the increment and the decrement. -/
theorem threadCount_eq_weight_of_resets
    {allowed : Config Memory Thread → Label Thread Bool → Prop} {m : MacroId} {mem : Memory}
    {c : Config Memory Thread} {tr : List Event}
    (hallowed : ∀ c l, allowed c l → resetFindsZero m c l = true)
    (hinit : (mem.macros m).threadCount = 0) (h : program.Run allowed (initial mem) tr c) :
    (c.shared.macros m).threadCount = weight (Thread.counted m) c.pool := by
  refine counter_eq_onMacro (g := fun mac => mac.threadCount) (by simpa using hinit) ?_ ?_ h
  · exact fun _ t ev _ he => counted_of_entry he
  · rintro c i k t e a rfl ok ht hs ha hle
    have hspawned : weight (Thread.counted t.macroId) e.spawned = 0 :=
      hs.weight_spawned (fun _ => rfl) rfl
    rw [hspawned]
    refine hs.threadCount ha hle fun hreset => ?_
    have hzero := hallowed _ _ ok
    rw [resetFindsZero, ht, Option.any_some, hreset, Bool.not_true, Bool.false_or] at hzero
    exact eq_of_beq hzero

/-- The same when clients neither copy to the macro nor destroy it. -/
theorem threadCount_eq_weight {allowed : Config Memory Thread → Label Thread Bool → Prop}
    {m : MacroId} {K : CallKind → Bool} {direct : Bool} {mem : Memory}
    {c : Config Memory Thread} {tr : List Event}
    (hallowed : ∀ c l, allowed c l → onlyCalls m K direct l = true) (hcopy : K .copy = false)
    (hdestroy : K .destroy = false) (hinit : (mem.macros m).threadCount = 0)
    (h : program.Run allowed (initial mem) tr c) :
    (c.shared.macros m).threadCount = weight (Thread.counted m) c.pool := by
  have hrun := h.and_invariant (I := fun c => ∀ t ∈ c.pool, t.only m K direct = true)
    fun h => only_of_run hallowed (by simp) h
  refine threadCount_eq_weight_of_resets ?_ hinit hrun
  -- no thread comes to a forced reset
  rintro c l ⟨-, honly⟩
  have hnone : ∀ t ∈ c.pool, t.forcesReset m = false := by
    intro t ht
    rw [Bool.eq_false_iff]
    intro hreset
    cases t with
    | worker | reset => cases hreset
    | call m' pc =>
      obtain ⟨rfl, hresets⟩ := Thread.forcesReset_call.mp hreset
      cases pc with
      | copy => exact absurd (Thread.kind_of_only (honly _ ht) rfl) (by simp [hcopy])
      | destroy => exact absurd (Thread.kind_of_only (honly _ ht) rfl) (by simp [hdestroy])
      | _ => cases hresets
  cases l with
  | call t => rfl
  | step i k =>
    rw [resetFindsZero]
    cases ht : c.pool[i]? with
    | none => rfl
    | some t =>
      rw [Option.any_some, hnone t (List.mem_of_getElem? ht)]
      rfl

end Libmacro
