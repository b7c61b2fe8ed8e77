import Libmacro.Threads.Moves

/-! # What each step can do

The control-flow edges of the threads as relations, one constructor an edge, with the test that
takes it. `Thread.step_of_move` says that every move is one of these edges; the invariants are
proved by cases on the edge and never unfold the move functions.

An edge of a function that is called leads to `some` next point of it, or to `none` where it
returns. -/

namespace Libmacro

open Interleaving

/-- The edges of `limitMaxThreads`: where it stands, what it accesses and where it goes. -/
inductive LimitPc.Step (mac : Macro) : LimitPc → Access → Option LimitPc → Prop
  | clamp : Step mac clamp .clampThreadMax (some load)
  | exceeds (h : toUnsigned mac.queued > mac.threadMax) : Step mac load .skip (some store)
  | fits (h : ¬ toUnsigned mac.queued > mac.threadMax) : Step mac load .skip none
  | store : Step mac store .clearQueued none

/-- The edges of `dequeue(val)`, one after the other. -/
inductive DequeuePc.Step (val : Interrupt) : DequeuePc → Access → Option DequeuePc → Prop
  | queued : Step val queued .clearQueued (some interruptor)
  | interruptor : Step val interruptor (.writeInterruptor val) (some notify)
  | notify : Step val notify .notify none

/-- The edges of a wait for `predicate`. -/
inductive WaitPc.Step (mac : Macro) (predicate : Bool) : WaitPc → Access → Option WaitPc → Prop
  | lock : Step mac predicate lock .lock (some test)
  | holds (h : predicate = true) : Step mac predicate test .unlock none
  | fails (h : predicate = false) : Step mac predicate test .skip (some sleep)
  | sleep : Step mac predicate sleep .unlock (some (asleep mac.notified))
  | wake {n : ℕ} : Step mac predicate (asleep n) .skip (some lock)

/-- The edges of `setInterruptor(val)`, with the reset thread that it may create. -/
inductive SetPc.Step (m : MacroId) {val : Interrupt} (mac : Macro) (i : ThreadId) :
    SetPc val → Access → Option (SetPc val) → List Thread → List Event → Prop
  | readPrev : Step m mac i readPrev .skip (some (compare mac.interruptor)) [] []
  | differs {prev : Interrupt} (h : val ≠ mac.interruptor) :
    Step m mac i (compare prev) .skip (some (store prev)) [] []
  | same {prev : Interrupt} (h : val = mac.interruptor) :
    Step m mac i (compare prev) .skip none [] []
  | storeApply {prev : Interrupt} (h : prev = .disable ∨ val = .disable) :
    Step m mac i (store prev) (.storeInterruptor val)
      (some (apply (mac.storeInterruptor val).2 mac.interruptAll_of_storeInterruptor)) []
      (storeEvents m val mac i)
  | storeReset {prev : Interrupt} (h : ¬ (prev = .disable ∨ val = .disable))
      (hs : (mac.storeInterruptor val).2 = true) :
    Step m mac i (store prev) (.storeInterruptor val)
      (some (spawnReset (mac.interruptAll_of_storeInterruptor hs))) [] (storeEvents m val mac i)
  | storeDone {prev : Interrupt} (h : ¬ (prev = .disable ∨ val = .disable))
      (hs : (mac.storeInterruptor val).2 = false) :
    Step m mac i (store prev) (.storeInterruptor val) none [] (storeEvents m val mac i)
  | applyReset {h : true = true → val = .interruptAll} :
    Step m mac i (apply true h) (.block .applyDispatch) (some (spawnReset (h rfl))) [] []
  | applyDone {h : false = true → val = .interruptAll} :
    Step m mac i (apply false h) (.block .applyDispatch) none [] []
  | spawnReset {h : val = .interruptAll} :
    Step m mac i (spawnReset h) .skip none [.reset m i .readPrev] []
  | spawnFails {h : val = .interruptAll} :
    Step m mac i (spawnReset h) .skip none [] [.threw i none]

/-- The edges of `run` in thread `i`: from each point the access, the next point and the events,
with the tests of the branch as premises. -/
inductive RunPc.Step (mem : Memory) (m : MacroId) (i : ThreadId) :
    RunPc → Access → RunPc → List Event → Prop
  | count : Step mem m i count .countThread notifyCount []
  | notifyCount : Step mem m i notifyCount .notify (consume false .test) []
  | consumeTest {inLoop : Bool} (h : (mem.macros m).interruptor = .interrupt) :
    Step mem m i (consume inLoop .test) .skip (consume inLoop .retest) []
  | notInterrupted {inLoop : Bool} {p : ConsumePc} {a : Access}
      (h : (mem.macros m).interruptor ≠ .interrupt)
      (hp : p = .test ∧ a = .skip ∨ p = .retest ∧ a = .peek) :
    Step mem m i (consume inLoop p) a (if inLoop then loopTest else signalsTest) []
  | interrupted {inLoop : Bool} (h : (mem.macros m).interruptor = .interrupt) :
    Step mem m i (consume inLoop .retest) .peek (consume inLoop (.set .readPrev)) []
  | consumeSet {inLoop : Bool} {p p' : SetPc .continue} {a : Access}
      (h : p.Step m (mem.macros m) i a (some p') [] []) :
    Step mem m i (consume inLoop (.set p)) a (consume inLoop (.set p')) []
  | consumed {inLoop : Bool} {p : SetPc .continue} {a : Access}
      (h : p.Step m (mem.macros m) i a none [] []) :
    Step mem m i (consume inLoop (.set p)) a uncount [.consumed m i]
  | noSignals (h : (mem.macros m).signals = []) : Step mem m i signalsTest .skip uncount []
  | someSignals (h : (mem.macros m).signals ≠ []) :
    Step mem m i signalsTest .skip (pause .test) []
  | paused (h : (mem.macros m).interruptor = .pause) :
    Step mem m i (pause .test) .skip (pause (.loop .lock)) []
  | notPaused (h : (mem.macros m).interruptor ≠ .pause) :
    Step mem m i (pause .test) .skip (consume true .test) []
  | pauseWait {p p' : WaitPc} {a : Access}
      (h : p.Step (mem.macros m) ((mem.macros m).interruptor ≠ .pause) a (some p')) :
    Step mem m i (pause (.loop p)) a (pause (.loop p')) []
  | pauseOver {p : WaitPc} {a : Access}
      (h : p.Step (mem.macros m) ((mem.macros m).interruptor ≠ .pause) a none) :
    Step mem m i (pause (.loop p)) a (consume true .test) []
  | loopBreak (h : Interrupt.interruptAll.code ≤ (mem.macros m).interruptor.code) :
    Step mem m i loopTest .skip uncount []
  | loopGo (h : ¬ Interrupt.interruptAll.code ≤ (mem.macros m).interruptor.code) :
    Step mem m i loopTest .skip idleTest []
  | idle (h : (mem.macros m).queued ≤ 0) : Step mem m i idleTest .skip stickyTest []
  | notIdle (h : ¬ (mem.macros m).queued ≤ 0) : Step mem m i idleTest .skip decTest []
  | sticky (h : (mem.macros m).sticky = true) : Step mem m i stickyTest .skip countTest []
  | notSticky (h : (mem.macros m).sticky = false) : Step mem m i stickyTest .skip uncount []
  | surplus (h : toSigned (mem.macros m).threadCount > 1) : Step mem m i countTest .skip uncount []
  | lastOne (h : ¬ toSigned (mem.macros m).threadCount > 1) :
    Step mem m i countTest .skip dispatchSignals []
  | declined (h : (mem.macros m).queued ≤ 0) : Step mem m i decTest .skip dispatchSignals []
  | accepted (h : ¬ (mem.macros m).queued ≤ 0) : Step mem m i decTest .skip decrement []
  | decrement : Step mem m i decrement .decQueued (limit .clamp) []
  | limit {p p' : LimitPc} {a : Access} (h : p.Step (mem.macros m) a (some p')) :
    Step mem m i (limit p) a (limit p') []
  | limited {p : LimitPc} {a : Access} (h : p.Step (mem.macros m) a none) :
    Step mem m i (limit p) a dispatchSignals []
  | dispatchSignals :
    Step mem m i dispatchSignals .skip (breakTest (mem.macros m).signals) [.pass m i]
  | passOver : Step mem m i (breakTest []) .skip (pause .test) []
  | passBreak {s : Option SignalId} {rest : List (Option SignalId)}
      (h : Interrupt.interruptAll.code ≤ (mem.macros m).interruptor.code) :
    Step mem m i (breakTest (s :: rest)) .skip (pause .test) []
  | breakTest {s : Option SignalId} {rest : List (Option SignalId)}
      (h : ¬ Interrupt.interruptAll.code ≤ (mem.macros m).interruptor.code) :
    Step mem m i (breakTest (s :: rest)) .skip (skipTest s rest) []
  | skip {s : Option SignalId} {rest : List (Option SignalId)}
      (h : Interrupt.interrupt.code ≤ (mem.macros m).interruptor.code) :
    Step mem m i (skipTest s rest) .skip (breakTest rest) []
  | skipTest {s : Option SignalId} {rest : List (Option SignalId)}
      (h : ¬ Interrupt.interrupt.code ≤ (mem.macros m).interruptor.code) :
    Step mem m i (skipTest s rest) .skip (deliver s rest) []
  | nullSignal {rest : List (Option SignalId)} :
    Step mem m i (deliver none rest) .skip (breakTest rest) []
  | deliver {s : SignalId} {rest : List (Option SignalId)} :
    Step mem m i (deliver (some s) rest) .skip (delivering rest)
      [.deliver m i s (mem.dispatcherPtr s)]
  | delivered {rest : List (Option SignalId)} :
    Step mem m i (delivering rest) .skip (breakTest rest) []
  | threw {rest : List (Option SignalId)} : Step mem m i (delivering rest) .skip uncount []
  | uncount : Step mem m i uncount .uncountThread release []
  | release : Step mem m i release .releaseSlot notifyDone []
  | notifyDone : Step mem m i notifyDone .notify finished []

/-- The edges of `start` in thread `i`; `w` is the thread a spawn creates. -/
inductive StartPc.Step (mem : Memory) (m : MacroId) (i w : ThreadId) :
    StartPc → Access → Option StartPc → List Thread → List Event → Prop
  | lock : Step mem m i w lock .lock (some switch) [] []
  | enabled (h : (mem.macros m).interruptor = .continue ∨ (mem.macros m).interruptor = .pause) :
    Step mem m i w switch .skip (some roomTest) [] []
  | interrupted (h : (mem.macros m).interruptor = .interrupt) :
    Step mem m i w switch .skip (some cancel) [] []
  | disabled (h : (mem.macros m).interruptor = .interruptAll ∨
      (mem.macros m).interruptor = .disable) : Step mem m i w switch .skip (some leave) [] []
  | cancel : Step mem m i w cancel (.writeInterruptor .continue) (some cancelNotify) [] []
  | cancelNotify : Step mem m i w cancelNotify .notify (some leave) [] []
  | admitted (h : (mem.macros m).threadCount < (mem.macros m).threadMax) :
    Step mem m i w roomTest .skip (some reserve) [] []
  | full (h : ¬ (mem.macros m).threadCount < (mem.macros m).threadMax) :
    Step mem m i w roomTest .skip (some leave) [] []
  | noSlot (h : mem.activeThreadCount ≥ mem.threadLimit) :
    Step mem m i w reserve .clearQueued (some fail) [] []
  | reserve (h : ¬ mem.activeThreadCount ≥ mem.threadLimit) :
    Step mem m i w reserve .reserveSlot (some incTest) [] []
  | room (h : toUnsigned (mem.macros m).queued < (mem.macros m).threadMax) :
    Step mem m i w incTest .skip (some increment) [] []
  | noRoom (h : ¬ toUnsigned (mem.macros m).queued < (mem.macros m).threadMax) :
    Step mem m i w incTest .skip (some retTest) [] []
  | increment : Step mem m i w increment .incQueued (some (incLimit .clamp)) [] []
  | incLimit {p p' : LimitPc} {a : Access} (h : p.Step (mem.macros m) a (some p')) :
    Step mem m i w (incLimit p) a (some (incLimit p')) [] []
  | incLimited {p : LimitPc} {a : Access} (h : p.Step (mem.macros m) a none) :
    Step mem m i w (incLimit p) a (some retTest) [] []
  | above (h : toUnsigned (mem.macros m).queued > (mem.macros m).threadMax) :
    Step mem m i w retTest .skip (some refuse) [] []
  | notAbove (h : ¬ toUnsigned (mem.macros m).queued > (mem.macros m).threadMax) :
    Step mem m i w retTest .skip (some zeroTest) [] []
  | zero (h : (mem.macros m).queued = 0) : Step mem m i w zeroTest .skip (some refuse) [] []
  | notZero (h : (mem.macros m).queued ≠ 0) : Step mem m i w zeroTest .skip (some spawn) [] []
  | refuse : Step mem m i w refuse .refuseSlot (some fail) [] []
  | spawn : Step mem m i w spawn (.pushThread w) (some leave) [.worker m (some i) .count]
      [.spawn m w]
  | spawnThrows : Step mem m i w spawn .skip (some abandon) [] []
  | abandon : Step mem m i w abandon .abandonSlot (some fail) [] []
  | fail : Step mem m i w fail .unlock (some (limit .clamp)) [] []
  | limit {p p' : LimitPc} {a : Access} (h : p.Step (mem.macros m) a (some p')) :
    Step mem m i w (limit p) a (some (limit p')) [] []
  | limited {p : LimitPc} {a : Access} (h : p.Step (mem.macros m) a none) :
    Step mem m i w (limit p) a none [] []
  | leave : Step mem m i w leave .unlock none [] []

/-- The edges of `clearThreadsSticky(clearType)`: the loop around its wait, and the forced
reset. -/
inductive StickyPc.Step (mac : Macro) (clearType : Interrupt) :
    StickyPc → Access → Option StickyPc → Prop
  | running {p : StickyPc} (h : mac.running = true) (hp : p = runningTest ∨ p = again) :
    Step mac clearType p .skip (some (dequeue .queued))
  | notRunning {p : StickyPc} {timeout : Bool} (h : mac.running = false)
      (hp : p = runningTest ∨ p = again ∧ timeout = false) :
    Step mac clearType p .skip (some (finalTest timeout))
  | dequeue {p p' : DequeuePc} {a : Access} (h : p.Step clearType a (some p')) :
    Step mac clearType (dequeue p) a (some (dequeue p'))
  | dequeued {p : DequeuePc} {a : Access} (h : p.Step clearType a none) :
    Step mac clearType (dequeue p) a (some (wait .lock))
  | wait {p p' : WaitPc} {a : Access} (h : p.Step mac (!mac.running) a (some p')) :
    Step mac clearType (wait p) a (some (wait p'))
  | waited {p : WaitPc} {a : Access} (h : p.Step mac (!mac.running) a none) :
    Step mac clearType (wait p) a (some again)
  | timedOut (h : mac.running = true) : Step mac clearType (finalTest true) .skip (some reset)
  | cleared {timeout : Bool} (h : ¬ (mac.running = true ∧ timeout = true)) :
    Step mac clearType (finalTest timeout) .skip none
  | reset : Step mac clearType reset .clearCount (some notify)
  | notify : Step mac clearType notify .notify none

/-- The edges of `clearThreads(clearType, stickyInterrupt)` in thread `i`, the join of each handle
included. -/
inductive ClearPc.Step (pool : List Thread) (mac : Macro) (i : ThreadId) (clearType : Interrupt)
    {stickyInterrupt : Bool} :
    ClearPc stickyInterrupt → Access → Option (ClearPc stickyInterrupt) → Prop
  | dequeue {p p' : DequeuePc} {a : Access} (h : p.Step clearType a (some p')) :
    Step pool mac i clearType (dequeue p) a (some (dequeue p'))
  | dequeued {p : DequeuePc} {a : Access} (h : p.Step clearType a none)
      (hs : stickyInterrupt = false) :
    Step pool mac i clearType (dequeue p) a (some (wait hs .lock))
  | dequeuedSticky {p : DequeuePc} {a : Access} (h : p.Step clearType a none)
      (hs : stickyInterrupt = true) :
    Step pool mac i clearType (dequeue p) a (some (sticky hs .runningTest))
  | wait {hs : stickyInterrupt = false} {p p' : WaitPc} {a : Access}
      (h : p.Step mac (!mac.running) a (some p')) :
    Step pool mac i clearType (wait hs p) a (some (wait hs p'))
  | waited {hs : stickyInterrupt = false} {p : WaitPc} {a : Access}
      (h : p.Step mac (!mac.running) a none) :
    Step pool mac i clearType (wait hs p) a (some joinAll)
  | sticky {hs : stickyInterrupt = true} {p p' : StickyPc} {a : Access}
      (h : p.Step mac clearType a (some p')) :
    Step pool mac i clearType (sticky hs p) a (some (sticky hs p'))
  | cleared {hs : stickyInterrupt = true} {p : StickyPc} {a : Access}
      (h : p.Step mac clearType a none) :
    Step pool mac i clearType (sticky hs p) a (some joinAll)
  | joinAll : Step pool mac i clearType joinAll .skip (some (join mac.threads))
  | join {w : ThreadId} {rest : List ThreadId}
      (h : w = i ∨ pool[w]?.all Thread.ended = true) :
    Step pool mac i clearType (join (w :: rest)) .skip (some (join rest))
  | joined : Step pool mac i clearType (join []) .clearThreads none

/-- The edges of `disableEverything`: those of its parts, and those between them. -/
inductive DisablePc.Step (pool : List Thread) (mac : Macro) (i : ThreadId) :
    DisablePc → Access → Option DisablePc → Prop
  | dequeue {p p' : DequeuePc} {a : Access} (h : p.Step .disable a (some p')) :
    Step pool mac i (dequeue p) a (some (dequeue p'))
  | dequeued {p : DequeuePc} {a : Access} (h : p.Step .disable a none) :
    Step pool mac i (dequeue p) a (some remove)
  | remove : Step pool mac i remove .removeDispatch (some (clear (.dequeue .queued)))
  | clear {p p' : ClearPc true} {a : Access} (h : p.Step pool mac i .disable a (some p')) :
    Step pool mac i (clear p) a (some (clear p'))
  | cleared {p : ClearPc true} {a : Access} (h : p.Step pool mac i .disable a none) :
    Step pool mac i (clear p) a none

/-- The edges of `resetThread`, created by call `origin`. -/
inductive ResetPc.Step (pool : List Thread) (mac : Macro) (m : MacroId) (i origin : ThreadId) :
    ResetPc → Access → ResetPc → List Event → Prop
  | readPrev : Step pool mac m i origin readPrev .skip (dequeue mac.interruptor .queued) []
  | dequeue {prev : Interrupt} {p p' : DequeuePc} {a : Access}
      (h : p.Step .interruptAll a (some p')) :
    Step pool mac m i origin (dequeue prev p) a (dequeue prev p') []
  | dequeued {prev : Interrupt} {p : DequeuePc} {a : Access} (h : p.Step .interruptAll a none) :
    Step pool mac m i origin (dequeue prev p) a (runningTest prev) []
  | running {prev : Interrupt} (h : mac.running = true) :
    Step pool mac m i origin (runningTest prev) .skip (clear prev (.dequeue .queued)) []
  | notRunning {prev : Interrupt} (h : mac.running = false) :
    Step pool mac m i origin (runningTest prev) .skip (prevTest prev) []
  | clear {prev : Interrupt} {p p' : ClearPc false} {a : Access}
      (h : p.Step pool mac i .interruptAll a (some p')) :
    Step pool mac m i origin (clear prev p) a (clear prev p') []
  | cleared {prev : Interrupt} {p : ClearPc false} {a : Access}
      (h : p.Step pool mac i .interruptAll a none) :
    Step pool mac m i origin (clear prev p) a (prevTest prev) []
  | restore {prev : Interrupt} (h : prev ≠ .disable) :
    Step pool mac m i origin (prevTest prev) .skip (set .readPrev) []
  | keep : Step pool mac m i origin (prevTest .disable) .skip finished []
  | set {p p' : SetPc .continue} {a : Access} (h : p.Step m mac i a (some p') [] []) :
    Step pool mac m i origin (set p) a (set p') (if p.resumes mac then [.resumed m origin] else [])
  | setDone {p : SetPc .continue} {a : Access} (h : p.Step m mac i a none [] []) :
    Step pool mac m i origin (set p) a finished (if p.resumes mac then [.resumed m origin] else [])

/-- The edges of `copy(other)`: those of its parts, and those between them. -/
inductive CopyPc.Step (pool : List Thread) (mac : Macro) (m other : MacroId) (i : ThreadId) :
    CopyPc → Access → Option CopyPc → Prop
  | same (h : m = other) : Step pool mac m other i selfTest .skip none
  | differs (h : m ≠ other) :
    Step pool mac m other i selfTest .skip (some (disable (.dequeue .queued)))
  | disable {p p' : DisablePc} {a : Access} (h : p.Step pool mac i a (some p')) :
    Step pool mac m other i (disable p) a (some (disable p'))
  | disabled {p : DisablePc} {a : Access} (h : p.Step pool mac i a none) :
    Step pool mac m other i (disable p) a (some assign)
  | assign : Step pool mac m other i assign (.assign other) (some (limit .clamp))
  | limit {p p' : LimitPc} {a : Access} (h : p.Step mac a (some p')) :
    Step pool mac m other i (limit p) a (some (limit p'))
  | limited {p : LimitPc} {a : Access} (h : p.Step mac a none) :
    Step pool mac m other i (limit p) a (some apply)
  | apply : Step pool mac m other i apply (.block .applyDispatch) none

/-- The edges of the client calls in thread `i`, with the threads that they create. -/
inductive CallPc.Step (mem : Memory) (pool : List Thread) (m : MacroId) (i : ThreadId) :
    CallPc → Access → CallPc → List Thread → List Event → Prop
  | start {p p' : StartPc} {a : Access} {ts : List Thread} {ev : List Event}
      (h : p.Step mem m i pool.length a (some p') ts ev) :
    Step mem pool m i (start p) a (start p') ts ev
  | started {p : StartPc} {a : Access} {ts : List Thread} {ev : List Event}
      (h : p.Step mem m i pool.length a none ts ev) :
    Step mem pool m i (start p) a returned ts ev
  | inRange {val : ℤ} {v : Interrupt} (h : Interrupt.ofCode? val = some v) :
    Step mem pool m i (checkInterruptor val) .skip (setInterruptor v .readPrev) [] []
  | outOfRange {val : ℤ} (h : Interrupt.ofCode? val = none) :
    Step mem pool m i (checkInterruptor val) .skip returned []
      [.threw i (some ⟨.einval, "Invalid interruptor value"⟩)]
  | setInterruptor {val : Interrupt} {p p' : SetPc val} {a : Access} {ts : List Thread}
      {ev : List Event} (h : p.Step m (mem.macros m) i a (some p') ts ev) :
    Step mem pool m i (setInterruptor val p) a (setInterruptor val p') ts ev
  | setDone {val : Interrupt} {p : SetPc val} {a : Access} {ts : List Thread} {ev : List Event}
      (h : p.Step m (mem.macros m) i a none ts ev) :
    Step mem pool m i (setInterruptor val p) a returned ts ev
  | name {val : String} :
    Step mem pool m i (checkName (some val)) .skip (block (.setName val)) [] []
  | nullName : Step mem pool m i (checkName none) .skip returned []
      [.threw i (some ⟨.efault, "Null name"⟩)]
  | block {b : Block} : Step mem pool m i (block b) (.block b) returned []
      ((b.error m mem).toList.map fun error => .threw i (some error))
  | badThreadMax {val : ℕ} (h : val = 0 ∨ val > mem.threadLimit) :
    Step mem pool m i (checkThreadMax val) .skip returned []
      [.threw i (some ⟨.einval, "Invalid thread max"⟩)]
  | goodThreadMax {val : ℕ} (h : ¬ (val = 0 ∨ val > mem.threadLimit)) :
    Step mem pool m i (checkThreadMax val) .skip (storeThreadMax val) [] []
  | sameThreadMax {val : ℕ} (h : val = (mem.macros m).threadMax) :
    Step mem pool m i (storeThreadMax val) .peek returned [] []
  | storeThreadMax {val : ℕ} (h : val ≠ (mem.macros m).threadMax) :
    Step mem pool m i (storeThreadMax val) (.setThreadMax val) (limit .clamp) [] []
  | limit {p p' : LimitPc} {a : Access} (h : p.Step (mem.macros m) a (some p')) :
    Step mem pool m i (limit p) a (limit p') [] []
  | limited {p : LimitPc} {a : Access} (h : p.Step (mem.macros m) a none) :
    Step mem pool m i (limit p) a returned [] []
  | setContext {ctx : Option ContextId} :
    Step mem pool m i (setContext ctx) (.setContext ctx) returned [] []
  | setGlobalThreadLimit {val : ℕ} :
    Step mem pool m i (setGlobalThreadLimit val) (.setThreadLimit val) returned [] []
  | copy {other : MacroId} {p p' : CopyPc} {a : Access}
      (h : p.Step pool (mem.macros m) m other i a (some p')) :
    Step mem pool m i (copy other p) a (copy other p') [] []
  | copied {other : MacroId} {p : CopyPc} {a : Access}
      (h : p.Step pool (mem.macros m) m other i a none) :
    Step mem pool m i (copy other p) a returned [] []
  | destroy {p p' : DisablePc} {a : Access} (h : p.Step pool (mem.macros m) i a (some p')) :
    Step mem pool m i (destroy p) a (destroy p') [] []
  | destroyed {p : DisablePc} {a : Access} (h : p.Step pool (mem.macros m) i a none) :
    Step mem pool m i (destroy p) a returned [] []

/-- The edges of thread `i` in configuration `c`: those of its worker, its reset thread or its call.
-/
inductive Thread.Step (c : Config Memory Thread) (i : ThreadId) : Thread → Move → Prop
  | worker {m : MacroId} {origin : Option ThreadId} {pc pc' : RunPc} {a : Access}
      {ev : List Event} (h : pc.Step c.shared m i a pc' ev) :
    Step c i (worker m origin pc) ⟨a, worker m origin pc', [], ev⟩
  | reset {m : MacroId} {origin : ThreadId} {pc pc' : ResetPc} {a : Access} {ev : List Event}
      (h : pc.Step c.pool (c.shared.macros m) m i origin a pc' ev) :
    Step c i (reset m origin pc) ⟨a, reset m origin pc', [], ev⟩
  | call {m : MacroId} {pc pc' : CallPc} {a : Access} {ts : List Thread} {ev : List Event}
      (h : pc.Step c.shared c.pool m i a pc' ts ev) :
    Step c i (call m pc) ⟨a, call m pc', ts, ev⟩

/-! ## Every move is an edge -/

section

variable {mac : Macro} {mem : Memory} {m : MacroId} {i : ThreadId} {k : Bool} {mv : Move}
  {done : Access → Move}

/-- Every move of `limitMaxThreads` is one of its edges. -/
theorem LimitPc.step_of_move (mac : Macro) (goto : LimitPc → Access → Move)
    (done : Access → Move) (p : LimitPc) :
    (∃ p' a, p.Step mac a (some p') ∧ p.move mac goto done = goto p' a) ∨
      ∃ a, p.Step mac a none ∧ p.move mac goto done = done a := by
  cases p with
  | clamp => exact .inl ⟨_, _, .clamp, rfl⟩
  | store => exact .inr ⟨_, .store, rfl⟩
  | load =>
    by_cases h : toUnsigned mac.queued > mac.threadMax
    · exact .inl ⟨_, _, .exceeds h, if_pos h⟩
    · exact .inr ⟨_, .fits h, if_neg h⟩

/-- Every move of `dequeue` is one of its edges. -/
theorem DequeuePc.step_of_move (val : Interrupt) (goto : DequeuePc → Access → Move)
    (done : Access → Move) (p : DequeuePc) :
    (∃ p' a, p.Step val a (some p') ∧ p.move val goto done = goto p' a) ∨
      ∃ a, p.Step val a none ∧ p.move val goto done = done a := by
  cases p with
  | queued => exact .inl ⟨_, _, .queued, rfl⟩
  | interruptor => exact .inl ⟨_, _, .interruptor, rfl⟩
  | notify => exact .inr ⟨_, .notify, rfl⟩

/-- Every move of a wait is one of its edges. -/
theorem WaitPc.step_of_move {predicate : Bool} {goto : WaitPc → Access → Move} {p : WaitPc}
    (h : p.move mac k predicate goto done = some mv) :
    (∃ p' a, p.Step mac predicate a (some p') ∧ mv = goto p' a) ∨
      ∃ a, p.Step mac predicate a none ∧ mv = done a := by
  cases p with
  | lock => exact .inl ⟨_, _, .lock, (Option.some.inj h).symm⟩
  | sleep => exact .inl ⟨_, _, .sleep, (Option.some.inj h).symm⟩
  | test =>
    obtain rfl := Option.some.inj h
    cases predicate with
    | true => exact .inr ⟨_, .holds rfl, rfl⟩
    | false => exact .inl ⟨_, _, .fails rfl, rfl⟩
  | asleep n =>
    rw [move] at h
    split at h
    · cases h
    · exact .inl ⟨_, _, .wake, (Option.some.inj h).symm⟩

/-- Every move of `setInterruptor` is one of its edges. -/
theorem SetPc.step_of_move (m : MacroId) {val : Interrupt} (mac : Macro) (i : ThreadId)
    (k : Bool) (wrap : SetPc val → Thread) (ret : Thread) (evs : List Event) (p : SetPc val) :
    (∃ p' a ev, p.Step m mac i a (some p') [] ev ∧
        p.move m mac i k (fun p a => ⟨a, wrap p, [], []⟩) (fun a => ⟨a, ret, [], evs⟩) =
          ⟨a, wrap p', [], ev⟩) ∨
      ∃ a ts ev, p.Step m mac i a none ts ev ∧
        p.move m mac i k (fun p a => ⟨a, wrap p, [], []⟩) (fun a => ⟨a, ret, [], evs⟩) =
          ⟨a, ret, ts, ev ++ evs⟩ := by
  cases p with
  | readPrev => exact .inl ⟨_, _, _, .readPrev, rfl⟩
  | compare prev =>
    by_cases h : val = mac.interruptor
    · exact .inr ⟨_, _, _, .same h, by simp [move, h]⟩
    · exact .inl ⟨_, _, _, .differs h, by simp [move, h]⟩
  | store prev =>
    -- the block ends the call unless the dispatch is to be applied or a thread to be created
    by_cases h : prev = .disable ∨ val = .disable
    · exact .inl ⟨_, _, _, .storeApply h, by simp [move, h]⟩
    · by_cases hs : (mac.storeInterruptor val).2 = true
      · exact .inl ⟨_, _, _, .storeReset h hs, by simp only [move, if_neg h, dif_pos hs]; simp⟩
      · exact .inr ⟨_, _, _, .storeDone h (eq_false_of_ne_true hs), by
          simp only [move, if_neg h, dif_neg hs]⟩
  | apply spawnResetThread h =>
    cases spawnResetThread with
    | true => exact .inl ⟨_, _, _, .applyReset, rfl⟩
    | false => exact .inr ⟨_, _, _, .applyDone, rfl⟩
  | spawnReset h =>
    cases k with
    | true => exact .inr ⟨_, _, _, .spawnReset, rfl⟩
    | false => exact .inr ⟨_, _, _, .spawnFails, rfl⟩

/-- `setInterruptor(CONTINUE)` spawns nothing and is not recorded. -/
theorem SetPc.Step.quiet {p : SetPc .continue} {q : Option (SetPc .continue)} {a : Access}
    {ts : List Thread} {ev : List Event} (h : p.Step m mac i a q ts ev) : ts = [] ∧ ev = [] := by
  cases h with
  | spawnReset | spawnFails =>
    next h => cases h
  | _ => exact ⟨rfl, rfl⟩

/-- Every move of `run` is one of its edges. -/
theorem RunPc.step_of_move {wrap : RunPc → Thread} {p : RunPc}
    (h : p.move mem m i k (fun pc a => ⟨a, wrap pc, [], []⟩) = some mv) :
    ∃ a pc' ev, p.Step mem m i a pc' ev ∧ mv = ⟨a, wrap pc', [], ev⟩ := by
  cases p with
  | count => cases h; exact ⟨_, _, _, .count, rfl⟩
  | notifyCount => cases h; exact ⟨_, _, _, .notifyCount, rfl⟩
  | consume inLoop p =>
    cases p with
    | test =>
      by_cases hi : (mem.macros m).interruptor = .interrupt
      · rw [move, ConsumePc.move, if_neg (not_not.mpr hi)] at h
        cases h
        exact ⟨_, _, _, .consumeTest hi, rfl⟩
      · rw [move, ConsumePc.move, if_pos hi] at h
        cases h
        exact ⟨_, _, _, .notInterrupted hi (.inl ⟨rfl, rfl⟩), rfl⟩
    | retest =>
      by_cases hi : (mem.macros m).interruptor = .interrupt
      · rw [move, ConsumePc.move, if_neg (not_not.mpr hi)] at h
        cases h
        exact ⟨_, _, _, .interrupted hi, rfl⟩
      · rw [move, ConsumePc.move, if_pos hi] at h
        cases h
        exact ⟨_, _, _, .notInterrupted hi (.inr ⟨rfl, rfl⟩), rfl⟩
    | set p =>
      obtain rfl := Option.some.inj h
      -- the return of `setInterruptor` is the return of `consumeInterrupt`
      rcases SetPc.step_of_move m (mem.macros m) i k
        (fun p => wrap (consume inLoop (.set p))) (wrap uncount) [.consumed m i] p with
        ⟨p', a, ev, hs, he⟩ | ⟨a, ts, ev, hs, he⟩
      · obtain ⟨-, rfl⟩ := hs.quiet
        exact ⟨_, _, _, .consumeSet hs, he⟩
      · obtain ⟨rfl, rfl⟩ := hs.quiet
        exact ⟨_, _, _, .consumed hs, he⟩
  | signalsTest =>
    obtain rfl := Option.some.inj h
    by_cases hs : (mem.macros m).signals = []
    · exact ⟨_, _, _, .noSignals hs, if_pos hs⟩
    · exact ⟨_, _, _, .someSignals hs, if_neg hs⟩
  | pause p =>
    cases p with
    | test =>
      obtain rfl := Option.some.inj h
      by_cases hp : (mem.macros m).interruptor = .pause
      · exact ⟨_, _, _, .paused hp, if_pos hp⟩
      · exact ⟨_, _, _, .notPaused hp, if_neg hp⟩
    | loop p =>
      rw [move, PausePc.move] at h
      rcases WaitPc.step_of_move h with ⟨p', a, hs, rfl⟩ | ⟨a, hs, rfl⟩
      · exact ⟨_, _, _, .pauseWait hs, rfl⟩
      · exact ⟨_, _, _, .pauseOver hs, rfl⟩
  | loopTest =>
    obtain rfl := Option.some.inj h
    by_cases hi : Interrupt.interruptAll.code ≤ (mem.macros m).interruptor.code
    · exact ⟨_, _, _, .loopBreak hi, if_pos hi⟩
    · exact ⟨_, _, _, .loopGo hi, if_neg hi⟩
  | idleTest =>
    obtain rfl := Option.some.inj h
    by_cases hq : (mem.macros m).queued ≤ 0
    · exact ⟨_, _, _, .idle hq, if_pos hq⟩
    · exact ⟨_, _, _, .notIdle hq, if_neg hq⟩
  | stickyTest =>
    obtain rfl := Option.some.inj h
    by_cases hs : (mem.macros m).sticky = true
    · exact ⟨_, _, _, .sticky hs, if_pos hs⟩
    · exact ⟨_, _, _, .notSticky (eq_false_of_ne_true hs), if_neg hs⟩
  | countTest =>
    obtain rfl := Option.some.inj h
    by_cases hc : toSigned (mem.macros m).threadCount > 1
    · exact ⟨_, _, _, .surplus hc, if_pos hc⟩
    · exact ⟨_, _, _, .lastOne hc, if_neg hc⟩
  | decTest =>
    obtain rfl := Option.some.inj h
    by_cases hq : (mem.macros m).queued ≤ 0
    · exact ⟨_, _, _, .declined hq, if_pos hq⟩
    · exact ⟨_, _, _, .accepted hq, if_neg hq⟩
  | decrement => cases h; exact ⟨_, _, _, .decrement, rfl⟩
  | limit p =>
    obtain rfl := Option.some.inj h
    rcases LimitPc.step_of_move (mem.macros m)
      (fun p a => ⟨a, wrap (limit p), [], []⟩)
      (fun a => ⟨a, wrap dispatchSignals, [], []⟩) p with ⟨p', a, hs, he⟩ | ⟨a, hs, he⟩
    · exact ⟨_, _, _, .limit hs, he⟩
    · exact ⟨_, _, _, .limited hs, he⟩
  | dispatchSignals => cases h; exact ⟨_, _, _, .dispatchSignals, rfl⟩
  | breakTest rest =>
    cases rest with
    | nil => cases h; exact ⟨_, _, _, .passOver, rfl⟩
    | cons s rest =>
      obtain rfl := Option.some.inj h
      by_cases hi : Interrupt.interruptAll.code ≤ (mem.macros m).interruptor.code
      · exact ⟨_, _, _, .passBreak hi, if_pos hi⟩
      · exact ⟨_, _, _, .breakTest hi, if_neg hi⟩
  | skipTest s rest =>
    obtain rfl := Option.some.inj h
    by_cases hi : Interrupt.interrupt.code ≤ (mem.macros m).interruptor.code
    · exact ⟨_, _, _, .skip hi, if_pos hi⟩
    · exact ⟨_, _, _, .skipTest hi, if_neg hi⟩
  | deliver s rest =>
    cases s with
    | none => cases h; exact ⟨_, _, _, .nullSignal, rfl⟩
    | some s => cases h; exact ⟨_, _, _, .deliver, rfl⟩
  | delivering rest =>
    cases k with
    | true => cases h; exact ⟨_, _, _, .delivered, rfl⟩
    | false => cases h; exact ⟨_, _, _, .threw, rfl⟩
  | uncount => cases h; exact ⟨_, _, _, .uncount, rfl⟩
  | release => cases h; exact ⟨_, _, _, .release, rfl⟩
  | notifyDone => cases h; exact ⟨_, _, _, .notifyDone, rfl⟩
  | finished => cases h

/-- Every move of `start` is one of its edges. -/
theorem StartPc.step_of_move (mem : Memory) (m : MacroId) (i w : ThreadId) (k : Bool)
    (wrap : StartPc → Thread) (ret : Thread) (p : StartPc) :
    (∃ p' a ts ev, p.Step mem m i w a (some p') ts ev ∧
        p.move mem m i w k (fun p a => ⟨a, wrap p, [], []⟩) (fun a => ⟨a, ret, [], []⟩) =
          ⟨a, wrap p', ts, ev⟩) ∨
      ∃ a, p.Step mem m i w a none [] [] ∧
        p.move mem m i w k (fun p a => ⟨a, wrap p, [], []⟩) (fun a => ⟨a, ret, [], []⟩) =
          ⟨a, ret, [], []⟩ := by
  cases p with
  | lock => exact .inl ⟨_, _, _, _, .lock, rfl⟩
  | switch =>
    left
    rw [move]
    cases hi : (mem.macros m).interruptor with
    | «continue» => exact ⟨_, _, _, _, .enabled (.inl hi), rfl⟩
    | pause => exact ⟨_, _, _, _, .enabled (.inr hi), rfl⟩
    | interrupt => exact ⟨_, _, _, _, .interrupted hi, rfl⟩
    | interruptAll => exact ⟨_, _, _, _, .disabled (.inl hi), rfl⟩
    | disable => exact ⟨_, _, _, _, .disabled (.inr hi), rfl⟩
  | cancel => exact .inl ⟨_, _, _, _, .cancel, rfl⟩
  | cancelNotify => exact .inl ⟨_, _, _, _, .cancelNotify, rfl⟩
  | roomTest =>
    by_cases h : (mem.macros m).threadCount < (mem.macros m).threadMax
    · exact .inl ⟨_, _, _, _, .admitted h, if_pos h⟩
    · exact .inl ⟨_, _, _, _, .full h, if_neg h⟩
  | reserve =>
    by_cases h : mem.activeThreadCount ≥ mem.threadLimit
    · exact .inl ⟨_, _, _, _, .noSlot h, if_pos h⟩
    · exact .inl ⟨_, _, _, _, .reserve h, if_neg h⟩
  | incTest =>
    by_cases h : toUnsigned (mem.macros m).queued < (mem.macros m).threadMax
    · exact .inl ⟨_, _, _, _, .room h, if_pos h⟩
    · exact .inl ⟨_, _, _, _, .noRoom h, if_neg h⟩
  | increment => exact .inl ⟨_, _, _, _, .increment, rfl⟩
  | incLimit p =>
    rcases LimitPc.step_of_move (mem.macros m)
      (fun p a => ⟨a, wrap (incLimit p), [], []⟩)
      (fun a => ⟨a, wrap retTest, [], []⟩) p with ⟨p', a, hs, he⟩ | ⟨a, hs, he⟩
    · exact .inl ⟨_, _, _, _, .incLimit hs, he⟩
    · exact .inl ⟨_, _, _, _, .incLimited hs, he⟩
  | retTest =>
    by_cases h : toUnsigned (mem.macros m).queued > (mem.macros m).threadMax
    · exact .inl ⟨_, _, _, _, .above h, if_pos h⟩
    · exact .inl ⟨_, _, _, _, .notAbove h, if_neg h⟩
  | zeroTest =>
    by_cases h : (mem.macros m).queued = 0
    · exact .inl ⟨_, _, _, _, .zero h, if_pos h⟩
    · exact .inl ⟨_, _, _, _, .notZero h, if_neg h⟩
  | refuse => exact .inl ⟨_, _, _, _, .refuse, rfl⟩
  | spawn =>
    cases k with
    | true => exact .inl ⟨_, _, _, _, .spawn, rfl⟩
    | false => exact .inl ⟨_, _, _, _, .spawnThrows, rfl⟩
  | abandon => exact .inl ⟨_, _, _, _, .abandon, rfl⟩
  | fail => exact .inl ⟨_, _, _, _, .fail, rfl⟩
  | limit p =>
    rcases LimitPc.step_of_move (mem.macros m)
      (fun p a => ⟨a, wrap (limit p), [], []⟩)
      (fun a => ⟨a, ret, [], []⟩) p with ⟨p', a, hs, he⟩ | ⟨a, hs, he⟩
    · exact .inl ⟨_, _, _, _, .limit hs, he⟩
    · exact .inr ⟨_, .limited hs, he⟩
  | leave => exact .inr ⟨_, .leave, rfl⟩

/-- Every move of `clearThreadsSticky` is one of its edges. -/
theorem StickyPc.step_of_move {clearType : Interrupt} {goto : StickyPc → Access → Move}
    {p : StickyPc} (h : p.move mac k clearType goto done = some mv) :
    (∃ p' a, p.Step mac clearType a (some p') ∧ mv = goto p' a) ∨
      ∃ a, p.Step mac clearType a none ∧ mv = done a := by
  cases p with
  | runningTest =>
    obtain rfl := Option.some.inj h
    cases hr : mac.running with
    | true => exact .inl ⟨_, _, .running hr (.inl rfl), rfl⟩
    | false => exact .inl ⟨_, _, .notRunning hr (.inl rfl), rfl⟩
  | dequeue p =>
    obtain rfl := Option.some.inj h
    rcases DequeuePc.step_of_move clearType (fun p => goto (dequeue p)) (goto (wait .lock)) p with
      ⟨p', a, hs, he⟩ | ⟨a, hs, he⟩
    · exact .inl ⟨_, _, .dequeue hs, he⟩
    · exact .inl ⟨_, _, .dequeued hs, he⟩
  | wait p =>
    rw [move] at h
    rcases WaitPc.step_of_move h with ⟨p', a, hs, rfl⟩ | ⟨a, hs, rfl⟩
    · exact .inl ⟨_, _, .wait hs, rfl⟩
    · exact .inl ⟨_, _, .waited hs, rfl⟩
  | again =>
    obtain rfl := Option.some.inj h
    cases hr : mac.running with
    | true => exact .inl ⟨_, _, .running hr (.inr rfl), rfl⟩
    | false => exact .inl ⟨_, _, .notRunning hr (.inr ⟨rfl, rfl⟩), rfl⟩
  | finalTest timeout =>
    obtain rfl := Option.some.inj h
    by_cases ht : mac.running = true ∧ timeout = true
    · obtain ⟨hr, rfl⟩ := ht
      exact .inl ⟨_, _, .timedOut hr, if_pos ⟨hr, rfl⟩⟩
    · exact .inr ⟨_, .cleared ht, if_neg ht⟩
  | reset => cases h; exact .inl ⟨_, _, .reset, rfl⟩
  | notify => cases h; exact .inr ⟨_, .notify, rfl⟩

/-- Every move of `clearThreads` is one of its edges. -/
theorem ClearPc.step_of_move {pool : List Thread} {clearType : Interrupt} {stickyInterrupt : Bool}
    {goto : ClearPc stickyInterrupt → Access → Move} {p : ClearPc stickyInterrupt}
    (h : p.move pool mac i k clearType goto done = some mv) :
    (∃ p' a, p.Step pool mac i clearType a (some p') ∧ mv = goto p' a) ∨
      ∃ a, p.Step pool mac i clearType a none ∧ mv = done a := by
  cases p with
  | dequeue p =>
    obtain rfl := Option.some.inj h
    rcases DequeuePc.step_of_move clearType (fun p => goto (dequeue p))
      (if h : stickyInterrupt = true then goto (sticky h .runningTest)
        else goto (wait (eq_false_of_ne_true h) .lock)) p with ⟨p', a, hs, he⟩ | ⟨a, hs, he⟩
    · exact .inl ⟨_, _, .dequeue hs, he⟩
    · -- where `dequeue` returns, the flag decides how `clearThreads` waits
      left
      by_cases hst : stickyInterrupt = true
      · exact ⟨_, _, .dequeuedSticky hs hst, he.trans (by rw [dif_pos hst])⟩
      · exact ⟨_, _, .dequeued hs (eq_false_of_ne_true hst), he.trans (by rw [dif_neg hst])⟩
  | wait hs p =>
    rw [move] at h
    rcases WaitPc.step_of_move h with ⟨p', a, hw, rfl⟩ | ⟨a, hw, rfl⟩
    · exact .inl ⟨_, _, .wait hw, rfl⟩
    · exact .inl ⟨_, _, .waited hw, rfl⟩
  | sticky hs p =>
    rw [move] at h
    rcases StickyPc.step_of_move h with ⟨p', a, hw, rfl⟩ | ⟨a, hw, rfl⟩
    · exact .inl ⟨_, _, .sticky hw, rfl⟩
    · exact .inl ⟨_, _, .cleared hw, rfl⟩
  | joinAll => cases h; exact .inl ⟨_, _, .joinAll, rfl⟩
  | join rest =>
    cases rest with
    | nil => cases h; exact .inr ⟨_, .joined, rfl⟩
    | cons w rest =>
      rw [move] at h
      split at h
      next hw => cases h; exact .inl ⟨_, _, .join hw, rfl⟩
      next => cases h

/-- Every move of `disableEverything` is one of its edges. -/
theorem DisablePc.step_of_move {pool : List Thread} {goto : DisablePc → Access → Move}
    {p : DisablePc} (h : p.move pool mac i k goto done = some mv) :
    (∃ p' a, p.Step pool mac i a (some p') ∧ mv = goto p' a) ∨
      ∃ a, p.Step pool mac i a none ∧ mv = done a := by
  cases p with
  | dequeue p =>
    obtain rfl := Option.some.inj h
    rcases DequeuePc.step_of_move .disable (fun p => goto (dequeue p)) (goto remove) p with
      ⟨p', a, hs, he⟩ | ⟨a, hs, he⟩
    · exact .inl ⟨_, _, .dequeue hs, he⟩
    · exact .inl ⟨_, _, .dequeued hs, he⟩
  | remove => cases h; exact .inl ⟨_, _, .remove, rfl⟩
  | clear p =>
    rw [move] at h
    rcases ClearPc.step_of_move h with ⟨p', a, hs, rfl⟩ | ⟨a, hs, rfl⟩
    · exact .inl ⟨_, _, .clear hs, rfl⟩
    · exact .inr ⟨_, .cleared hs, rfl⟩

/-- Every move of `resetThread` is one of its edges. -/
theorem ResetPc.step_of_move {pool : List Thread} {origin : ThreadId} {wrap : ResetPc → Thread}
    {p : ResetPc}
    (h : p.move pool mac m i origin k (fun pc a => ⟨a, wrap pc, [], []⟩) = some mv) :
    ∃ a pc' ev, p.Step pool mac m i origin a pc' ev ∧ mv = ⟨a, wrap pc', [], ev⟩ := by
  cases p with
  | readPrev => cases h; exact ⟨_, _, _, .readPrev, rfl⟩
  | dequeue prev p =>
    obtain rfl := Option.some.inj h
    rcases DequeuePc.step_of_move .interruptAll (fun p a => ⟨a, wrap (dequeue prev p), [], []⟩)
      (fun a => ⟨a, wrap (runningTest prev), [], []⟩) p with ⟨p', a, hs, he⟩ | ⟨a, hs, he⟩
    · exact ⟨_, _, _, .dequeue hs, he⟩
    · exact ⟨_, _, _, .dequeued hs, he⟩
  | runningTest prev =>
    obtain rfl := Option.some.inj h
    cases hr : mac.running with
    | true => exact ⟨_, _, _, .running hr, rfl⟩
    | false => exact ⟨_, _, _, .notRunning hr, rfl⟩
  | clear prev p =>
    rw [move] at h
    rcases ClearPc.step_of_move h with ⟨p', a, hs, rfl⟩ | ⟨a, hs, rfl⟩
    · exact ⟨_, _, _, .clear hs, rfl⟩
    · exact ⟨_, _, _, .cleared hs, rfl⟩
  | prevTest prev =>
    obtain rfl := Option.some.inj h
    by_cases hp : prev = .disable
    · obtain rfl := hp
      exact ⟨_, _, _, .keep, rfl⟩
    · exact ⟨_, _, _, .restore hp, if_pos hp⟩
  | set p =>
    obtain rfl := Option.some.inj h
    rcases SetPc.step_of_move m mac i k
      (fun p => wrap (set p)) (wrap finished) [] p with
      ⟨p', a, ev, hs, he⟩ | ⟨a, ts, ev, hs, he⟩
    · obtain ⟨-, rfl⟩ := hs.quiet
      exact ⟨_, _, _, .set hs, by simp only [he, List.append_nil]⟩
    · obtain ⟨rfl, rfl⟩ := hs.quiet
      exact ⟨_, _, _, .setDone hs, by simp only [he, List.append_nil]⟩
  | finished => cases h

/-- Every move of `copy` is one of its edges. -/
theorem CopyPc.step_of_move {pool : List Thread} {other : MacroId}
    {goto : CopyPc → Access → Move} {p : CopyPc}
    (h : p.move pool mac m other i k goto done = some mv) :
    (∃ p' a, p.Step pool mac m other i a (some p') ∧ mv = goto p' a) ∨
      ∃ a, p.Step pool mac m other i a none ∧ mv = done a := by
  cases p with
  | selfTest =>
    obtain rfl := Option.some.inj h
    by_cases hm : m = other
    · exact .inr ⟨_, .same hm, if_pos hm⟩
    · exact .inl ⟨_, _, .differs hm, if_neg hm⟩
  | disable p =>
    rw [move] at h
    rcases DisablePc.step_of_move h with ⟨p', a, hs, rfl⟩ | ⟨a, hs, rfl⟩
    · exact .inl ⟨_, _, .disable hs, rfl⟩
    · exact .inl ⟨_, _, .disabled hs, rfl⟩
  | assign => cases h; exact .inl ⟨_, _, .assign, rfl⟩
  | limit p =>
    obtain rfl := Option.some.inj h
    rcases LimitPc.step_of_move mac (fun p => goto (limit p)) (goto apply) p with
      ⟨p', a, hs, he⟩ | ⟨a, hs, he⟩
    · exact .inl ⟨_, _, .limit hs, he⟩
    · exact .inl ⟨_, _, .limited hs, he⟩
  | apply => cases h; exact .inr ⟨_, .apply, rfl⟩

/-- Every move of a client call is one of its edges. -/
theorem CallPc.step_of_move {pool : List Thread} {wrap : CallPc → Thread} {p : CallPc}
    (h : p.move mem pool m i k (fun pc a => ⟨a, wrap pc, [], []⟩) = some mv) :
    ∃ a pc' ts ev, p.Step mem pool m i a pc' ts ev ∧ mv = ⟨a, wrap pc', ts, ev⟩ := by
  cases p with
  | start p =>
    obtain rfl := Option.some.inj h
    rcases StartPc.step_of_move mem m i pool.length k
      (fun p => wrap (start p)) (wrap returned) p with ⟨p', a, ts, ev, hs, he⟩ | ⟨a, hs, he⟩
    · exact ⟨_, _, _, _, .start hs, he⟩
    · exact ⟨_, _, _, _, .started hs, he⟩
  | checkInterruptor val =>
    obtain rfl := Option.some.inj h
    cases hv : Interrupt.ofCode? val with
    | some v => exact ⟨_, _, _, _, .inRange hv, rfl⟩
    | none => exact ⟨_, _, _, _, .outOfRange hv, rfl⟩
  | setInterruptor val p =>
    obtain rfl := Option.some.inj h
    rcases SetPc.step_of_move m (mem.macros m) i k
      (fun p => wrap (setInterruptor val p)) (wrap returned) [] p with
      ⟨p', a, ev, hs, he⟩ | ⟨a, ts, ev, hs, he⟩
    · exact ⟨_, _, _, _, .setInterruptor hs, he⟩
    · rw [List.append_nil] at he
      exact ⟨_, _, _, _, .setDone hs, he⟩
  | checkName val =>
    cases val with
    | some val => cases h; exact ⟨_, _, _, _, .name, rfl⟩
    | none => cases h; exact ⟨_, _, _, _, .nullName, rfl⟩
  | block b => cases h; exact ⟨_, _, _, _, .block, rfl⟩
  | checkThreadMax val =>
    obtain rfl := Option.some.inj h
    by_cases hv : val = 0 ∨ val > mem.threadLimit
    · exact ⟨_, _, _, _, .badThreadMax hv, if_pos hv⟩
    · exact ⟨_, _, _, _, .goodThreadMax hv, if_neg hv⟩
  | storeThreadMax val =>
    obtain rfl := Option.some.inj h
    by_cases hv : val = (mem.macros m).threadMax
    · exact ⟨_, _, _, _, .sameThreadMax hv, if_pos hv⟩
    · exact ⟨_, _, _, _, .storeThreadMax hv, if_neg hv⟩
  | limit p =>
    obtain rfl := Option.some.inj h
    rcases LimitPc.step_of_move (mem.macros m)
      (fun p a => ⟨a, wrap (limit p), [], []⟩)
      (fun a => ⟨a, wrap returned, [], []⟩) p with ⟨p', a, hs, he⟩ | ⟨a, hs, he⟩
    · exact ⟨_, _, _, _, .limit hs, he⟩
    · exact ⟨_, _, _, _, .limited hs, he⟩
  | setContext ctx => cases h; exact ⟨_, _, _, _, .setContext, rfl⟩
  | setGlobalThreadLimit val => cases h; exact ⟨_, _, _, _, .setGlobalThreadLimit, rfl⟩
  | copy other p =>
    rw [move] at h
    rcases CopyPc.step_of_move h with ⟨p', a, hs, rfl⟩ | ⟨a, hs, rfl⟩
    · exact ⟨_, _, _, _, .copy hs, rfl⟩
    · exact ⟨_, _, _, _, .copied hs, rfl⟩
  | destroy p =>
    rw [move] at h
    rcases DisablePc.step_of_move h with ⟨p', a, hs, rfl⟩ | ⟨a, hs, rfl⟩
    · exact ⟨_, _, _, _, .destroy hs, rfl⟩
    · exact ⟨_, _, _, _, .destroyed hs, rfl⟩
  | returned => cases h

end

/-- **Every move of a thread is one of its edges.** -/
theorem Thread.step_of_move {c : Config Memory Thread} {i : ThreadId} {k : Bool} {t : Thread}
    {mv : Move} (h : t.move c i k = some mv) : t.Step c i mv := by
  cases t with
  | worker m origin pc =>
    obtain ⟨a, pc', ev, hs, rfl⟩ := RunPc.step_of_move h
    exact .worker hs
  | reset m origin pc =>
    obtain ⟨a, pc', ev, hs, rfl⟩ := ResetPc.step_of_move h
    exact .reset hs
  | call m pc =>
    obtain ⟨a, pc', ts, ev, hs, rfl⟩ := CallPc.step_of_move h
    exact .call hs

/-- A step of the program is an edge of the thread that moves, and its access. -/
theorem step_of_program_move {c : Config Memory Thread} {i : ThreadId} {k : Bool} {t : Thread}
    {e : Effect Memory Thread Event} (h : program.move c i k t = some e) :
    ∃ a, t.Step c i ⟨a, e.next, e.spawned, e.events⟩ ∧
      a.apply t.macroId c.shared = some e.shared := by
  obtain ⟨mv, hmv, h⟩ := Option.bind_eq_some_iff.mp h
  obtain ⟨mem, hmem, rfl⟩ := Option.map_eq_some_iff.mp h
  exact ⟨mv.access, Thread.step_of_move hmv, hmem⟩

end Libmacro
