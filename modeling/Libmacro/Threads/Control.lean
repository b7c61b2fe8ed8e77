import Libmacro.Threads.Access

/-! # Where a thread stands

One type of program points for each member function that takes several steps, nested as the
functions call each other. A point names the step the thread takes next; a local variable that
is still needed is an argument of the point.

The threads of the program are the workers (`MacroImpl::run`, spawned by `start` or called
directly), the detached reset threads, and the client calls. -/

namespace Libmacro

/-- Where a thread stands in `limitMaxThreads`, which nobody protects: its callers hold the mutex or
not, and it takes none itself. -/
inductive LimitPc where
  /-- `_threadMax` is brought into its range. -/
  | clamp
  /-- `_queued > _threadMax`. -/
  | load
  /-- `_queued = 0`. -/
  | store
  deriving DecidableEq, Repr

/-- Where a thread stands in `dequeue`, which writes the queue and the interruptor without the mutex
and then notifies. -/
inductive DequeuePc where
  /-- `_queued = 0`. -/
  | queued
  /-- `_interruptor = val`. -/
  | interruptor
  /-- `_cndThreadCount.notify_all()`. -/
  | notify
  deriving DecidableEq, Repr

/-- Where a thread stands in `_cndThreadCount.wait(lock, predicate)`: the loop that tests the
predicate under the mutex and sleeps without it. -/
inductive WaitPc where
  /-- Lock the mutex. -/
  | lock
  /-- Test the predicate, the mutex held. -/
  | test
  /-- Release the mutex and fall asleep. -/
  | sleep
  /-- Asleep since `notified` notifications. -/
  | asleep (notified : ℕ)
  deriving DecidableEq, Repr

/-- Where a thread stands in `setInterruptor(val)`, after the range check: two unguarded reads, the
guarded block, and what follows it. Only `INTERRUPT_ALL` asks for a reset thread. -/
inductive SetPc (val : Interrupt) where
  /-- `prev = interruptor()`. -/
  | readPrev
  /-- `val != interruptor()`. -/
  | compare (prev : Interrupt)
  /-- The guarded block. -/
  | store (prev : Interrupt)
  /-- `applyDispatch()`. -/
  | apply (spawnResetThread : Bool) (h : spawnResetThread = true → val = .interruptAll)
  /-- Create and detach the reset thread. -/
  | spawnReset (h : val = .interruptAll)
  deriving DecidableEq

/-- Where a worker stands in `consumeInterrupt`: it tests twice, and sets `CONTINUE` after the
second test has released the mutex. -/
inductive ConsumePc where
  /-- The unguarded test. -/
  | test
  /-- The test under the mutex. -/
  | retest
  /-- `setInterruptor(CONTINUE)`. -/
  | set (p : SetPc .continue)
  deriving DecidableEq

/-- Where a worker stands in `pauseIfInterrupted`: one test outside the mutex, then the wait of
`pauseLoop`. -/
inductive PausePc where
  /-- `interruptor() == PAUSE`. -/
  | test
  /-- `pauseLoop`. -/
  | loop (p : WaitPc)
  deriving DecidableEq, Repr

/-- Where a worker stands in `run`, with `runPreamble`, `decQueued`, `dispatchSignals` and
`onRunComplete` in place of their calls. -/
inductive RunPc where
  /-- `++_threadCount`. -/
  | count
  /-- `notifyThreadsChanged()` of the preamble. -/
  | notifyCount
  /-- `consumeInterrupt()` of the preamble, or of the loop. -/
  | consume (inLoop : Bool) (p : ConsumePc)
  /-- `_signals.empty()`. -/
  | signalsTest
  /-- `pauseIfInterrupted()`, of the preamble or of the loop: the loop's start comes next. -/
  | pause (p : PausePc)
  /-- `interruptor() >= INTERRUPT_ALL`. -/
  | loopTest
  /-- `isIdle()`. -/
  | idleTest
  /-- `!sticky()`. -/
  | stickyTest
  /-- `threadCount() > 1`. -/
  | countTest
  /-- `_queued <= 0` in `decQueued`. -/
  | decTest
  /-- `--_queued`. -/
  | decrement
  /-- `limitMaxThreads()` in `decQueued`. -/
  | limit (p : LimitPc)
  /-- `dispatchSignals()` is entered. -/
  | dispatchSignals
  /-- The loop of `dispatchSignals`: test for `INTERRUPT_ALL`. -/
  | breakTest (rest : List (Option SignalId))
  /-- Test for `INTERRUPT`. -/
  | skipTest (signalPtr : Option SignalId) (rest : List (Option SignalId))
  /-- The signal is dispatched or sent. -/
  | deliver (signalPtr : Option SignalId) (rest : List (Option SignalId))
  /-- Inside `dispatch` or `send`. -/
  | delivering (rest : List (Option SignalId))
  /-- `--_threadCount`. -/
  | uncount
  /-- `--g_activeThreadCount`. -/
  | release
  /-- `notifyThreadsChanged()` of `onRunComplete`. -/
  | notifyDone
  /-- `run` has returned. -/
  | finished
  deriving DecidableEq

/-- Where a call stands in `start`, with `trySpawnThread` and `incQueued` in place; the mutex is
held from `lock` to `leave` or `fail`. -/
inductive StartPc where
  /-- Lock the mutex. -/
  | lock
  /-- `switch (interruptor())`. -/
  | switch
  /-- `_interruptor = CONTINUE`. -/
  | cancel
  /-- `notify_all()` after it. -/
  | cancelNotify
  /-- `_threadCount < _threadMax`. -/
  | roomTest
  /-- The first global block. -/
  | reserve
  /-- `_queued < _threadMax` in `incQueued`. -/
  | incTest
  /-- `++_queued`. -/
  | increment
  /-- `limitMaxThreads()` in `incQueued`. -/
  | incLimit (p : LimitPc)
  /-- `incQueued() > _threadMax`. -/
  | retTest
  /-- `!_queued`. -/
  | zeroTest
  /-- The global block that refuses. -/
  | refuse
  /-- `_threads.emplace_back`. -/
  | spawn
  /-- The global block of the exception handler. -/
  | abandon
  /-- `lock.unlock()` after a failed spawn. -/
  | fail
  /-- `limitMaxThreads()` after it. -/
  | limit (p : LimitPc)
  /-- The lock is released at the end. -/
  | leave
  deriving DecidableEq, Repr

/-- Where a thread stands in `clearThreadsSticky`: it dequeues and waits in turns as long as some
worker is counted. -/
inductive StickyPc where
  /-- `running()` before the loop. -/
  | runningTest
  /-- `dequeue(clearType)`. -/
  | dequeue (p : DequeuePc)
  /-- `waitThreadsChanged()`. -/
  | wait (p : WaitPc)
  /-- `running()` at the end of the loop. -/
  | again
  /-- `running()` after it, `timeout` being the value of `threadStatus`. -/
  | finalTest (timeout : Bool)
  /-- `_threadCount = 0`. -/
  | reset
  /-- `notifyThreadsChanged()`. -/
  | notify
  deriving DecidableEq, Repr

/-- Where a thread stands in `clearThreads(clearType, stickyInterrupt)`; the flag decides whether it
waits once or in a loop. At the end it joins. -/
inductive ClearPc (stickyInterrupt : Bool) where
  /-- `dequeue(clearType)`. -/
  | dequeue (p : DequeuePc)
  /-- `waitThreadsChanged()`. -/
  | wait (h : stickyInterrupt = false) (p : WaitPc)
  /-- `clearThreadsSticky(clearType)`. -/
  | sticky (h : stickyInterrupt = true) (p : StickyPc)
  /-- `joinAllThreads` starts. -/
  | joinAll
  /-- The handles still to join. -/
  | join (rest : List ThreadId)
  deriving DecidableEq

/-- Where a call stands in `disableEverything`, which the destructor and `copy` begin with. -/
inductive DisablePc where
  /-- `dequeue(DISABLE)`. -/
  | dequeue (p : DequeuePc)
  /-- `_removeDispatch()`. -/
  | remove
  /-- `clearThreads(DISABLE, true)`. -/
  | clear (p : ClearPc true)
  deriving DecidableEq

/-- Where a reset thread stands in `resetThread`, with the interruptor that it has read at its
beginning. -/
inductive ResetPc where
  /-- `prev = _interruptor`. -/
  | readPrev
  /-- `dequeue(INTERRUPT_ALL)`. -/
  | dequeue (prev : Interrupt) (p : DequeuePc)
  /-- `running()`. -/
  | runningTest (prev : Interrupt)
  /-- `clearThreads(INTERRUPT_ALL, false)`. -/
  | clear (prev : Interrupt) (p : ClearPc false)
  /-- `prev != DISABLE`. -/
  | prevTest (prev : Interrupt)
  /-- `setInterruptor(CONTINUE)`. -/
  | set (p : SetPc .continue)
  /-- The thread has ended. -/
  | finished
  deriving DecidableEq

/-- Where a call stands in `copy(const MacroImpl &)`: the own threads are joined before the fields
of the source are assigned. -/
inductive CopyPc where
  /-- `this == &ref`. -/
  | selfTest
  /-- `disableEverything()`. -/
  | disable (p : DisablePc)
  /-- The guarded block. -/
  | assign
  /-- `limitMaxThreads()`. -/
  | limit (p : LimitPc)
  /-- `applyDispatch()`. -/
  | apply
  deriving DecidableEq

/-- A client call on a macro: the member function, its arguments, and how far it has come. -/
inductive CallPc where
  /-- `start()`, also through `act()` and `receive()`. -/
  | start (p : StartPc)
  /-- The range check of `setInterruptor(val)`. -/
  | checkInterruptor (val : ℤ)
  /-- `setInterruptor(val)`. -/
  | setInterruptor (val : Interrupt) (p : SetPc val)
  /-- The null check of `setName(val)`. -/
  | checkName (val : Option String)
  /-- A guarded setter. -/
  | block (b : Block)
  /-- The range check of `setThreadMax(val)`. -/
  | checkThreadMax (val : ℕ)
  /-- Its guarded block. -/
  | storeThreadMax (val : ℕ)
  /-- `limitMaxThreads()` at its end. -/
  | limit (p : LimitPc)
  /-- `setContext(ctx)`. -/
  | setContext (ctx : Option ContextId)
  /-- `Libmacro::setGlobalThreadLimit(val)`. -/
  | setGlobalThreadLimit (val : ℕ)
  /-- `copy(other)`. -/
  | copy (other : MacroId) (p : CopyPc)
  /-- The destructor. -/
  | destroy (p : DisablePc)
  /-- The call has returned or thrown. -/
  | returned
  deriving DecidableEq

/-- A thread with its program point. Every thread works on one macro: the one that it runs, resets
or is called on. -/
inductive Thread where
  /-- `run` of macro `m`: in a worker spawned by the `start` call `origin`, or, without origin,
  called by a client. -/
  | worker (m : MacroId) (origin : Option ThreadId) (pc : RunPc)
  /-- `resetThread` of macro `m`, created by the `setInterruptor` call `origin`. -/
  | reset (m : MacroId) (origin : ThreadId) (pc : ResetPc)
  /-- A client call on macro `m`. -/
  | call (m : MacroId) (pc : CallPc)
  deriving DecidableEq

/-- What a trace records: the calls of `start`, what becomes of them, the deliveries and the
errors. -/
inductive Event where
  /-- A client calls `start`, `act` or `receive`. -/
  | start (m : MacroId)
  /-- `trySpawnThread` created worker `w`. -/
  | spawn (m : MacroId) (w : ThreadId)
  /-- Worker `w` enters `dispatchSignals`. -/
  | pass (m : MacroId) (w : ThreadId)
  /-- Worker `w` begins to deliver a signal, to a dispatcher or by `send`. -/
  | deliver (m : MacroId) (w : ThreadId) (signalPtr : SignalId) (via : Option DispatcherId)
  /-- `consumeInterrupt` of worker `w` returns true. -/
  | consumed (m : MacroId) (w : ThreadId)
  /-- Call `c` of `setInterruptor(INTERRUPT_ALL)` has stored its value. -/
  | interruptAll (m : MacroId) (c : ThreadId)
  /-- The interruptor is `CONTINUE` as the outcome of call `c`. -/
  | resumed (m : MacroId) (c : ThreadId)
  /-- Call `c` throws: an `mcr::Error`, or the exception of a thread that cannot be created. -/
  | threw (c : ThreadId) (error : Option Error)
  deriving DecidableEq, Repr

/-- The next step of a thread: its access, where the thread stands afterwards, the threads it
creates and the events it emits. -/
structure Move where
  /-- What the step does to the memory. -/
  access : Access
  /-- The thread after the step. -/
  next : Thread
  /-- The threads it creates. -/
  spawned : List Thread := []
  /-- The events. -/
  events : List Event := []

namespace Thread

/-- The macro whose member function the thread executes. -/
@[simp] def macroId : Thread → MacroId
  | worker m _ _ | reset m _ _ | call m _ => m

/-- The thread has no step left: `run` or `resetThread` is over, or the call has returned. -/
def ended : Thread → Bool
  | worker _ _ .finished | reset _ _ .finished | call _ .returned => true
  | _ => false

end Thread

end Libmacro
