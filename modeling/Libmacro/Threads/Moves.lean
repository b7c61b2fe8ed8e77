import Libmacro.Threads.Control
import Libmacro.Interleaving.Machine

/-! # The next step of each thread

The control flow of `macro.cpp`: for every program point the access the thread makes next and
the point it goes to. A function that is called from several places takes its continuations as
arguments: `goto` for its own next point, `done` for its return.

The choice `k` resolves what a step leaves open. `true` is the usual outcome; `false` is an
exception of a signal or of a thread's creation, a spurious wake-up, or the other value of the
uninitialised `threadStatus`. -/

namespace Libmacro

open Interleaving

/-- `limitMaxThreads`: `_threadMax` is brought into range, then the queue is emptied if it is too
long; `_queued` is converted to `unsigned int` for the comparison. -/
def LimitPc.move (mac : Macro) (goto : LimitPc → Access → Move) (done : Access → Move) :
    LimitPc → Move
  | clamp => goto load .clampThreadMax
  -- the comparison and the store are two accesses, and other threads may come in between
  | load => if toUnsigned mac.queued > mac.threadMax then goto store .skip else done .skip
  | store => done .clearQueued

/-- `dequeue(val)`: the queue, the interruptor and the notification are three accesses, none of them
under the mutex. -/
def DequeuePc.move (val : Interrupt) (goto : DequeuePc → Access → Move) (done : Access → Move) :
    DequeuePc → Move
  | queued => goto interruptor .clearQueued
  | interruptor => goto notify (.writeInterruptor val)
  | notify => done .notify

/-- A wait on `_cndThreadCount`: it ends when `predicate` holds under the mutex, and sleeps until
the next notification otherwise. -/
def WaitPc.move (mac : Macro) (k : Bool) (predicate : Bool) (goto : WaitPc → Access → Move)
    (done : Access → Move) : WaitPc → Option Move
  | lock => some (goto test .lock)
  | test => some (if predicate then done .unlock else goto sleep .skip)
  | sleep => some (goto (asleep mac.notified) .unlock)
  -- `notify_all` wakes the thread, and so may nothing at all
  | asleep notified =>
    if k = true ∧ mac.notified = notified then none else some (goto lock .skip)

/-- The events of the guarded block of `setInterruptor(val)` in thread `i`: `INTERRUPT_ALL` is
resumed on the spot when nothing is running. -/
def storeEvents (m : MacroId) (val : Interrupt) (mac : Macro) (i : ThreadId) : List Event :=
  if val = .interruptAll then
    .interruptAll m i :: if mac.running then [] else [.resumed m i]
  else []

/-- `setInterruptor(val)` of macro `m` in thread `i`: nothing is done when the value is the current
one at the second read. -/
def SetPc.move (m : MacroId) {val : Interrupt} (mac : Macro) (i : ThreadId) (k : Bool)
    (goto : SetPc val → Access → Move) (done : Access → Move) : SetPc val → Move
  | readPrev => goto (compare mac.interruptor) .skip
  | compare prev => if val ≠ mac.interruptor then goto (store prev) .skip else done .skip
  -- `prev` is the value of the first read, which other writes may have overtaken
  | store prev =>
    let mv :=
      if prev = .disable ∨ val = .disable then
        goto (apply (mac.storeInterruptor val).2 mac.interruptAll_of_storeInterruptor)
          (.storeInterruptor val)
      else if h : (mac.storeInterruptor val).2 = true then
        goto (spawnReset (mac.interruptAll_of_storeInterruptor h)) (.storeInterruptor val)
      else done (.storeInterruptor val)
    { mv with events := storeEvents m val mac i ++ mv.events }
  -- `applyDispatch` takes the mutex anew, and goes by the interruptor it finds
  | apply spawnResetThread h =>
    if hs : spawnResetThread = true then goto (spawnReset (h hs)) (.block .applyDispatch)
    else done (.block .applyDispatch)
  | spawnReset _ =>
    if k then { done .skip with spawned := [.reset m i .readPrev] }
    else { done .skip with events := .threw i none :: (done .skip).events }

/-- `consumeInterrupt` of a worker, returning true to `yes` and false to `no`. -/
def ConsumePc.move (m : MacroId) (mac : Macro) (i : ThreadId) (k : Bool)
    (goto : ConsumePc → Access → Move) (yes no : Access → Move) : ConsumePc → Move
  | test => if mac.interruptor ≠ .interrupt then no .skip else goto retest .skip
  -- the guard is released before `setInterruptor` takes the mutex again
  | retest => if mac.interruptor ≠ .interrupt then no .peek else goto (set .readPrev) .peek
  | set p => p.move m mac i k (fun p => goto (set p)) yes

/-- `pauseIfInterrupted`: a test of the interruptor, and a wait as long as it is `PAUSE`. -/
def PausePc.move (mac : Macro) (k : Bool) (goto : PausePc → Access → Move)
    (done : Access → Move) : PausePc → Option Move
  | test => some (if mac.interruptor = .pause then goto (loop .lock) .skip else done .skip)
  | loop p => p.move mac k (mac.interruptor ≠ .pause) (fun p => goto (loop p)) done

/-- `run` of macro `m` in thread `i`, with `here` for its points. -/
def RunPc.move (mem : Memory) (m : MacroId) (i : ThreadId) (k : Bool)
    (goto : RunPc → Access → Move) : RunPc → Option Move
  | count => some (goto notifyCount .countThread)
  | notifyCount => some (goto (consume false .test) .notify)
  | consume inLoop p =>
    some (p.move m (mem.macros m) i k (fun p => goto (consume inLoop p))
      (fun a => { goto uncount a with events := [.consumed m i] })
      (goto (if inLoop then loopTest else signalsTest)))
  | signalsTest =>
    some (if (mem.macros m).signals = [] then goto uncount .skip else goto (pause .test) .skip)
  | pause p =>
    p.move (mem.macros m) k (fun p => goto (pause p)) (goto (consume true .test))
  -- `INTERRUPT_ALL` and `DISABLE` end the loop
  | loopTest =>
    some (if Interrupt.interruptAll.code ≤ (mem.macros m).interruptor.code then
      goto uncount .skip else goto idleTest .skip)
  | idleTest =>
    some (if (mem.macros m).queued ≤ 0 then goto stickyTest .skip else goto decTest .skip)
  | stickyTest => some (if (mem.macros m).sticky then goto countTest .skip else goto uncount .skip)
  -- a sticky worker stays on only as long as no other one is counted
  | countTest =>
    some (if toSigned (mem.macros m).threadCount > 1 then goto uncount .skip
      else goto dispatchSignals .skip)
  -- `decQueued` may decline; `run` does not look at its result and begins the pass either way
  | decTest =>
    some (if (mem.macros m).queued ≤ 0 then goto dispatchSignals .skip else goto decrement .skip)
  | decrement => some (goto (limit .clamp) .decQueued)
  | limit p => some (p.move (mem.macros m) (fun p => goto (limit p)) (goto dispatchSignals))
  | dispatchSignals =>
    some { goto (breakTest (mem.macros m).signals) .skip with events := [.pass m i] }
  | breakTest [] => some (goto (pause .test) .skip)
  | breakTest (signalPtr :: rest) =>
    some (if Interrupt.interruptAll.code ≤ (mem.macros m).interruptor.code then
      goto (pause .test) .skip else goto (skipTest signalPtr rest) .skip)
  -- `INTERRUPT` skips the signals that are left, one by one
  | skipTest signalPtr rest =>
    some (if Interrupt.interrupt.code ≤ (mem.macros m).interruptor.code then
      goto (breakTest rest) .skip else goto (deliver signalPtr rest) .skip)
  | deliver none rest => some (goto (breakTest rest) .skip)
  | deliver (some s) rest =>
    some { goto (delivering rest) .skip with events := [.deliver m i s (mem.dispatcherPtr s)] }
  -- an exception of the signal ends the run
  | delivering rest => some (if k then goto (breakTest rest) .skip else goto uncount .skip)
  | uncount => some (goto release .uncountThread)
  | release => some (goto notifyDone .releaseSlot)
  | notifyDone => some (goto finished .notify)
  | finished => none

/-- `start` of macro `m` in thread `i`; `w` is the thread a spawn creates. -/
def StartPc.move (mem : Memory) (m : MacroId) (i w : ThreadId) (k : Bool)
    (goto : StartPc → Access → Move) (done : Access → Move) : StartPc → Move
  | lock => goto switch .lock
  | switch =>
    match (mem.macros m).interruptor with
    | .continue | .pause => goto roomTest .skip
    | .interrupt => goto cancel .skip
    | .interruptAll | .disable => goto leave .skip
  | cancel => goto cancelNotify (.writeInterruptor .continue)
  | cancelNotify => goto leave .notify
  | roomTest =>
    if (mem.macros m).threadCount < (mem.macros m).threadMax then goto reserve .skip
    else goto leave .skip
  -- a refusal empties the queue, also of entries that other starts have put there
  | reserve =>
    if mem.activeThreadCount ≥ mem.threadLimit then goto fail .clearQueued
    else goto incTest .reserveSlot
  | incTest =>
    if toUnsigned (mem.macros m).queued < (mem.macros m).threadMax then goto increment .skip
    else goto retTest .skip
  | increment => goto (incLimit .clamp) .incQueued
  | incLimit p => p.move (mem.macros m) (fun p => goto (incLimit p)) (goto retTest)
  -- `incQueued` returns `_queued` as it is by now: the workers do not take the mutex for it
  | retTest =>
    if toUnsigned (mem.macros m).queued > (mem.macros m).threadMax then goto refuse .skip
    else goto zeroTest .skip
  | zeroTest => if (mem.macros m).queued = 0 then goto refuse .skip else goto spawn .skip
  | refuse => goto fail .refuseSlot
  | spawn =>
    if k then { goto leave (.pushThread w) with
      spawned := [.worker m (some i) .count], events := [.spawn m w] }
    else goto abandon .skip
  -- the exception handler gives the slot back and leaves the queue as it is
  | abandon => goto fail .abandonSlot
  | fail => goto (limit .clamp) .unlock
  | limit p => p.move (mem.macros m) (fun p => goto (limit p)) done
  | leave => done .unlock

/-- `clearThreadsSticky(clearType)`: it dequeues and waits as long as some worker is counted;
`waitThreadsChanged` always reports `no_timeout`. -/
def StickyPc.move (mac : Macro) (k : Bool) (clearType : Interrupt)
    (goto : StickyPc → Access → Move) (done : Access → Move) : StickyPc → Option Move
  | runningTest =>
    some (if mac.running then goto (dequeue .queued) .skip else goto (finalTest !k) .skip)
  | dequeue p => some (p.move clearType (fun p => goto (dequeue p)) (goto (wait .lock)))
  | wait p => p.move mac k (!mac.running) (fun p => goto (wait p)) (goto again)
  | again =>
    some (if mac.running then goto (dequeue .queued) .skip else goto (finalTest false) .skip)
  | finalTest timeout =>
    some (if mac.running = true ∧ timeout = true then goto reset .skip else done .skip)
  | reset => some (goto notify .clearCount)
  | notify => some (done .notify)

/-- `clearThreads(clearType, stickyInterrupt)` in thread `i`. A handle is joined when its thread
has ended; the own one is detached. -/
def ClearPc.move (pool : List Thread) (mac : Macro) (i : ThreadId) (k : Bool)
    (clearType : Interrupt) {stickyInterrupt : Bool}
    (goto : ClearPc stickyInterrupt → Access → Move) (done : Access → Move) :
    ClearPc stickyInterrupt → Option Move
  | dequeue p => some (p.move clearType (fun p => goto (dequeue p))
      (if h : stickyInterrupt = true then goto (sticky h .runningTest)
        else goto (wait (eq_false_of_ne_true h) .lock)))
  | wait h p => p.move mac k (!mac.running) (fun p => goto (wait h p)) (goto joinAll)
  | sticky h p => p.move mac k clearType (fun p => goto (sticky h p)) (goto joinAll)
  -- the handles there are now are joined; those pushed meanwhile go with `clear` at the end
  | joinAll => some (goto (join mac.threads) .skip)
  | join [] => some (done .clearThreads)
  -- the pool says whether the thread behind a handle has ended
  | join (w :: rest) =>
    if w = i ∨ pool[w]?.all Thread.ended = true then some (goto (join rest) .skip) else none

/-- `disableEverything`: the queue, the registrations and the threads go, in this order. -/
def DisablePc.move (pool : List Thread) (mac : Macro) (i : ThreadId) (k : Bool)
    (goto : DisablePc → Access → Move) (done : Access → Move) : DisablePc → Option Move
  | dequeue p => some (p.move .disable (fun p => goto (dequeue p)) (goto remove))
  | remove => some (goto (clear (.dequeue .queued)) .removeDispatch)
  | clear p => p.move pool mac i k .disable (fun p => goto (clear p)) done

/-- The step of `setInterruptor(CONTINUE)` that makes the value `CONTINUE`, or finds it so. -/
def SetPc.resumes {val : Interrupt} (mac : Macro) : SetPc val → Bool
  | compare _ => mac.interruptor = .continue
  | store _ => true
  | _ => false

/-- `resetThread` of macro `m`, created by call `origin`: it empties the queue, waits for the
workers and sets `CONTINUE`. -/
def ResetPc.move (pool : List Thread) (mac : Macro) (m : MacroId) (i origin : ThreadId) (k : Bool)
    (goto : ResetPc → Access → Move) : ResetPc → Option Move
  | readPrev => some (goto (dequeue mac.interruptor .queued) .skip)
  | dequeue prev p =>
    some (p.move .interruptAll (fun p => goto (dequeue prev p)) (goto (runningTest prev)))
  | runningTest prev =>
    some (if mac.running then goto (clear prev (.dequeue .queued)) .skip
      else goto (prevTest prev) .skip)
  | clear prev p =>
    p.move pool mac i k .interruptAll (fun p => goto (clear prev p)) (goto (prevTest prev))
  -- a value that was stored in the meantime is not looked at
  | prevTest prev =>
    some (if prev ≠ .disable then goto (set .readPrev) .skip else goto finished .skip)
  | set p =>
    let mv := p.move m mac i k (fun p => goto (set p)) (goto finished)
    some { mv with events := (if p.resumes mac then [.resumed m origin] else []) ++ mv.events }
  | finished => none

/-- `copy(other)` of macro `m`: after disabling it, one guarded block assigns all fields. -/
def CopyPc.move (pool : List Thread) (mac : Macro) (m other : MacroId) (i : ThreadId) (k : Bool)
    (goto : CopyPc → Access → Move) (done : Access → Move) : CopyPc → Option Move
  | selfTest =>
    some (if m = other then done .skip else goto (disable (.dequeue .queued)) .skip)
  | disable p => p.move pool mac i k (fun p => goto (disable p)) (goto assign)
  | assign => some (goto (limit .clamp) (.assign other))
  | limit p => some (p.move mac (fun p => goto (limit p)) (goto apply))
  | apply => some (done (.block .applyDispatch))

/-- A client call on macro `m`: checks of the arguments first, then the steps of the member
function. -/
def CallPc.move (mem : Memory) (pool : List Thread) (m : MacroId) (i : ThreadId) (k : Bool)
    (goto : CallPc → Access → Move) : CallPc → Option Move
  | start p => some (p.move mem m i pool.length k (fun p => goto (start p)) (goto returned))
  -- the argument is checked before the mutex is taken
  | checkInterruptor val =>
    some (match Interrupt.ofCode? val with
      | some val => goto (setInterruptor val .readPrev) .skip
      | none => { goto returned .skip with
          events := [.threw i (some ⟨.einval, "Invalid interruptor value"⟩)] })
  | setInterruptor val p =>
    some (p.move m (mem.macros m) i k (fun p => goto (setInterruptor val p)) (goto returned))
  | checkName (some val) => some (goto (block (.setName val)) .skip)
  | checkName none => some { goto returned .skip with
      events := [.threw i (some ⟨.efault, "Null name"⟩)] }
  | block b => some { goto returned (.block b) with
      events := (b.error m mem).toList.map fun error => .threw i (some error) }
  | checkThreadMax val =>
    some (if val = 0 ∨ val > mem.threadLimit then { goto returned .skip with
        events := [.threw i (some ⟨.einval, "Invalid thread max"⟩)] }
      else goto (storeThreadMax val) .skip)
  -- `limitMaxThreads` runs when the guard of the store is gone
  | storeThreadMax val =>
    some (if val = (mem.macros m).threadMax then goto returned .peek
      else goto (limit .clamp) (.setThreadMax val))
  | limit p => some (p.move (mem.macros m) (fun p => goto (limit p)) (goto returned))
  | setContext ctx => some (goto returned (.setContext ctx))
  | setGlobalThreadLimit val => some (goto returned (.setThreadLimit val))
  | copy other p =>
    p.move pool (mem.macros m) m other i k (fun p => goto (copy other p)) (goto returned)
  | destroy p => p.move pool (mem.macros m) i k (fun p => goto (destroy p)) (goto returned)
  | returned => none

/-- The move of thread `i` in configuration `c`; `none` when it waits or has ended. -/
def Thread.move (c : Config Memory Thread) (i : ThreadId) (k : Bool) : Thread → Option Move
  | worker m origin pc => pc.move c.shared m i k fun pc a => ⟨a, worker m origin pc, [], []⟩
  | reset m origin pc =>
    pc.move c.pool (c.shared.macros m) m i origin k fun pc a => ⟨a, reset m origin pc, [], []⟩
  | call m pc => pc.move c.shared c.pool m i k fun pc a => ⟨a, call m pc, [], []⟩

/-- The events of a client's call; `none` for a thread a client cannot create. -/
def Thread.entry : Thread → Option (List Event)
  | worker _ none .count => some []
  | call m (.start .lock) => some [.start m]
  | call _ (.checkInterruptor _) | call _ (.checkName _) | call _ (.block _)
  | call _ (.checkThreadMax _) | call _ (.setContext _) | call _ (.setGlobalThreadLimit _)
  | call _ (.copy _ .selfTest) | call _ (.destroy (.dequeue .queued)) => some []
  | _ => none

/-- **The program**: clients call, and every thread takes its steps, in any order. -/
def program : Machine Memory Thread Bool Event where
  call _ t := t.entry
  move c i k t := (t.move c i k).bind fun mv =>
    (mv.access.apply t.macroId c.shared).map fun mem => ⟨mem, mv.next, mv.spawned, mv.events⟩

end Libmacro
