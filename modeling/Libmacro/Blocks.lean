import Libmacro.Registration

/-! # The mutex-guarded blocks of `MacroImpl`

What each public member function does while it holds `_mutex`, as one function of the memory.
`Block` lists the setters that are nothing but such a block; `storeInterruptor` is the block of
`setInterruptor`, with `handleInterruptAll` inside it, and `copyFrom` the block of `copy`. -/

namespace Libmacro

namespace Macro

/-- `MacroImpl::handleInterruptAll`: the queue is emptied; a running macro stays in
`INTERRUPT_ALL` and `true` asks for a reset thread, an idle one goes straight back to
`CONTINUE`. -/
def handleInterruptAll (mac : Macro) : Macro × Bool :=
  let mac := { mac with queued := 0, interruptor := .interruptAll, notified := mac.notified + 1 }
  if mac.running then (mac, true)
  else ({ mac with interruptor := .continue, notified := mac.notified + 1 }, false)

/-- The guarded block of `MacroImpl::setInterruptor`: store, notify, and for `INTERRUPT_ALL` the
call of `handleInterruptAll`. The flag is `spawnResetThread`. -/
def storeInterruptor (val : Interrupt) (mac : Macro) : Macro × Bool :=
  let mac := { mac with interruptor := val, notified := mac.notified + 1 }
  if val = .interruptAll then mac.handleInterruptAll else (mac, false)

/-- The first half of `MacroImpl::limitMaxThreads`: `_threadMax` is brought into `1 .. limit`,
one correction at a time. -/
def clampThreadMax (limit : ℕ) (mac : Macro) : Macro :=
  if mac.threadMax = 0 then { mac with threadMax := 1 }
  else if mac.threadMax > limit then { mac with threadMax := limit }
  else mac

/-- The interruptor that `storeInterruptor` leaves: the value, but `CONTINUE` when `INTERRUPT_ALL`
finds no run to interrupt. -/
def interruptorAfter (val : Interrupt) (mac : Macro) : Interrupt :=
  if val = .interruptAll ∧ mac.threadCount = 0 then .continue else val

variable (val : Interrupt) (mac : Macro)

/-- The value is stored, and taken back at once where `INTERRUPT_ALL` finds nothing running. -/
@[simp] theorem storeInterruptor_interruptor :
    (mac.storeInterruptor val).1.interruptor = mac.interruptorAfter val := by
  by_cases hv : val = .interruptAll
  · by_cases hc : mac.threadCount = 0 <;>
      simp [storeInterruptor, handleInterruptAll, interruptorAfter, running, hv, hc]
  · simp [storeInterruptor, interruptorAfter, hv]

/-- A reset thread is asked for by `INTERRUPT_ALL` on a running macro, and only then. -/
@[simp] theorem storeInterruptor_snd :
    (mac.storeInterruptor val).2 = (decide (val = .interruptAll) && mac.running) := by
  by_cases hv : val = .interruptAll
  · by_cases hc : mac.threadCount = 0 <;>
      simp [storeInterruptor, handleInterruptAll, running, hv, hc]
  · simp [storeInterruptor, hv]

/-- Only `INTERRUPT_ALL` asks for a reset thread. -/
theorem interruptAll_of_storeInterruptor {val : Interrupt} (mac : Macro)
    (h : (mac.storeInterruptor val).2 = true) : val = .interruptAll := by
  rw [storeInterruptor_snd] at h
  simp_all

/-- Of the values only `INTERRUPT_ALL` empties the queue, before the runs have ended. -/
@[simp] theorem storeInterruptor_queued : (mac.storeInterruptor val).1.queued =
    if val = .interruptAll then 0 else mac.queued := by
  by_cases hv : val = .interruptAll
  · by_cases hc : mac.threadCount = 0 <;>
      simp [storeInterruptor, handleInterruptAll, running, hv, hc]
  · simp [storeInterruptor, hv]

/-- `storeInterruptor` writes the interruptor, the queue and the condition variable only. -/
theorem storeInterruptor_frame : ∃ q n, (mac.storeInterruptor val).1 =
    { mac with interruptor := mac.interruptorAfter val, queued := q, notified := n } := by
  by_cases hv : val = .interruptAll
  · by_cases hc : mac.threadCount = 0 <;>
      simp [storeInterruptor, handleInterruptAll, interruptorAfter, running, hv, hc]
  · simp [storeInterruptor, interruptorAfter, hv]

/-- The block notifies those who wait for the threads to change, and takes no notification back. -/
theorem notified_le_storeInterruptor (mac : Macro) (val : Interrupt) :
    mac.notified ≤ (mac.storeInterruptor val).1.notified := by
  by_cases hv : val = .interruptAll
  · by_cases hc : mac.threadCount = 0
    · have hthrice : (mac.storeInterruptor val).1.notified = mac.notified + 3 := by
        simp [storeInterruptor, handleInterruptAll, running, hv, hc]
      omega
    · have htwice : (mac.storeInterruptor val).1.notified = mac.notified + 2 := by
        simp [storeInterruptor, handleInterruptAll, running, hv, hc]
      omega
  · simp [storeInterruptor, hv]

/-- Storing an interruptor leaves the number of counted workers alone, also where it takes the
queue away. -/
@[simp] theorem storeInterruptor_threadCount :
    (mac.storeInterruptor val).1.threadCount = mac.threadCount := by
  obtain ⟨q, n, hmac⟩ := storeInterruptor_frame val mac
  rw [hmac]

/-- Storing an interruptor leaves the maximum of workers as the client has set it. -/
@[simp] theorem storeInterruptor_threadMax :
    (mac.storeInterruptor val).1.threadMax = mac.threadMax := by
  obtain ⟨q, n, hmac⟩ := storeInterruptor_frame val mac
  rw [hmac]

/-- Storing an interruptor neither takes nor releases the mutex: it happens inside a guarded
block. -/
@[simp] theorem storeInterruptor_locked :
    (mac.storeInterruptor val).1.locked = mac.locked := by
  obtain ⟨q, n, hmac⟩ := storeInterruptor_frame val mac
  rw [hmac]

/-- Storing an interruptor leaves the signals of the macro alone. -/
@[simp] theorem storeInterruptor_signals :
    (mac.storeInterruptor val).1.signals = mac.signals := by
  obtain ⟨q, n, hmac⟩ := storeInterruptor_frame val mac
  rw [hmac]

/-- Storing an interruptor leaves the handles of the workers alone: nothing is joined by it. -/
@[simp] theorem storeInterruptor_threads :
    (mac.storeInterruptor val).1.threads = mac.threads := by
  obtain ⟨q, n, hmac⟩ := storeInterruptor_frame val mac
  rw [hmac]

variable (limit : ℕ)

/-- `clampThreadMax` writes `_threadMax`, and no other field of the macro. -/
theorem clampThreadMax_frame : ∃ n, mac.clampThreadMax limit = { mac with threadMax := n } := by
  rw [clampThreadMax]
  split_ifs
  · exact ⟨_, rfl⟩
  · exact ⟨_, rfl⟩
  · exact ⟨mac.threadMax, rfl⟩

/-- Correcting `_threadMax` against the global limit does not touch the interruptor. -/
@[simp] theorem clampThreadMax_interruptor :
    (mac.clampThreadMax limit).interruptor = mac.interruptor := by
  obtain ⟨n, hclamp⟩ := clampThreadMax_frame mac limit
  rw [hclamp]

/-- Correcting `_threadMax` does not end a worker, even where more of them run than it allows. -/
@[simp] theorem clampThreadMax_threadCount :
    (mac.clampThreadMax limit).threadCount = mac.threadCount := by
  obtain ⟨n, hclamp⟩ := clampThreadMax_frame mac limit
  rw [hclamp]

/-- Correcting `_threadMax` does not touch the mutex. -/
@[simp] theorem clampThreadMax_locked : (mac.clampThreadMax limit).locked = mac.locked := by
  obtain ⟨n, hclamp⟩ := clampThreadMax_frame mac limit
  rw [hclamp]

/-- Correcting `_threadMax` leaves the queue to `limitMaxThreads`, which cuts it afterwards. -/
@[simp] theorem clampThreadMax_queued : (mac.clampThreadMax limit).queued = mac.queued := by
  obtain ⟨n, hclamp⟩ := clampThreadMax_frame mac limit
  rw [hclamp]

/-- Correcting `_threadMax` does not touch the signals. -/
@[simp] theorem clampThreadMax_signals : (mac.clampThreadMax limit).signals = mac.signals := by
  obtain ⟨n, hclamp⟩ := clampThreadMax_frame mac limit
  rw [hclamp]

/-- Correcting `_threadMax` does not touch the handles of the workers. -/
@[simp] theorem clampThreadMax_threads : (mac.clampThreadMax limit).threads = mac.threads := by
  obtain ⟨n, hclamp⟩ := clampThreadMax_frame mac limit
  rw [hclamp]

end Macro

namespace Memory

/-- `MacroImpl::setActivators`: the registrations are removed as the old activators have them, and
made again with the new ones. -/
def setActivators (mem : Memory) (m : MacroId) (array : List SignalId) : Option Memory := do
  let reg ← mem.removeDispatch m mem.dispatchers
  let mem := { mem with dispatchers := reg }.modify m fun mac => { mac with activators := array }
  let reg ← mem.applyDispatch m mem.dispatchers
  some { mem with dispatchers := reg }

/-- `MacroImpl::setTriggers`: the registrations are renewed around the assignment, and the triggers
get this macro as their actor. -/
def setTriggers (mem : Memory) (m : MacroId) (array : List TriggerId) : Option Memory := do
  let reg ← mem.removeDispatch m mem.dispatchers
  let mem := { mem with
    dispatchers := reg
    actorPtr := array.foldl (fun actorPtr trig => Function.update actorPtr trig (some m))
      mem.actorPtr }.modify m fun mac => { mac with triggers := array }
  let reg ← mem.applyDispatch m mem.dispatchers
  some { mem with dispatchers := reg }

/-- The body of `copy` under the mutex: the fields of the source are assigned, and
`fixupTriggerActors` takes over its triggers. -/
def copyFrom (mem : Memory) (m other : MacroId) : Memory :=
  let src := mem.macros other
  { mem with
    actorPtr := src.triggers.foldl (fun actorPtr trig => Function.update actorPtr trig (some m))
      mem.actorPtr }.modify m fun mac =>
    { mac with
      activators := src.activators
      name := src.name
      signals := src.signals
      triggers := src.triggers
      blocking := src.blocking
      interruptor := src.interruptor
      sticky := src.sticky
      threadMax := src.threadMax
      context := src.context
      applyDispatchFlag := src.applyDispatchFlag }

end Memory

/-- The member functions of a macro that are one guarded block, with their arguments. -/
inductive Block where
  /-- `setBlocking`. -/
  | setBlocking (val : Bool)
  /-- `setName` with a non-null name. -/
  | setName (val : String)
  /-- `setSticky`. -/
  | setSticky (val : Bool)
  /-- `setActivators`. -/
  | setActivators (array : List SignalId)
  /-- `setSignals`. -/
  | setSignals (array : List (Option SignalId))
  /-- `setTriggers`. -/
  | setTriggers (array : List TriggerId)
  /-- `setApplyDispatchEnabled`. -/
  | setApplyDispatchEnabled (val : Bool)
  /-- `applyDispatch()`. -/
  | applyDispatch
  /-- `removeDispatch()`. -/
  | removeDispatch
  /-- `addDispatch()`. -/
  | addDispatch
  /-- `addDispatch(Signal &)`. -/
  | addDispatchSignal (signalPtr : SignalId)
  /-- `addDispatch(Trigger &)`. -/
  | addDispatchTrigger (trigPtr : TriggerId)
  /-- `addDispatch(Signal &, Trigger &)`. -/
  | addDispatchPair (signalPtr : SignalId) (trigPtr : TriggerId)
  deriving DecidableEq

namespace Block

/-- The effect of the block on the memory; `none` when it reads a null context. `setSignals`
leaves the list alone while a run is counted (see `error`). -/
def apply (m : MacroId) (mem : Memory) : Block → Option Memory
  | setBlocking val => some (mem.modify m fun mac => { mac with blocking := val })
  | setName val => some (mem.modify m fun mac => { mac with name := val })
  | setSticky val => some (mem.modify m fun mac => { mac with sticky := val })
  | setActivators array => mem.setActivators m array
  | setSignals array =>
    if (mem.macros m).threadCount > 0 then some mem
    else some (mem.modify m fun mac => { mac with signals := array })
  | setTriggers array => mem.setTriggers m array
  | setApplyDispatchEnabled val =>
    some (mem.modify m fun mac => { mac with applyDispatchFlag := val })
  | applyDispatch => (mem.applyDispatch m mem.dispatchers).map ({ mem with dispatchers := · })
  | removeDispatch => (mem.removeDispatch m mem.dispatchers).map ({ mem with dispatchers := · })
  | addDispatch => (mem.addDispatch m mem.dispatchers).map ({ mem with dispatchers := · })
  | addDispatchSignal signalPtr =>
    some { mem with dispatchers := mem.addDispatchSignal m signalPtr mem.dispatchers }
  | addDispatchTrigger trigPtr =>
    (mem.addDispatchTrigger m trigPtr mem.dispatchers).map ({ mem with dispatchers := · })
  | addDispatchPair signalPtr trigPtr =>
    some { mem with dispatchers := mem.addDispatchPair signalPtr trigPtr mem.dispatchers }

/-- The error that the block throws in this memory, if any, with its code and text. -/
def error (m : MacroId) (mem : Memory) : Block → Option Error
  | setSignals _ =>
    if (mem.macros m).threadCount > 0 then
      some ⟨.ebusy, "Cannot modify signals while macro is running"⟩
    else none
  | _ => none

end Block

/-- `setInterruptor` run to its end with nothing else going on, after its range check; the flag
says whether a reset thread is spawned. -/
def Memory.setInterruptor (mem : Memory) (m : MacroId) (val : Interrupt) :
    Option (Memory × Bool) :=
  let prev := (mem.macros m).interruptor
  if val ≠ (mem.macros m).interruptor then
    let (mac, spawnResetThread) := (mem.macros m).storeInterruptor val
    let mem := mem.modify m fun _ => mac
    if prev = .disable ∨ val = .disable then
      (Block.applyDispatch.apply m mem).map fun mem => (mem, spawnResetThread)
    else some (mem, spawnResetThread)
  else some (mem, false)

end Libmacro
