import Libmacro.Dispatcher
import Mathlib.Algebra.Group.Int.Defs
import Mathlib.Algebra.Group.Nat.Defs
import Mathlib.Logic.Function.Basic

/-! # The memory of the program

The fields of `MacroImpl`, the two global thread counters and the objects a macro refers to by
pointer (contexts, signals, triggers, dispatchers). A pointer is the number of the object it
points to, `Option` where the code allows null.

`unsigned int` values are `ℕ`; `_queued` is an `int` and is `ℤ`, with the conversion to
`unsigned int` that the comparisons with `_threadMax` make (`toUnsigned`). A counter that is
decremented at zero wraps (`uintPred`). -/

namespace Libmacro

/-- Identifies a macro: stands for its address. -/
abbrev MacroId := ℕ
/-- Identifies a `Libmacro` context: stands for its address. -/
abbrev ContextId := ℕ
/-- Identifies a dispatcher: stands for its address. -/
abbrev DispatcherId := ℕ
/-- Identifies a signal: stands for its address. -/
abbrev SignalId := ℕ
/-- Identifies a trigger: stands for its address. -/
abbrev TriggerId := ℕ
/-- Identifies a thread: its position in the pool. -/
abbrev ThreadId := ℕ

/-- `IInterrupt::Value`, in the order of the enumeration, which is the order of severity that the
comparisons of `run` use. -/
inductive Interrupt where
  /-- Able to trigger, or continue currently running. -/
  | continue
  /-- Briefly stop sending signals. -/
  | pause
  /-- One queued macro from one thread will cancel, then `continue` is set. -/
  | interrupt
  /-- All threads and the triggered queue will cancel, then `continue` is set. -/
  | interruptAll
  /-- No longer able to trigger. -/
  | disable
  deriving DecidableEq, Repr

namespace Interrupt

/-- The enumerator's number, which `interruptor() >= INTERRUPT` and its like compare. -/
def code : Interrupt → ℕ
  | .continue => 0
  | .pause => 1
  | .interrupt => 2
  | .interruptAll => 3
  | .disable => 4

/-- The enumerator of a number; `none` is the range check of `setInterruptor`, which throws. -/
def ofCode? (val : ℤ) : Option Interrupt :=
  if val < 0 ∨ val > disable.code then none
  else match val.toNat with
    | 0 => some .continue
    | 1 => some .pause
    | 2 => some .interrupt
    | 3 => some .interruptAll
    | _ => some .disable

/-- Every enumerator passes the range check and is read back. -/
@[simp] theorem ofCode?_code (v : Interrupt) : ofCode? v.code = some v := by
  cases v <;> rfl

end Interrupt

/-- The error codes that `mcr::Error` carries in the modelled functions. -/
inductive Errno where
  | einval
  | efault
  | ebusy
  | enomem
  deriving DecidableEq, Repr

/-- `mcr::Error`, with its code and its text, both as given where it is thrown. -/
structure Error where
  /-- `code()`. -/
  code : Errno
  /-- `what()`. -/
  message : String
  deriving DecidableEq, Repr

/-- The `int` to `unsigned int` conversion, modulo `2 ^ 32`: what a comparison of `_queued` with
`_threadMax` makes of `_queued`. -/
def toUnsigned (q : ℤ) : ℕ := (q % 2 ^ 32).toNat

/-- `--n` on an `unsigned int`, which wraps to the largest value at zero. -/
def uintPred (n : ℕ) : ℕ := if n = 0 then 2 ^ 32 - 1 else n - 1

/-- The `unsigned int` to `int` conversion that `threadCount()` makes on return. -/
def toSigned (n : ℕ) : ℤ := if n < 2 ^ 31 then n else n - 2 ^ 32

/-- A counter above 0 is lowered without wrapping. -/
@[simp] theorem uintPred_succ (n : ℕ) : uintPred (n + 1) = n := rfl

/-- What a dispatcher of the modelled program can hold, by its pointer: a macro or one of the
triggers. -/
inductive Receiver where
  /-- A macro, as `IReceive`. -/
  | ofMacro (m : MacroId)
  /-- A trigger. -/
  | trigger (t : TriggerId)
  deriving DecidableEq, Repr

/-- The fields of `MacroImpl`, with the values its constructor gives them; the condition variable is
its number of notifications so far. -/
structure Macro where
  /-- `_blocking`. -/
  blocking : Bool := false
  /-- `_interruptor`. -/
  interruptor : Interrupt := .disable
  /-- `_sticky`. -/
  sticky : Bool := false
  /-- `_applyDispatchFlag`. -/
  applyDispatchFlag : Bool := true
  /-- `_threadCount`. -/
  threadCount : ℕ := 0
  /-- `_threadMax`. -/
  threadMax : ℕ := 1
  /-- `_queued`. -/
  queued : ℤ := 0
  /-- `_context`. -/
  context : Option ContextId := none
  /-- `_activators`. -/
  activators : List SignalId := []
  /-- `_name`. -/
  name : String := ""
  /-- `_signals`. -/
  signals : List (Option SignalId) := []
  /-- `_triggers`. -/
  triggers : List TriggerId := []
  /-- `_mutex` is locked. -/
  locked : Bool := false
  /-- The number of `notify_all` calls on `_cndThreadCount` so far. -/
  notified : ℕ := 0
  /-- `_threads`: the handles of the spawned workers. -/
  threads : List ThreadId := []

namespace Macro

/-- `enabled()`: the interruptor has another value than `DISABLE`. -/
def enabled (mac : Macro) : Bool := mac.interruptor ≠ .disable

/-- `running()`: `threadCount()` is not 0, so some worker is counted. -/
def running (mac : Macro) : Bool := mac.threadCount ≠ 0

/-- `isEnabled()` compares with `DISABLE`, so a paused or interrupted macro counts as enabled. -/
@[simp] theorem enabled_iff {mac : Macro} : mac.enabled = true ↔ mac.interruptor ≠ .disable := by
  simp [enabled]

/-- `isRunning()` is a count of workers other than zero. -/
@[simp] theorem running_iff {mac : Macro} : mac.running = true ↔ mac.threadCount ≠ 0 := by
  simp [running]

end Macro

/-- The memory that all threads share: the static counters, the dispatchers, the triggers' actors
and the macros. -/
structure Memory where
  /-- `g_threadMax`. -/
  threadLimit : ℕ := 0x10
  /-- `g_activeThreadCount`. -/
  activeThreadCount : ℕ := 0
  /-- `genericDispatcher()` of each context. -/
  genericDispatcher : ContextId → Option DispatcherId := fun _ => none
  /-- `Signal::dispatcherPtr` of each signal. -/
  dispatcherPtr : SignalId → Option DispatcherId := fun _ => none
  /-- `Trigger::actorPtr` of each trigger. -/
  actorPtr : TriggerId → Option MacroId := fun _ => none
  /-- The dispatchers. -/
  dispatchers : DispatcherId → Dispatcher Receiver := fun _ => {}
  /-- The macros. -/
  macros : MacroId → Macro := fun _ => {}

namespace Memory

/-- Update the fields of one macro and leave everything else of the memory as it is. -/
def modify (mem : Memory) (m : MacroId) (f : Macro → Macro) : Memory :=
  { mem with macros := Function.update mem.macros m (f (mem.macros m)) }

variable (mem : Memory) (m : MacroId) (f : Macro → Macro)

/-- A change of one macro is seen at this macro. -/
@[simp] theorem modify_macros_self : (mem.modify m f).macros m = f (mem.macros m) := by
  simp [modify]

/-- A change of one macro is not seen at another one. -/
@[simp] theorem modify_macros_of_ne {m' : MacroId} (h : m' ≠ m) :
    (mem.modify m f).macros m' = mem.macros m' := by
  simp [modify, h]

/-- An update is what it makes of the macro's fields. -/
theorem modify_congr {f g : Macro → Macro} (h : f (mem.macros m) = g (mem.macros m)) :
    mem.modify m f = mem.modify m g := by
  rw [modify, modify, h]

/-- An update that keeps the fields changes nothing. -/
theorem modify_eq_self {f : Macro → Macro} (h : f (mem.macros m) = mem.macros m) :
    mem.modify m f = mem := by
  rw [modify, h, Function.update_eq_self]

/-- Two updates of a macro are one. -/
theorem modify_modify (g : Macro → Macro) :
    (mem.modify m f).modify m g = mem.modify m fun mac => g (f mac) := by
  simp [modify]

/-- A change of a macro leaves the global limit of threads alone. -/
@[simp] theorem modify_threadLimit : (mem.modify m f).threadLimit = mem.threadLimit := rfl

/-- A change of a macro leaves the global count of threads alone. -/
@[simp] theorem modify_activeThreadCount :
    (mem.modify m f).activeThreadCount = mem.activeThreadCount := rfl

/-- A change of a macro leaves the dispatchers of the contexts alone. -/
@[simp] theorem modify_genericDispatcher :
    (mem.modify m f).genericDispatcher = mem.genericDispatcher := rfl

/-- A change of a macro leaves the dispatchers of the signals alone. -/
@[simp] theorem modify_dispatcherPtr : (mem.modify m f).dispatcherPtr = mem.dispatcherPtr := rfl

/-- A change of a macro registers nothing and removes no registration. -/
@[simp] theorem modify_dispatchers : (mem.modify m f).dispatchers = mem.dispatchers := rfl

/-- A memory to run examples in: every macro is `mac`, the generic dispatcher is dispatcher 0,
and signal 7 has dispatcher 1. -/
def ofMacro (mac : Macro) : Memory where
  genericDispatcher _ := some 0
  dispatcherPtr signalPtr := if signalPtr = 7 then some 1 else none
  macros _ := mac

end Memory

end Libmacro
