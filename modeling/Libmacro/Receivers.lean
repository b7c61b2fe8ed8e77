import Libmacro.MacroCalls
import Libmacro.Types

/-! # Receiving dispatched signals

`Action`, `FunctorTrigger` and macros as receivers, `MacroImpl::start` as one call, and the loop
of `Dispatcher::dispatch`, which stops at the first receiver that blocks. The receivers are in an
`unordered_set`: the order of a dispatch is any enumeration of them. -/

namespace Libmacro

/-! ## Triggers -/

/-- `mcr_TriggerMode_match_inl(triggerMode, matchingFlags, incomingFlags)`: its switch has no case
for `MCR_TM_MATCH`. -/
def triggerModeMatch (triggerMode : TriggerMode) (matchingFlags incomingFlags : ModFlags) :
    Bool :=
  if triggerMode = .equal then matchingFlags = incomingFlags
  else if triggerMode = .all then matchingFlags &&& incomingFlags = matchingFlags
  else if triggerMode = .none then matchingFlags &&& incomingFlags = 0
  else if triggerMode = .exclusive then matchingFlags ||| incomingFlags = matchingFlags
  else if triggerMode = .inequal then matchingFlags ≠ incomingFlags
  else if triggerMode = .any then matchingFlags &&& incomingFlags ≠ 0
  else false

/-- The class of a trigger, with the fields of its own: the mode and the flags of an `Action`, or
the answer of a client's function. -/
inductive TriggerClass where
  /-- `Action`: `modifiers` and `triggerMode`. -/
  | action (modifiers : ModFlags) (triggerMode : TriggerMode)
  /-- `FunctorTrigger`, or a class of the client: `fn` says whether `trigger()` is called and what
  is returned; `none` is an empty `_fn`. -/
  | functor (fn : Option (Option SignalId → ModFlags → Bool × Bool))

/-- `Trigger` without its actor, which is in the memory (`Memory.actorPtr`) because macros assign
it. -/
structure Trigger where
  /-- The class. -/
  kind : TriggerClass
  /-- `blockingFlag`. -/
  blockingFlag : Bool := false

/-- `receive(signalPtr, mods)`: whether the trigger fires and so invokes its actor, and whether it
blocks the dispatch. -/
def Trigger.receive (trig : Trigger) (signalPtr : Option SignalId) (mods : ModFlags) :
    Bool × Bool :=
  match trig.kind with
  | .action modifiers triggerMode =>
    if triggerModeMatch triggerMode modifiers mods then (true, trig.blockingFlag)
    else (false, false)
  | .functor none => (true, trig.blockingFlag)
  | .functor (some fn) => fn signalPtr mods

/-- Triggers to run examples with: an `Action` for no modifiers, which blocks. -/
def blockingAction (_ : TriggerId) : Trigger := ⟨.action 0 .equal, true⟩

/-! ## Starting a macro -/

namespace Macro

/-- `MacroImpl::incQueued`: one more entry, when the queue is shorter than `_threadMax`; the
comparison converts `_queued`. -/
def incQueued (limit : ℕ) (mac : Macro) : Macro :=
  if toUnsigned mac.queued < mac.threadMax then
    { mac with queued := mac.queued + 1 }.limitMaxThreads limit
  else mac

/-- The macros differ by what `start` writes: the interruptor, the counters and the handles. -/
def SameSetup (mac mac' : Macro) : Prop :=
  mac' = { mac with
    interruptor := mac'.interruptor
    threadMax := mac'.threadMax
    queued := mac'.queued
    notified := mac'.notified
    threads := mac'.threads }

/-- What two changes leave alone, both of them together do. -/
theorem SameSetup.trans {mac mac' mac'' : Macro} (h : mac.SameSetup mac')
    (h' : mac'.SameSetup mac'') : mac.SameSetup mac'' := by
  rw [SameSetup] at h h' ⊢
  rw [h'] at *
  rw [h]

/-- `limitMaxThreads` writes the queue and `_threadMax`, and no field that the registration
reads. -/
theorem sameSetup_limitMaxThreads (limit : ℕ) (mac : Macro) :
    mac.SameSetup (mac.limitMaxThreads limit) := by
  obtain ⟨n, q, hlimit⟩ := mac.limitMaxThreads_frame limit
  rw [hlimit]
  rfl

/-- Queueing a start leaves the configuration of the macro alone. -/
theorem sameSetup_incQueued (limit : ℕ) (mac : Macro) : mac.SameSetup (mac.incQueued limit) := by
  rw [incQueued]
  split_ifs
  · have hraise : mac.SameSetup { mac with queued := mac.queued + 1 } := rfl
    exact hraise.trans (sameSetup_limitMaxThreads limit _)
  · rfl

end Macro

namespace Memory

/-- `MacroImpl::trySpawnThread`; `worker` is the created thread, or none when creating it fails. -/
def trySpawnThread (mem : Memory) (m : MacroId) (worker : Option ThreadId) : Memory × Bool :=
  if mem.activeThreadCount ≥ mem.threadLimit then
    (mem.modify m fun mac => { mac with queued := 0 }, false)
  else
    let mem' := mem.modify m (Macro.incQueued mem.threadLimit)
    let mac := mem'.macros m
    if toUnsigned mac.queued > mac.threadMax ∨ mac.queued = 0 then
      (mem'.modify m fun mac => { mac with queued := 0 }, false)
    else
      match worker with
      | none => (mem', false)
      | some w =>
        ({ mem' with activeThreadCount := mem.activeThreadCount + 1 }.modify m fun mac =>
          { mac with threads := mac.threads ++ [w] }, true)

/-- `MacroImpl::start`, run without another thread in between; it is also `act` and `receive` but
for what these return. -/
def start (mem : Memory) (m : MacroId) (worker : Option ThreadId) : Memory :=
  match (mem.macros m).interruptor with
  | .continue | .pause =>
    if (mem.macros m).threadCount < (mem.macros m).threadMax then
      let (mem', spawned) := mem.trySpawnThread m worker
      if spawned then mem' else mem'.modify m (Macro.limitMaxThreads mem'.threadLimit)
    else mem
  | .interrupt =>
    mem.modify m fun mac =>
      { mac with interruptor := .continue, notified := mac.notified + 1 }
  | .interruptAll | .disable => mem

/-- A disabled macro is not started. -/
theorem start_of_disable {mem : Memory} {m : MacroId}
    (h : (mem.macros m).interruptor = .disable) (worker : Option ThreadId) :
    mem.start m worker = mem := by
  rw [start, h]

/-- The memories differ by what `start` of macro `m` may write: its queue, its handles and the
global count. -/
structure StartFrame (m : MacroId) (mem mem' : Memory) : Prop where
  /-- The macro keeps its setup. -/
  setup : (mem.macros m).SameSetup (mem'.macros m)
  /-- The other macros are left alone. -/
  others : ∀ m', m' ≠ m → mem'.macros m' = mem.macros m'
  /-- Besides the macros the global count is written. -/
  rest : mem' = { mem with
    activeThreadCount := mem'.activeThreadCount
    macros := mem'.macros }

namespace StartFrame

variable {m : MacroId} {mem mem' mem'' : Memory}

/-- A start that does nothing keeps the frame. -/
theorem refl (m : MacroId) (mem : Memory) : StartFrame m mem mem := ⟨rfl, fun _ _ => rfl, rfl⟩

/-- Two parts of a start keep the frame together. -/
theorem trans (h : StartFrame m mem mem') (h' : StartFrame m mem' mem'') :
    StartFrame m mem mem'' := by
  refine ⟨h.setup.trans h'.setup, fun m' hm => (h'.others m' hm).trans (h.others m' hm), ?_⟩
  rw [h'.rest, h.rest]

/-- A change of the macro that leaves its configuration alone keeps the frame. -/
theorem modify (mem : Memory) {f : Macro → Macro}
    (hf : (mem.macros m).SameSetup (f (mem.macros m))) :
    StartFrame m mem (mem.modify m f) := by
  refine ⟨?_, fun m' hm => mem.modify_macros_of_ne m f hm, rfl⟩
  rw [modify_macros_self]
  exact hf

end StartFrame

/-- Creating a worker keeps the frame, whether the thread can be created or not. -/
theorem startFrame_trySpawnThread (mem : Memory) (m : MacroId) (worker : Option ThreadId) :
    StartFrame m mem (mem.trySpawnThread m worker).1 := by
  have hinc : StartFrame m mem (mem.modify m (Macro.incQueued mem.threadLimit)) :=
    .modify mem (Macro.sameSetup_incQueued _ _)
  rw [trySpawnThread]
  dsimp only
  split_ifs
  · show StartFrame m mem (mem.modify m fun mac => { mac with queued := 0 })
    exact .modify mem rfl
  · refine hinc.trans ?_
    show StartFrame m _ (Memory.modify _ m fun mac => { mac with queued := 0 })
    exact .modify _ rfl
  · cases worker with
    | none => exact hinc
    | some w =>
      have hcount : StartFrame m (mem.modify m (Macro.incQueued mem.threadLimit))
          { mem.modify m (Macro.incQueued mem.threadLimit) with
            activeThreadCount := mem.activeThreadCount + 1 } := ⟨rfl, fun _ _ => rfl, rfl⟩
      refine (hinc.trans hcount).trans ?_
      show StartFrame m _ (Memory.modify _ m fun mac => { mac with threads := mac.threads ++ [w] })
      exact .modify _ rfl

/-- **What `start` writes**: the counters, the handles and the interruptor of the macro, and the
global count. -/
theorem startFrame_start (mem : Memory) (m : MacroId) (worker : Option ThreadId) :
    StartFrame m mem (mem.start m worker) := by
  have hspawn := startFrame_trySpawnThread mem m worker
  -- a refused spawn is followed by `limitMaxThreads`
  have hlimit : StartFrame m mem ((mem.trySpawnThread m worker).1.modify m
      (Macro.limitMaxThreads (mem.trySpawnThread m worker).1.threadLimit)) :=
    hspawn.trans (.modify _ (Macro.sameSetup_limitMaxThreads _ _))
  rw [start]
  split
  · dsimp only
    split_ifs
    · exact hspawn
    · exact hlimit
    · exact .refl m mem
  · dsimp only
    split_ifs
    · exact hspawn
    · exact hlimit
    · exact .refl m mem
  · show StartFrame m mem (mem.modify m fun mac =>
      { mac with interruptor := .continue, notified := mac.notified + 1 })
    exact .modify mem rfl
  · exact .refl m mem
  · exact .refl m mem

/-- Starting a macro leaves the other macros alone. -/
theorem start_macros_of_ne (mem : Memory) {m m' : MacroId} (worker : Option ThreadId)
    (h : m' ≠ m) : (mem.start m worker).macros m' = mem.macros m' :=
  (startFrame_start mem m worker).others m' h

/-- Starting a macro leaves the blocking flags alone. -/
theorem start_blocking (mem : Memory) (m m' : MacroId) (worker : Option ThreadId) :
    ((mem.start m worker).macros m').blocking = (mem.macros m').blocking := by
  by_cases hm : m' = m
  · rw [hm, (startFrame_start mem m worker).setup]
  · rw [start_macros_of_ne mem worker hm]

/-! ## Receivers -/

section Receive

variable (triggers : TriggerId → Trigger) (worker : Memory → MacroId → Option ThreadId)
  (signalPtr : Option SignalId) (mods : ModFlags)

/-- `receive(signalPtr, mods)` of a receiver: the memory after it and whether it blocks. `worker`
is the thread that is created if a macro starts one. -/
def receive (mem : Memory) : Receiver → Memory × Bool
  | .ofMacro m =>
    let mem := mem.start m (worker mem m)
    (mem, (mem.macros m).blocking)
  | .trigger t =>
    let (acts, blocks) := (triggers t).receive signalPtr mods
    match mem.actorPtr t with
    | some m => (if acts then mem.start m (worker mem m) else mem, blocks)
    | none => (mem, blocks)

/-- `Dispatcher::dispatch` over the receivers in the order of the iteration: the memory after it
and the receiver that blocked, if one did. -/
def dispatch (mem : Memory) : List (Option Receiver) → Memory × Option Receiver
  | [] => (mem, none)
  | none :: rest => mem.dispatch rest
  | some r :: rest =>
    let (mem, blockFlag) := mem.receive triggers worker signalPtr mods r
    if blockFlag then (mem, some r) else mem.dispatch rest

/-- The receivers the loop of `dispatch` calls: up to the first that blocks. -/
def reached (mem : Memory) : List (Option Receiver) → List Receiver
  | [] => []
  | none :: rest => mem.reached rest
  | some r :: rest =>
    let (mem, blockFlag) := mem.receive triggers worker signalPtr mods r
    r :: if blockFlag then [] else mem.reached rest

/-- `dispatch` is the receiving of the receivers reached, one after the other. -/
theorem dispatch_eq_foldl_reached (mem : Memory) (order : List (Option Receiver)) :
    (mem.dispatch triggers worker signalPtr mods order).1 =
      (mem.reached triggers worker signalPtr mods order).foldl
        (fun mem r => (mem.receive triggers worker signalPtr mods r).1) mem := by
  induction order generalizing mem with
  | nil => rfl
  | cons r rest ih =>
    cases r with
    | none => exact ih mem
    | some r =>
      rw [dispatch, reached]
      dsimp only
      split_ifs
      · rfl
      · exact ih _

/-- What a trigger returns depends on the trigger only. -/
theorem receive_trigger_snd (mem : Memory) (t : TriggerId) :
    (mem.receive triggers worker signalPtr mods (.trigger t)).2
      = ((triggers t).receive signalPtr mods).2 := by
  rw [receive]
  cases mem.actorPtr t <;> rfl

/-- **What receiving does to the memory**: nothing, or a macro is started. -/
theorem receive_cases (mem : Memory) (r : Receiver) :
    (mem.receive triggers worker signalPtr mods r).1 = mem ∨
      ∃ m, (mem.receive triggers worker signalPtr mods r).1 = mem.start m (worker mem m) := by
  cases r with
  | ofMacro m => exact .inr ⟨m, rfl⟩
  | trigger t =>
    rw [receive]
    cases mem.actorPtr t with
    | none => exact .inl rfl
    | some m =>
      dsimp only
      split_ifs
      · exact .inr ⟨m, rfl⟩
      · exact .inl rfl

/-- What starting macros keeps is kept by a dispatch. -/
theorem dispatch_induction {P : Memory → Prop}
    (hstart : ∀ mem m w, P mem → P (mem.start m w)) {mem : Memory} (h : P mem)
    (order : List (Option Receiver)) :
    P (mem.dispatch triggers worker signalPtr mods order).1 := by
  rw [dispatch_eq_foldl_reached]
  generalize mem.reached triggers worker signalPtr mods order = calls
  induction calls generalizing mem with
  | nil => exact h
  | cons r calls ih =>
    apply ih
    dsimp only
    rcases mem.receive_cases triggers worker signalPtr mods r with heq | ⟨m, heq⟩
    · rw [heq]
      exact h
    · rw [heq]
      exact hstart mem m _ h

/-- Receiving changes no other macro than the one started. -/
theorem receive_macros (mem : Memory) (r : Receiver) {m : MacroId}
    (h : (mem.macros m).interruptor = .disable) :
    (mem.receive triggers worker signalPtr mods r).1.macros m = mem.macros m := by
  rcases mem.receive_cases triggers worker signalPtr mods r with heq | ⟨m', heq⟩
  · rw [heq]
  · -- a start of `m` itself does nothing, another start leaves `m` alone
    rw [heq]
    by_cases hm : m = m'
    · rw [← hm, start_of_disable h]
    · exact start_macros_of_ne mem _ hm

end Receive

end Memory

end Libmacro
