import Libmacro.Modifiers
import Libmacro.Receivers

/-! # The modifiers an action sees

`Modifier::send` keeps the modifier word of a context, a worker of a macro hands a signal to its
dispatcher, the dispatcher hands its argument `mods` to the receivers, and an `Action` matches it.
The worker's argument is the constant 0, not the word: an `Action` of a running macro's dispatcher
fires as the word says exactly when its match does not tell the word from 0
(`actionsSeeModifiers_iff`). -/

namespace Libmacro

/-- The library: the memory and the modifier words. -/
structure Library where
  /-- The memory. -/
  memory : Memory := {}
  /-- `Libmacro::modifiers()` of each context. -/
  modifiers : ContextId → ModFlags := fun _ => 0

namespace Library

/-- A call of `receive` in a dispatch. -/
structure Reception where
  /-- The receiver. -/
  receiver : Receiver
  /-- A macro is started, or a trigger fires. -/
  acts : Bool

section Deliver

variable (triggers : TriggerId → Trigger) (worker : Memory → MacroId → Option ThreadId)
  (modifierOf : SignalId → Option (Modifier × ContextId))

/-- `signalPtr->send()`; `modifierOf` says which signals are modifiers, and of which context. -/
def send (s : Library) (signalPtr : SignalId) : Library :=
  match modifierOf signalPtr with
  | some (sig, c) =>
    { s with modifiers := Function.update s.modifiers c (sig.applied (s.modifiers c)) }
  | none => s

/-- `dispatcher->dispatch(signalPtr, mods)` with the receivers in the order of the iteration: the
library after it, and the calls of `receive`. -/
def dispatch (s : Library) (signalPtr : SignalId) (mods : ModFlags)
    (order : List (Option Receiver)) : Library × List Reception :=
  ({ s with memory := (s.memory.dispatch triggers worker signalPtr mods order).1 },
    (s.memory.reached triggers worker signalPtr mods order).map fun r =>
      ⟨r, match r with
        | .ofMacro _ => true
        | .trigger t => ((triggers t).receive signalPtr mods).1⟩)

/-- A worker delivers a signal: the last lines of the loop of `MacroImpl::dispatchSignals`. -/
def deliver (s : Library) (signalPtr : SignalId) (order : List (Option Receiver)) :
    Library × List Reception :=
  match s.memory.dispatcherPtr signalPtr with
  | some _ => s.dispatch triggers worker signalPtr 0 order
  | none => (s.send modifierOf signalPtr, [])

/-- What happens to the library: a signal is sent by some thread, or a worker delivers one. -/
inductive Event where
  /-- A thread sends a signal. -/
  | sent (signalPtr : SignalId)
  /-- A worker delivers a signal; `order` is how its dispatcher iterates. -/
  | delivered (signalPtr : SignalId) (order : List (Option Receiver))

/-- The library after one event, with the modifiers that it leaves active. -/
def step (s : Library) : Event → Library
  | .sent signalPtr => s.send modifierOf signalPtr
  | .delivered signalPtr order => (s.deliver triggers worker modifierOf signalPtr order).1

/-- The library after a history of events, from the oldest to the newest. -/
def run (s : Library) (history : List Event) : Library :=
  history.foldl (step triggers worker modifierOf) s

/-- The modifier that an event sends on context `c`: a delivered signal is sent when it has no
dispatcher. -/
def sentOn (mem : Memory) (c : ContextId) : Event → Option Modifier
  | .sent signalPtr => (modifierOf signalPtr).bind fun p => if p.2 = c then some p.1 else none
  | .delivered signalPtr _ =>
    if mem.dispatcherPtr signalPtr = none then
      (modifierOf signalPtr).bind fun p => if p.2 = c then some p.1 else none
    else none

/-- The word of context `c` when the modifiers that a history sends are applied to it in turn. -/
def wordAfter (s : Library) (history : List Event) (c : ContextId) : ModFlags :=
  (history.filterMap (sentOn modifierOf s.memory c)).foldl (fun mods sig => sig.applied mods)
    (s.modifiers c)

/-- A worker of a running macro of context `c` is about to deliver the signal through its
dispatcher. -/
structure Delivers (s : Library) (m : MacroId) (c : ContextId) (signalPtr : SignalId)
    (order : List (Option Receiver)) : Prop where
  /-- The macro runs. -/
  running : (s.memory.macros m).running = true
  /-- In the context. -/
  context : (s.memory.macros m).context = some c
  /-- Its list has the signal. -/
  signals : some signalPtr ∈ (s.memory.macros m).signals
  /-- The signal has a dispatcher, which iterates in the order. -/
  dispatcher : ∃ d, s.memory.dispatcherPtr signalPtr = some d ∧
    (s.memory.dispatchers d).Enumerates order

/-- If the call is one of an `Action`, it fires as its trigger mode matches its modifiers against
`mods`. -/
def Reception.Matches (mods : ModFlags) (e : Reception) : Prop :=
  ∀ t modifiers triggerMode, e.receiver = .trigger t →
    (triggers t).kind = .action modifiers triggerMode →
    (e.acts = true ↔ triggerModeMatch triggerMode modifiers mods = true)

end Deliver

section Run

variable {triggers : TriggerId → Trigger} {worker : Memory → MacroId → Option ThreadId}
  {modifierOf : SignalId → Option (Modifier × ContextId)}

/-- Sending a signal changes the active modifiers at most; the memory of the macros stays as it
is. -/
@[simp] theorem send_memory (s : Library) (signalPtr : SignalId) :
    (s.send modifierOf signalPtr).memory = s.memory := by
  rw [send]
  cases modifierOf signalPtr <;> rfl

/-- The word of a context after a signal is sent. -/
theorem send_modifiers (s : Library) (signalPtr : SignalId) (c : ContextId) :
    (s.send modifierOf signalPtr).modifiers c =
      ((modifierOf signalPtr).bind fun p => if p.2 = c then some p.1 else none).elim
        (s.modifiers c) (fun sig => sig.applied (s.modifiers c)) := by
  rw [send]
  cases modifierOf signalPtr with
  | none => rfl
  | some p =>
    rw [Option.bind_some]
    by_cases hc : p.2 = c
    · rw [if_pos hc, ← hc]
      exact Function.update_self ..
    · rw [if_neg hc]
      exact Function.update_of_ne (Ne.symm hc) ..

/-- No event changes the dispatchers of the signals. -/
theorem step_dispatcherPtr (s : Library) (e : Event) :
    (s.step triggers worker modifierOf e).memory.dispatcherPtr = s.memory.dispatcherPtr := by
  cases e with
  | sent signalPtr => rw [step, send_memory]
  | delivered signalPtr order =>
    rw [step, deliver]
    cases s.memory.dispatcherPtr signalPtr with
    | none => rw [send_memory]
    | some d =>
      -- the receivers can only start macros
      refine Memory.dispatch_induction triggers worker signalPtr 0
        (P := fun mem => mem.dispatcherPtr = s.memory.dispatcherPtr) ?_ rfl order
      intro mem m w h
      rw [(Memory.startFrame_start mem m w).rest]
      exact h

/-- An event applies the modifier it sends to the word. -/
theorem step_modifiers (s : Library) (e : Event) (c : ContextId) :
    (s.step triggers worker modifierOf e).modifiers c =
      (sentOn modifierOf s.memory c e).elim (s.modifiers c)
        (fun sig => sig.applied (s.modifiers c)) := by
  cases e with
  | sent signalPtr => exact send_modifiers s signalPtr c
  | delivered signalPtr order =>
    rw [step, deliver, sentOn]
    cases s.memory.dispatcherPtr signalPtr with
    | none =>
      rw [if_pos rfl]
      exact send_modifiers s signalPtr c
    | some d => rfl

/-- **The word of a context** is the modifiers sent on it, applied one after the other. -/
theorem run_modifiers (s : Library) (history : List Event) (c : ContextId) :
    (s.run triggers worker modifierOf history).modifiers c =
      s.wordAfter modifierOf history c := by
  induction history generalizing s with
  | nil => rfl
  | cons e history ih =>
    -- who has a dispatcher, and so what is sent, stays the same through the history
    have hsent : sentOn modifierOf (s.step triggers worker modifierOf e).memory c =
        sentOn modifierOf s.memory c := by
      funext e'
      cases e' with
      | sent signalPtr => rfl
      | delivered signalPtr order => rw [sentOn, sentOn, step_dispatcherPtr]
    have hstep := ih (s.step triggers worker modifierOf e)
    rw [wordAfter, hsent, step_modifiers] at hstep
    rw [wordAfter, List.filterMap_cons]
    cases he : sentOn modifierOf s.memory c e with
    | none =>
      rw [he] at hstep
      exact hstep
    | some sig =>
      rw [he] at hstep
      exact hstep

/-- A delivery calls the receivers that the dispatch reaches with the word 0. -/
theorem deliver_snd {s : Library} {m : MacroId} {c : ContextId} {signalPtr : SignalId}
    {order : List (Option Receiver)} (h : s.Delivers m c signalPtr order) :
    (s.deliver triggers worker modifierOf signalPtr order).2 =
      (s.dispatch triggers worker signalPtr 0 order).2 := by
  obtain ⟨d, hd, -⟩ := h.dispatcher
  rw [deliver, hd]

/-- The calls of a delivery are those of the receivers reached. -/
theorem mem_deliver_iff {s : Library} {m : MacroId} {c : ContextId} {signalPtr : SignalId}
    {order : List (Option Receiver)} (h : s.Delivers m c signalPtr order) {t : TriggerId}
    {acts : Bool} :
    (⟨.trigger t, acts⟩ : Reception) ∈ (s.deliver triggers worker modifierOf signalPtr order).2 ↔
      .trigger t ∈ s.memory.reached triggers worker signalPtr 0 order ∧
        acts = ((triggers t).receive signalPtr 0).1 := by
  rw [deliver_snd h, dispatch, List.mem_map]
  constructor
  · rintro ⟨r, hr, heq⟩
    obtain ⟨rfl, rfl⟩ := Reception.mk.inj heq
    exact ⟨hr, rfl⟩
  · rintro ⟨hr, rfl⟩
    exact ⟨.trigger t, hr, rfl⟩

/-- An `Action` fires as its match says. -/
theorem action_receive_fst {trig : Trigger} {modifiers : ModFlags} {triggerMode : TriggerMode}
    (h : trig.kind = .action modifiers triggerMode) (signalPtr : Option SignalId)
    (mods : ModFlags) :
    (trig.receive signalPtr mods).1 = triggerModeMatch triggerMode modifiers mods := by
  rw [Trigger.receive, h]
  dsimp only
  cases triggerModeMatch triggerMode modifiers mods <;> rfl

/-- **The actions see the active modifiers exactly when 0 does as well**: after any history, the
`Action`s that a delivery reaches all fire as they match the word of the context iff none of them
tells the word from 0. -/
theorem actionsSeeModifiers_iff (s : Library) (history : List Event) {m : MacroId}
    {c : ContextId} {signalPtr : SignalId} {order : List (Option Receiver)}
    (h : (s.run triggers worker modifierOf history).Delivers m c signalPtr order) :
    (∀ e ∈ ((s.run triggers worker modifierOf history).deliver triggers worker modifierOf
        signalPtr order).2, e.Matches triggers (s.wordAfter modifierOf history c)) ↔
      ∀ t modifiers triggerMode,
        .trigger t ∈ (s.run triggers worker modifierOf history).memory.reached triggers worker
          signalPtr 0 order →
        (triggers t).kind = .action modifiers triggerMode →
        triggerModeMatch triggerMode modifiers 0 =
          triggerModeMatch triggerMode modifiers (s.wordAfter modifierOf history c) := by
  constructor
  · intro hsees t modifiers triggerMode ht hkind
    have hmatch := hsees _ ((mem_deliver_iff h).mpr ⟨ht, rfl⟩) t modifiers triggerMode rfl hkind
    rw [action_receive_fst hkind] at hmatch
    exact Bool.eq_iff_iff.mpr hmatch
  · intro hsame e he t modifiers triggerMode hrecv hkind
    obtain ⟨receiver, acts⟩ := e
    obtain rfl : receiver = .trigger t := hrecv
    obtain ⟨ht, rfl⟩ := (mem_deliver_iff h).mp he
    rw [action_receive_fst hkind, hsame t modifiers triggerMode ht hkind]

/-- Only the word 0 is matched like 0 by every `Action`. -/
theorem match_zero_iff (mods : ModFlags) :
    (∀ triggerMode modifiers, triggerModeMatch triggerMode modifiers 0 =
      triggerModeMatch triggerMode modifiers mods) ↔ mods = 0 := by
  constructor
  · intro h
    -- an `Action` without modifiers in the mode `MCR_TM_EQUAL` tells every other word from 0
    have hequal := h .equal 0
    rw [triggerModeMatch, triggerModeMatch, if_pos rfl, if_pos rfl] at hequal
    exact (of_decide_eq_true (hequal.symm.trans (decide_eq_true rfl))).symm
  · rintro rfl triggerMode modifiers
    rfl

end Run

/-! ## A shift key -/

/-- Signal 3 sets `MCR_SHIFT` on context 0. -/
def shiftOf (signalPtr : SignalId) : Option (Modifier × ContextId) :=
  if signalPtr = 3 then some (⟨.shift, .set⟩, 0) else none

/-- A running macro of context 0 with signal 7, to whose dispatcher trigger 5 is registered. -/
def shiftLibrary : Library where
  memory := { Memory.ofMacro { context := some 0, threadCount := 1, signals := [some 7] } with
    dispatchers := fun _ => ⟨{some (.trigger 5)}⟩ }

/-- The triggers are `Action`s with these fields. -/
def actions (modifiers : ModFlags) (triggerMode : TriggerMode) (_ : TriggerId) : Trigger :=
  ⟨.action modifiers triggerMode, false⟩

/-- With shift held, the macro delivers its signal. -/
theorem delivers_shiftLibrary (triggers : TriggerId → Trigger) :
    (shiftLibrary.run triggers (fun _ _ => none) shiftOf [.sent 3]).Delivers 0 0 7
      [some (.trigger 5)] where
  running := rfl
  context := rfl
  signals := List.mem_cons_self
  dispatcher := ⟨1, rfl, List.nodup_singleton _, fun r => by
    rw [List.mem_singleton]
    exact Finset.mem_singleton.symm⟩

/-- An `Action` for `MCR_TM_ALL` of no modifiers does not tell the words apart. -/
theorem actionsSeeModifiers_all :
    (shiftLibrary.run (actions 0 .all) (fun _ _ => none) shiftOf [.sent 3]).Delivers 0 0 7
        [some (.trigger 5)] ∧
      ∀ e ∈ ((shiftLibrary.run (actions 0 .all) (fun _ _ => none) shiftOf [.sent 3]).deliver
          (actions 0 .all) (fun _ _ => none) shiftOf 7 [some (.trigger 5)]).2,
        e.Matches (actions 0 .all) (shiftLibrary.wordAfter shiftOf [.sent 3] 0) := by
  have hdelivers := delivers_shiftLibrary (actions 0 .all)
  refine ⟨hdelivers, (actionsSeeModifiers_iff shiftLibrary [.sent 3] hdelivers).mpr ?_⟩
  intro t modifiers triggerMode _ hkind
  obtain ⟨rfl, rfl⟩ := TriggerClass.action.inj hkind
  decide

/-- **An `Action` misses the shift key**: it is for `MCR_SHIFT`, which is set on the context, and
does not fire. -/
theorem not_actionsSeeModifiers_shift :
    (shiftLibrary.run (actions .shift .equal) (fun _ _ => none) shiftOf [.sent 3]).Delivers 0 0 7
        [some (.trigger 5)] ∧
      ¬ ∀ e ∈ ((shiftLibrary.run (actions .shift .equal) (fun _ _ => none) shiftOf
            [.sent 3]).deliver (actions .shift .equal) (fun _ _ => none) shiftOf 7
              [some (.trigger 5)]).2,
          e.Matches (actions .shift .equal) (shiftLibrary.wordAfter shiftOf [.sent 3] 0) := by
  refine ⟨delivers_shiftLibrary (actions .shift .equal), fun h => ?_⟩
  have hfires := h ⟨.trigger 5, false⟩ List.mem_cons_self 5 .shift .equal rfl rfl
  exact absurd (hfires.mpr (by decide)) Bool.false_ne_true

end Library

end Libmacro
