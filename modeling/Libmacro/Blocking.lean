import Libmacro.Receivers

/-! # Who blocks a signal

`receive` of macros, triggers and trigger lists, with actors of any class. An actor asks to block
by what `act` returns, a trigger by its `blockingFlag`. `Trigger::trigger` throws away what `act`
returned, and `TriggerList::receive` throws away the flag its loop computed and returns true.

`Receiving.Asks` says which receivers should block; `Receiving.receive_iff_asks_iff` says for
which of them `receive` answers so. -/

namespace Libmacro

/-- Identifies an actor of the client. -/
abbrev ActorId := ℕ

/-- `IActor`: what a trigger acts on, a macro or an object of the client. -/
inductive Actor where
  /-- A macro, as `IActor`. -/
  | ofMacro (m : MacroId)
  /-- A class of the client. -/
  | client (a : ActorId)
  deriving DecidableEq, Repr

/-- When `receive` of a trigger calls `trigger`. -/
inductive FiringRule where
  /-- `Action`: `modifiers` and `triggerMode`. -/
  | action (modifiers : ModFlags) (triggerMode : TriggerMode)
  /-- A class of the client. A `FunctorTrigger` with an empty function always fires. -/
  | client (rule : Option SignalId → ModFlags → Bool)

/-- The trigger fires for the signal and the modifiers: an `Action` compares the modifiers, and a
class of the client has a rule of its own. -/
def FiringRule.fires (signalPtr : Option SignalId) (mods : ModFlags) : FiringRule → Bool
  | .action modifiers triggerMode => triggerModeMatch triggerMode modifiers mods
  | .client rule => rule signalPtr mods

/-- The fields of a trigger that its `receive` reads. -/
structure TriggerFields where
  /-- The class. -/
  rule : FiringRule
  /-- `blockingFlag`. -/
  blockingFlag : Bool := false

/-- The trigger as `Memory.receive` has it, where an actor's answer plays no part. -/
def TriggerFields.toTrigger (trig : TriggerFields) : Trigger where
  kind :=
    match trig.rule with
    | .action modifiers triggerMode => .action modifiers triggerMode
    | .client rule => .functor (some fun signalPtr mods =>
        (rule signalPtr mods, rule signalPtr mods && trig.blockingFlag))
  blockingFlag := trig.blockingFlag

/-- What a trigger of the source answers, in terms of its rule: it acts when the rule fires, and it
blocks when it has acted and its `blockingFlag` is set. -/
theorem TriggerFields.receive_toTrigger (trig : TriggerFields) (signalPtr : Option SignalId)
    (mods : ModFlags) : trig.toTrigger.receive signalPtr mods =
      (trig.rule.fires signalPtr mods, trig.rule.fires signalPtr mods && trig.blockingFlag) := by
  obtain ⟨rule, flag⟩ := trig
  cases rule with
  | action modifiers triggerMode =>
    show (if triggerModeMatch triggerMode modifiers mods then (true, flag) else (false, false)) =
      (triggerModeMatch triggerMode modifiers mods,
        triggerModeMatch triggerMode modifiers mods && flag)
    cases triggerModeMatch triggerMode modifiers mods <;> rfl
  | client rule => rfl

/-- What `receive` works on: the memory of the macros, the triggers, and the actors of triggers
that are no macros. -/
structure Receiving where
  /-- The memory. -/
  memory : Memory := {}
  /-- The triggers. -/
  triggers : TriggerId → TriggerFields
  /-- `Trigger::actorPtr` of the triggers whose actor is not a macro. -/
  clientActor : TriggerId → Option ActorId := fun _ => none

/-- What a signal can be received by. -/
inductive AnyReceiver where
  /-- A macro or a trigger. -/
  | single (r : Receiver)
  /-- A `TriggerList`: its `array`. -/
  | triggerList (array : List TriggerId)

namespace Receiving

/-- `Trigger::actorPtr`: the macro that got the trigger last, or else what the client has set. -/
def actorPtr (s : Receiving) (t : TriggerId) : Option Actor :=
  match s.memory.actorPtr t with
  | some m => some (.ofMacro m)
  | none => (s.clientActor t).map .client

section Receive

variable (clientAct : ActorId → Receiving → Receiving × Bool)
  (worker : Memory → MacroId → Option ThreadId) (signalPtr : Option SignalId) (mods : ModFlags)

/-! ## Receivers -/

/-- `act()`. For a macro it is `start()` and `blocking()`, like `MacroImpl::receive`. -/
def act (s : Receiving) : Actor → Receiving × Bool
  | .ofMacro m =>
    let mem := s.memory.start m (worker s.memory m)
    ({ s with memory := mem }, (mem.macros m).blocking)
  | .client a => clientAct a s

/-- `Trigger::trigger(signalPtr, mods)`: it calls `act` when there is an actor, and answers its own
`blockingFlag`. -/
def trigger (s : Receiving) (t : TriggerId) : Receiving × Bool :=
  match s.actorPtr t with
  | some actor =>
    -- what `act` returned is thrown away
    let s' := (s.act clientAct worker actor).1
    (s', (s'.triggers t).blockingFlag)
  | none => (s, (s.triggers t).blockingFlag)

/-- The trigger fires on the signal. -/
def fires (s : Receiving) (t : TriggerId) : Bool := (s.triggers t).rule.fires signalPtr mods

/-- `receive` of a trigger: `trigger` when its rule fires, and otherwise false without doing
anything. -/
def receiveTrigger (s : Receiving) (t : TriggerId) : Receiving × Bool :=
  if s.fires signalPtr mods t then s.trigger clientAct worker t else (s, false)

/-- The loop of `TriggerList::receive`, with its local `block`. -/
def receiveLoop (s : Receiving) (block : Bool) : List TriggerId → Receiving × Bool
  | [] => (s, block)
  | t :: rest =>
    let (s', blocks) := s.receiveTrigger clientAct worker signalPtr mods t
    s'.receiveLoop (if blocks then true else block) rest

/-- `receive(signalPtr, mods)`: the state after it and whether it blocks. -/
def receive (s : Receiving) : AnyReceiver → Receiving × Bool
  | .single (.ofMacro m) => s.act clientAct worker (.ofMacro m)
  | .single (.trigger t) => s.receiveTrigger clientAct worker signalPtr mods t
  | .triggerList array =>
    ((s.receiveLoop clientAct worker signalPtr mods false array).1, true)

/-! ## Who asks to block -/

/-- The actor of the trigger asks to block. -/
def actorAsks (s : Receiving) (t : TriggerId) : Bool :=
  (s.actorPtr t).any fun actor => (s.act clientAct worker actor).2

/-- The `blockingFlag` of the trigger, once it has invoked its actor. -/
def flagAsks (s : Receiving) (t : TriggerId) : Bool :=
  ((s.trigger clientAct worker t).1.triggers t).blockingFlag

/-- The trigger fires and asks to block. -/
def TriggerAsks (s : Receiving) (t : TriggerId) : Prop :=
  s.fires signalPtr mods t = true ∧
    (s.flagAsks clientAct worker t = true ∨ s.actorAsks clientAct worker t = true)

/-- A trigger of the array, which are invoked one after the other, asks to block. -/
def SomeAsks (s : Receiving) : List TriggerId → Prop
  | [] => False
  | t :: rest => s.TriggerAsks clientAct worker signalPtr mods t ∨
      (s.receiveTrigger clientAct worker signalPtr mods t).1.SomeAsks rest

/-- **A part of the receiver that fires asks to block.** -/
def Asks (s : Receiving) : AnyReceiver → Prop
  | .single (.ofMacro m) => (s.memory.macros m).blocking = true
  | .single (.trigger t) => s.TriggerAsks clientAct worker signalPtr mods t
  | .triggerList array => s.SomeAsks clientAct worker signalPtr mods array

/-- The condition under which `receive` passes the requests on: a trigger that fires does not
leave the request to its actor, and a list has a trigger that asks. -/
def PassesOn (s : Receiving) : AnyReceiver → Prop
  | .single (.ofMacro _) => True
  | .single (.trigger t) =>
    s.fires signalPtr mods t = true → s.actorAsks clientAct worker t = true →
      s.flagAsks clientAct worker t = true
  | .triggerList array => s.SomeAsks clientAct worker signalPtr mods array

end Receive

/-! ## The answers -/

section Answers

variable {clientAct : ActorId → Receiving → Receiving × Bool}
  {worker : Memory → MacroId → Option ThreadId} {signalPtr : Option SignalId} {mods : ModFlags}

/-- A macro answers what its blocking flag was when it was activated. -/
theorem act_ofMacro_snd (s : Receiving) (m : MacroId) :
    (s.act clientAct worker (.ofMacro m)).2 = (s.memory.macros m).blocking :=
  Memory.start_blocking s.memory m m (worker s.memory m)

/-- A trigger answers its flag, whatever its actor answered. -/
theorem trigger_snd (s : Receiving) (t : TriggerId) :
    (s.trigger clientAct worker t).2 = s.flagAsks clientAct worker t := by
  unfold flagAsks trigger
  cases s.actorPtr t <;> rfl

/-- `receive` of a trigger is true when the trigger fires and its flag is set. -/
theorem receiveTrigger_snd (s : Receiving) (t : TriggerId) :
    (s.receiveTrigger clientAct worker signalPtr mods t).2 =
      (s.fires signalPtr mods t && s.flagAsks clientAct worker t) := by
  rw [receiveTrigger]
  cases s.fires signalPtr mods t with
  | false => rfl
  | true =>
    rw [if_pos rfl, Bool.true_and]
    exact trigger_snd s t

/-- The request of a macro is kept by a trigger only when the flags agree: the routes differ. -/
theorem receiveTrigger_eq_act_iff {s : Receiving} {t : TriggerId} {m : MacroId}
    (hfires : s.fires signalPtr mods t = true) (hactor : s.memory.actorPtr t = some m) :
    (s.receiveTrigger clientAct worker signalPtr mods t).2 =
        (s.act clientAct worker (.ofMacro m)).2 ↔
      (s.triggers t).blockingFlag = (s.memory.macros m).blocking := by
  have hflag : s.flagAsks clientAct worker t = (s.triggers t).blockingFlag := by
    rw [flagAsks, trigger, actorPtr, hactor]
    rfl
  rw [receiveTrigger_snd, hfires, Bool.true_and, act_ofMacro_snd, hflag]

/-- What a trigger asks for and does not answer is the request of its actor. -/
theorem receiveTrigger_iff_asks_iff (s : Receiving) (t : TriggerId) :
    ((s.receiveTrigger clientAct worker signalPtr mods t).2 = true ↔
        s.TriggerAsks clientAct worker signalPtr mods t) ↔
      (s.fires signalPtr mods t = true → s.actorAsks clientAct worker t = true →
        s.flagAsks clientAct worker t = true) := by
  rw [receiveTrigger_snd, TriggerAsks, Bool.and_eq_true]
  constructor
  · intro h hfires hactor
    exact (h.mpr ⟨hfires, .inr hactor⟩).2
  · intro h
    constructor
    · rintro ⟨hfires, hflag⟩
      exact ⟨hfires, .inl hflag⟩
    · rintro ⟨hfires, hflag | hactor⟩
      · exact ⟨hfires, hflag⟩
      · exact ⟨hfires, h hfires hactor⟩

/-- A list none of whose triggers fires has nothing that asks. -/
theorem not_someAsks_of_silent {s : Receiving} {array : List TriggerId}
    (h : ∀ t ∈ array, s.fires signalPtr mods t = false) :
    ¬ s.SomeAsks clientAct worker signalPtr mods array := by
  induction array with
  | nil => exact id
  | cons t rest ih =>
    have hsilent := h t List.mem_cons_self
    -- the state stays the same: nothing is invoked
    have hstate : (s.receiveTrigger clientAct worker signalPtr mods t).1 = s := by
      rw [receiveTrigger, hsilent]
      rfl
    rintro (⟨hfires, -⟩ | hrest)
    · rw [hsilent] at hfires
      cases hfires
    · rw [hstate] at hrest
      exact ih (fun t' ht' => h t' (List.mem_cons_of_mem t ht')) hrest

/-- **`receive` answers what its parts ask exactly when the requests are passed on**: a firing
trigger has its flag set or an actor that does not ask, and a list has a trigger that asks. -/
theorem receive_iff_asks_iff (s : Receiving) (r : AnyReceiver) :
    ((s.receive clientAct worker signalPtr mods r).2 = true ↔
        s.Asks clientAct worker signalPtr mods r) ↔
      s.PassesOn clientAct worker signalPtr mods r := by
  cases r with
  | single r =>
    cases r with
    | ofMacro m =>
      rw [receive, act_ofMacro_snd, Asks, PassesOn]
      exact iff_of_true Iff.rfl trivial
    | trigger t => exact receiveTrigger_iff_asks_iff s t
  | triggerList array =>
    show (true = true ↔ _) ↔ _
    rw [Asks, PassesOn]
    simp

/-- With macros for actors this is the receiving of `Memory.receive`. -/
theorem memory_receive (s : Receiving) (hactor : ∀ t, s.clientActor t = none) (r : Receiver) :
    s.memory.receive (fun t => (s.triggers t).toTrigger) worker signalPtr mods r =
      ((s.receive clientAct worker signalPtr mods (.single r)).1.memory,
        (s.receive clientAct worker signalPtr mods (.single r)).2) := by
  cases r with
  | ofMacro m => rfl
  | trigger t =>
    rw [Memory.receive, TriggerFields.receive_toTrigger]
    show _ = ((s.receiveTrigger clientAct worker signalPtr mods t).1.memory,
      (s.receiveTrigger clientAct worker signalPtr mods t).2)
    rw [receiveTrigger, fires, trigger, actorPtr, hactor t]
    cases (s.triggers t).rule.fires signalPtr mods with
    | false => cases s.memory.actorPtr t <;> rfl
    | true => cases s.memory.actorPtr t <;> rfl

end Answers

/-- Triggers for no modifiers, without a flag, on a macro that blocks. -/
def blockingActor : Receiving where
  memory := { Memory.ofMacro { blocking := true } with actorPtr := fun _ => some 0 }
  triggers _ := ⟨.action 0 .equal, false⟩

/-- **Requests get lost and made up**: a trigger that fires does not block for its macro, which
blocks when it is activated directly, and a list without triggers blocks. -/
theorem not_receive_iff_asks :
    ¬ ((blockingActor.receive (fun _ s => (s, false)) (fun _ _ => none) none 0
          (.single (.trigger 0))).2 = true ↔
        blockingActor.Asks (fun _ s => (s, false)) (fun _ _ => none) none 0
          (.single (.trigger 0))) ∧
      ¬ ((blockingActor.receive (fun _ s => (s, false)) (fun _ _ => none) none 0
            (.triggerList [])).2 = true ↔
          blockingActor.Asks (fun _ s => (s, false)) (fun _ _ => none) none 0
            (.triggerList [])) := by
  constructor
  · intro h
    exact absurd (h.mpr ⟨rfl, .inr rfl⟩) (by decide)
  · intro h
    exact h.mp rfl

end Receiving

end Libmacro
