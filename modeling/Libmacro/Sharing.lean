import Libmacro.MacroCalls
import Libmacro.Receivers

/-! # Two macros

What calls on a macro `b` do to another macro `a`. A trigger is shared when `b` has it as well,
which `copy` brings about: it takes the triggers of the source and makes `b` their actor. Calls on
`b` leave `a` and its unshared triggers as they were (`MacroCall.undisturbed`). -/

namespace Libmacro

namespace Memory

section Started

variable (triggers : TriggerId → Trigger) (signalPtr : Option SignalId) (mods : ModFlags)

/-- The macro that is started when the receiver gets the signal. -/
def started (mem : Memory) : Receiver → Option MacroId
  | .ofMacro m => some m
  | .trigger t =>
    if ((triggers t).receive signalPtr mods).1 then mem.actorPtr t else none

/-- Receiving is a start of that macro, or nothing. -/
theorem receive_fst (worker : Memory → MacroId → Option ThreadId) (mem : Memory) (r : Receiver) :
    (mem.receive triggers worker signalPtr mods r).1 =
      match mem.started triggers signalPtr mods r with
      | some m => mem.start m (worker mem m)
      | none => mem := by
  cases r with
  | ofMacro m => rfl
  | trigger t =>
    rw [receive, started]
    cases (triggers t).receive signalPtr mods with
    | mk acts blocks =>
      cases mem.actorPtr t with
      | none => cases acts <;> rfl
      | some m => cases acts <;> rfl

end Started

/-- The macro and those of its triggers that are not in `shared`. -/
def OwnsAlone (mem : Memory) (a : MacroId) (shared : Set TriggerId) (r : Receiver) : Prop :=
  Owns a {t | t ∈ (mem.macros a).triggers ∧ t ∉ shared} r

/-- **The macro `a` is undisturbed** between `mem` and `mem'`, but for the triggers in `shared`: its
fields, the registrations and the actors are the same, and a signal that it or a trigger of it
receives starts the same macro. -/
structure Undisturbed (triggers : TriggerId → Trigger) (mem mem' : Memory) (a : MacroId)
    (shared : Set TriggerId) : Prop where
  /-- The fields of the macro. -/
  fields : mem'.macros a = mem.macros a
  /-- The registrations of the macro and its triggers. -/
  has : ∀ r, mem.OwnsAlone a shared r → ∀ d,
    Registry.Has mem'.dispatchers d r ↔ Registry.Has mem.dispatchers d r
  /-- The actors of its triggers. -/
  actorPtr : ∀ t ∈ (mem.macros a).triggers, t ∉ shared → mem'.actorPtr t = mem.actorPtr t
  /-- What a received signal starts. -/
  started : ∀ r, mem.OwnsAlone a shared r → ∀ signalPtr mods,
    mem'.started triggers signalPtr mods r = mem.started triggers signalPtr mods r

end Memory

namespace MacroCall

variable {mem mem' : Memory} {a b : MacroId} {call : MacroCall} {calls : List MacroCall}

/-- The calls on `b`, one after the other; `none` when one reads a null context. -/
def runAll (b : MacroId) : List MacroCall → Memory → Option Memory
  | [], mem => some mem
  | call :: calls, mem => (call.run mem b).bind (runAll b calls)

/-- The triggers that the calls give to `b`. -/
def givesAll (mem : Memory) (b : MacroId) (calls : List MacroCall) : List TriggerId :=
  calls.flatMap fun call => call.gives mem b

/-- The triggers `b` has or is given. -/
def SharedWith (mem : Memory) (b : MacroId) (calls : List MacroCall) : Set TriggerId :=
  {t | t ∈ (mem.macros b).triggers ∨ t ∈ givesAll mem b calls}

/-- What a call gives does not depend on earlier calls on the same macro. -/
theorem Spec.gives_eq (h : Spec mem mem' b call) (call' : MacroCall) :
    call'.gives mem' b = call'.gives mem b := by
  cases call' with
  | copy other =>
    rw [gives, gives]
    by_cases hself : b = other
    · rw [if_pos hself, if_pos hself]
    · rw [if_neg hself, if_neg hself, h.others other (Ne.symm hself)]
  | config call' => cases call' <;> rfl
  | setBlocking val => rfl
  | setApplyDispatchEnabled val => rfl
  | destroy => rfl

/-- What the rest of a sequence gives does not depend on the call before it. -/
theorem Spec.givesAll_eq (h : Spec mem mem' b call) (calls : List MacroCall) :
    givesAll mem' b calls = givesAll mem b calls := by
  rw [givesAll, givesAll]
  exact List.flatMap_congr fun call' _ => h.gives_eq call'

/-- What is not shared before the first call is not shared with the calls that follow it. -/
theorem Spec.not_sharedWith (h : Spec mem mem' b call) {t : TriggerId}
    (ht : t ∉ SharedWith mem b (call :: calls)) :
    (t ∉ (mem.macros b).triggers ∧ t ∉ call.gives mem b) ∧ t ∉ SharedWith mem' b calls := by
  have hcons : givesAll mem b (call :: calls) = call.gives mem b ++ givesAll mem b calls :=
    List.flatMap_cons
  rw [SharedWith, Set.mem_ofPred_eq, hcons, List.mem_append, not_or, not_or] at ht
  obtain ⟨hold, hgiven, hrest⟩ := ht
  refine ⟨⟨hold, hgiven⟩, ?_⟩
  rintro (htrig | hall)
  · rcases h.triggers t htrig with htrig | htrig
    · exact hold htrig
    · exact hgiven htrig
  · rw [h.givesAll_eq] at hall
    exact hrest hall

/-- **Calls on `b` return and change no registration but those of `b`** and of the triggers it has
or is given; these get `b` as their actor when they are given. -/
theorem runAll_spec (b : MacroId) (calls : List MacroCall) (mem : Memory) (hctx : Contexts mem) :
    ∃ mem', runAll b calls mem = some mem' ∧
      (∀ a, a ≠ b → mem'.macros a = mem.macros a) ∧
      (∀ t, mem'.actorPtr t = if t ∈ givesAll mem b calls then some b else mem.actorPtr t) ∧
      ∀ r, r ≠ .ofMacro b → (∀ t, r = .trigger t → t ∉ SharedWith mem b calls) → ∀ d,
        Registry.Has mem'.dispatchers d r ↔ Registry.Has mem.dispatchers d r := by
  induction calls generalizing mem with
  | nil => exact ⟨mem, rfl, fun _ _ => rfl, fun _ => (if_neg List.not_mem_nil).symm,
      fun _ _ _ _ => Iff.rfl⟩
  | cons call calls ih =>
    obtain ⟨mem₁, hrun⟩ := exists_run hctx b call
    have hspec := run_spec hrun
    obtain ⟨mem', hall, hothers, hactor, hhas⟩ := ih mem₁ (hspec.contexts hctx)
    refine ⟨mem', ?_, ?_, ?_, ?_⟩
    · rw [runAll, hrun, Option.bind_some, hall]
    · intro a hne
      rw [hothers a hne, hspec.others a hne]
    · -- an actor is set by this call, by a later one or by none
      intro t
      have hcons : t ∈ givesAll mem b (call :: calls) ↔
          t ∈ call.gives mem b ∨ t ∈ givesAll mem b calls := by
        rw [givesAll, List.flatMap_cons, List.mem_append, givesAll]
      rw [hactor, hspec.actorPtr, hspec.givesAll_eq]
      by_cases hlater : t ∈ givesAll mem b calls
      · rw [if_pos hlater, if_pos (hcons.mpr (Or.inr hlater))]
      · rw [if_neg hlater]
        by_cases hnow : t ∈ call.gives mem b
        · rw [if_pos hnow, if_pos (hcons.mpr (Or.inl hnow))]
        · rw [if_neg hnow, if_neg (fun h => (hcons.mp h).elim hnow hlater)]
    · -- what no call is given is touched by none
      intro r hr hshared d
      have htouch : ¬ call.Touches mem b r := by
        rintro (hself | ⟨t, ht, htrig⟩)
        · exact hr hself
        · obtain ⟨⟨hold, hgiven⟩, -⟩ := hspec.not_sharedWith (hshared t htrig)
          exact ht.elim hold hgiven
      have hlater : ∀ t, r = .trigger t → t ∉ SharedWith mem₁ b calls :=
        fun t htrig => (hspec.not_sharedWith (hshared t htrig)).2
      rw [hhas r hr hlater, hspec.has_iff_of_not_touches htouch]

/-- **Macros do not disturb each other**, but for shared triggers: after any calls on `b`, another
macro `a` and the triggers of it that `b` neither has nor is given are as before; a trigger given
to `b` has `b` as its actor. -/
theorem undisturbed (triggers : TriggerId → Trigger) (hne : a ≠ b) (calls : List MacroCall)
    (mem : Memory) (hctx : Contexts mem) : ∃ mem', runAll b calls mem = some mem' ∧
      mem.Undisturbed triggers mem' a (SharedWith mem b calls) ∧
      ∀ t ∈ givesAll mem b calls, mem'.actorPtr t = some b := by
  obtain ⟨mem', hrun, hothers, hactor, hhas⟩ := runAll_spec b calls mem hctx
  have hsame : ∀ t, t ∉ SharedWith mem b calls → mem'.actorPtr t = mem.actorPtr t := by
    intro t ht
    rw [hactor, if_neg (fun hgiven => ht (Or.inr hgiven))]
  refine ⟨mem', hrun, ?_, fun t ht => by rw [hactor, if_pos ht]⟩
  exact {
    fields := hothers a hne
    has := by
      rintro r (rfl | ⟨t, ⟨-, ht⟩, rfl⟩) d
      · exact hhas (.ofMacro a) (fun h => hne (Receiver.ofMacro.inj h)) (fun _ h => nomatch h) d
      · have hother : ∀ t', Receiver.trigger t = .trigger t' → t' ∉ SharedWith mem b calls := by
          intro t' h
          rw [← Receiver.trigger.inj h]
          exact ht
        exact hhas (.trigger t) (fun h => nomatch h) hother d
    actorPtr := fun t _ ht => hsame t ht
    started := by
      rintro r (rfl | ⟨t, ⟨-, ht⟩, rfl⟩) signalPtr mods
      · rfl
      · rw [Memory.started, Memory.started, hsame t ht] }

/-- Macros keep their contexts under any calls on one of them. -/
theorem contexts_runAll (hctx : Contexts mem) (hrun : runAll b calls mem = some mem') :
    Contexts mem' := by
  induction calls generalizing mem with
  | nil =>
    obtain rfl := Option.some.inj hrun
    exact hctx
  | cons call calls ih =>
    obtain ⟨mem₁, hcall, hrun⟩ := Option.bind_eq_some_iff.mp hrun
    exact ih ((run_spec hcall).contexts hctx) hrun

/-- Macro 0, enabled with activator 7 and trigger 5, is registered and started by its trigger;
that macro 1 gets trigger 6, is enabled and is destroyed changes nothing of it. -/
theorem undisturbed_setTriggers : ∃ mem mem',
    runAll 0 [.config (.setActivators [7]), .config (.setTriggers [5]),
      .config (.setInterruptor .continue)] ConfigCall.fresh = some mem ∧
    runAll 1 [.config (.setTriggers [6]), .config (.setInterruptor .continue), .destroy] mem =
      some mem' ∧
    Registry.Has mem.dispatchers 1 (.trigger 5) ∧
    mem.started blockingAction none 0 (.trigger 5) = some 0 ∧
    mem.Undisturbed blockingAction mem' 0 (SharedWith mem 1
      [.config (.setTriggers [6]), .config (.setInterruptor .continue), .destroy]) ∧
    mem'.actorPtr 6 = some 1 := by
  have hstate : ((runAll 0 [.config (.setActivators [7]), .config (.setTriggers [5]),
      .config (.setInterruptor .continue)] ConfigCall.fresh).map fun mem =>
        (decide (Registry.Has mem.dispatchers 1 (.trigger 5)),
          mem.started blockingAction none 0 (.trigger 5))) = some (true, some 0) := by decide
  obtain ⟨mem, hrun, hstate⟩ := Option.map_eq_some_iff.mp hstate
  rw [Prod.mk.injEq, decide_eq_true_eq] at hstate
  obtain ⟨hhas, hstarted⟩ := hstate
  obtain ⟨mem', hcalls, hundisturbed, hgiven⟩ := undisturbed blockingAction Nat.zero_ne_one
    [.config (.setTriggers [6]), .config (.setInterruptor .continue), .destroy] mem
    (contexts_runAll contexts_fresh hrun)
  exact ⟨mem, mem', hrun, hcalls, hhas, hstarted, hundisturbed,
    hgiven 6 (by simp [givesAll, gives])⟩

/-- **A copy takes over the triggers of its source**: macro 0, enabled with activator 7 and trigger
5, is copied by macro 1, to which the client gives no trigger; the trigger then starts macro 1. -/
theorem not_undisturbed_copy : ∃ mem mem',
    runAll 0 [.config (.setActivators [7]), .config (.setTriggers [5]),
      .config (.setInterruptor .continue)] ConfigCall.fresh = some mem ∧
    runAll 1 [.copy 0] mem = some mem' ∧
    ¬ mem.Undisturbed blockingAction mem' 0 ∅ ∧
    mem.started blockingAction none 0 (.trigger 5) = some 0 ∧
    mem'.started blockingAction none 0 (.trigger 5) = some 1 := by
  have hstate : ((runAll 0 [.config (.setActivators [7]), .config (.setTriggers [5]),
      .config (.setInterruptor .continue)] ConfigCall.fresh).bind fun mem =>
        (runAll 1 [.copy 0] mem).map fun mem' =>
          (decide (5 ∈ (mem.macros 0).triggers), mem.started blockingAction none 0 (.trigger 5),
            mem'.started blockingAction none 0 (.trigger 5))) =
      some (true, some 0, some 1) := by decide
  obtain ⟨mem, hrun, hstate⟩ := Option.bind_eq_some_iff.mp hstate
  obtain ⟨mem', hcopy, hstate⟩ := Option.map_eq_some_iff.mp hstate
  rw [Prod.mk.injEq, Prod.mk.injEq, decide_eq_true_eq] at hstate
  obtain ⟨htrig, hbefore, hafter⟩ := hstate
  refine ⟨mem, mem', hrun, hcopy, fun hsame => ?_, hbefore, hafter⟩
  have hstarted := hsame.started (.trigger 5) (Or.inr ⟨5, ⟨htrig, fun h => h⟩, rfl⟩) none 0
  rw [hbefore, hafter] at hstarted
  exact absurd hstarted (by decide)

end MacroCall

end Libmacro
