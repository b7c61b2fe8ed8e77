import Libmacro.MacroCalls

/-! # Changing the context of a macro

`setContext` writes the pointer and nothing else, and `_removeDispatch` works through the context
the macro has when it is called. What was registered with the generic dispatcher of an earlier
context stays there unless something else removes it: after a call that applies the dispatch, and
after the destructor, where it is a dangling receiver.

Which pairs a call leaves behind is known before the call (`ConfigCall.LeavesStray`): the
registration has moved to the current context after every call of a sequence iff no call leaves any
(`movesAfter_iff`). -/

namespace Libmacro

namespace Memory

/-- `setContext`, with a context: the pointer is written, and no registration is touched. -/
def setContext (mem : Memory) (m : MacroId) (ctx : ContextId) : Memory :=
  mem.modify m fun mac => { mac with context := some ctx }

/-- `d` is the generic dispatcher of a context other than the macro's. -/
def Foreign (mem : Memory) (m : MacroId) (d : DispatcherId) : Prop :=
  ∃ c, some c ≠ (mem.macros m).context ∧ mem.genericDispatcher c = some d

/-- The receiver is the macro or one of its triggers. -/
def Own (mem : Memory) (m : MacroId) (r : Receiver) : Prop := r = .ofMacro m ∨ mem.IsTrigger m r

/-- **The registration has moved**: no generic dispatcher of another context contains the macro or
one of its triggers. -/
def Moved (mem : Memory) (m : MacroId) : Prop :=
  ∀ d r, mem.Foreign m d → mem.Own m r → ¬ Registry.Has mem.dispatchers d r

end Memory

namespace ConfigCall

/-- The macro as the call configures it, before anything is registered. -/
def configure (mem : Memory) (m : MacroId) : ConfigCall → Memory
  | setActivators array => mem.modify m fun mac => { mac with activators := array }
  | setTriggers array => mem.modify m fun mac => { mac with triggers := array }
  | setInterruptor val => mem.modify m fun mac =>
    { mac with interruptor := (MacroCall.config (setInterruptor val)).interruptorAfter mem m }
  | applyDispatch | removeDispatch => mem

/-- **The call leaves a stray pair**: the macro, or a trigger that it has after the call, on the
generic dispatcher of another context. The pair was there and is not cleared, or the dispatcher
serves the macro as configured as well, and the pair is added. -/
def LeavesStray (mem : Memory) (m : MacroId) (call : ConfigCall) : Prop :=
  ∃ d r, mem.Foreign m d ∧ (call.configure mem m).Own m r ∧
    ((Registry.Has mem.dispatchers d r ∧ ¬ (MacroCall.config call).Clears mem m d r) ∨
      (((call.configure mem m).macros m).applyDispatchFlag = true ∧
        ((call.configure mem m).macros m).enabled = true ∧ (call.configure mem m).Wants m d r))

section Call

variable {mem mem' : Memory} {m : MacroId} {call : ConfigCall} {d : DispatcherId} {r : Receiver}

/-- Configuring a macro changes neither its context nor the dispatchers that contexts have. -/
theorem configure_context (mem : Memory) (m : MacroId) (call : ConfigCall) :
    ((call.configure mem m).macros m).context = (mem.macros m).context ∧
      (call.configure mem m).genericDispatcher = mem.genericDispatcher := by
  cases call with
  | setActivators array => exact ⟨by rw [configure, Memory.modify_macros_self], rfl⟩
  | setTriggers array => exact ⟨by rw [configure, Memory.modify_macros_self], rfl⟩
  | setInterruptor val => exact ⟨by rw [configure, Memory.modify_macros_self], rfl⟩
  | applyDispatch => exact ⟨rfl, rfl⟩
  | removeDispatch => exact ⟨rfl, rfl⟩

/-- What a call leaves of the configuration is what it was called to make of it. -/
theorem setup_run (h : call.run mem m = some mem') :
    Memory.SameSetup (call.configure mem m) mem' m ∧
      (mem'.macros m).interruptor = ((call.configure mem m).macros m).interruptor := by
  cases call with
  | setActivators array | setTriggers array =>
    obtain ⟨reg, -, h⟩ := Option.bind_eq_some_iff.mp h
    obtain ⟨reg', -, h⟩ := Option.bind_eq_some_iff.mp h
    obtain rfl := Option.some.inj h
    exact ⟨⟨rfl, rfl, rfl, rfl, rfl, rfl⟩, rfl⟩
  | setInterruptor val =>
    have hspec : MacroCall.Spec mem mem' m (.config (setInterruptor val)) := MacroCall.run_spec h
    obtain ⟨⟨mem₁, flag⟩, hset, rfl⟩ := Option.map_eq_some_iff.mp h
    obtain ⟨hsetup, -⟩ := MacroCall.setup_setInterruptor hset
    rw [configure, Memory.modify_macros_self]
    -- `configure` writes the interruptor only, and the call leaves the other fields
    refine ⟨⟨?_, ?_, ?_, ?_, hsetup.genericDispatcher, hsetup.dispatcherPtr⟩, hspec.interruptor⟩
    · rw [Memory.modify_macros_self]
      exact hsetup.activators
    · rw [Memory.modify_macros_self]
      exact hsetup.triggers
    · rw [Memory.modify_macros_self]
      exact hsetup.context
    · rw [Memory.modify_macros_self]
      exact hsetup.flag
  | applyDispatch =>
    obtain ⟨reg, -, rfl⟩ := Option.map_eq_some_iff.mp h
    exact ⟨⟨rfl, rfl, rfl, rfl, rfl, rfl⟩, rfl⟩
  | removeDispatch =>
    obtain ⟨reg, -, rfl⟩ := Option.map_eq_some_iff.mp h
    exact ⟨⟨rfl, rfl, rfl, rfl, rfl, rfl⟩, rfl⟩

/-- A call leaves the context of the macro, and the generic dispatchers, alone. -/
theorem context_run (h : call.run mem m = some mem') :
    (mem'.macros m).context = (mem.macros m).context ∧
      mem'.genericDispatcher = mem.genericDispatcher := by
  obtain ⟨hsetup, -⟩ := setup_run h
  obtain ⟨hcontext, hgeneric⟩ := configure_context mem m call
  exact ⟨hsetup.context.trans hcontext, hsetup.genericDispatcher.trans hgeneric⟩

/-- **After a call that applies the dispatch** the registration has moved iff the call leaves no
stray pair. -/
theorem moved_iff (h : call.run mem m = some mem')
    (happlies : (MacroCall.config call).Applies mem m) :
    mem'.Moved m ↔ ¬ call.LeavesStray mem m := by
  have hspec : MacroCall.Spec mem mem' m (.config call) := MacroCall.run_spec h
  obtain ⟨hsetup, hinterruptor⟩ := setup_run h
  obtain ⟨hcontext, hgeneric⟩ := context_run h
  have hforeign : ∀ d, mem'.Foreign m d ↔ mem.Foreign m d := by
    intro d
    rw [Memory.Foreign, Memory.Foreign, hcontext, hgeneric]
  have hown : ∀ r, mem'.Own m r ↔ (call.configure mem m).Own m r := by
    intro r
    rw [Memory.Own, Memory.Own, Memory.IsTrigger, Memory.IsTrigger, hsetup.triggers]
  have hadds : ∀ d r, (MacroCall.config call).Adds mem mem' m d r ↔
      (((call.configure mem m).macros m).applyDispatchFlag = true ∧
        ((call.configure mem m).macros m).enabled = true ∧ (call.configure mem m).Wants m d r) := by
    intro d r
    rw [MacroCall.Adds, and_iff_right happlies, hsetup.flag, Memory.Wants.congr hsetup,
      Macro.enabled, Macro.enabled, hinterruptor]
  -- what is registered after the call, in terms of the memory before it
  rw [Memory.Moved, LeavesStray]
  simp only [hforeign, hown, hspec.has, hadds]
  constructor
  · rintro hmoved ⟨d, r, hd, hr, hpair⟩
    exact hmoved d r hd hr hpair
  · intro hstray d r hd hr hpair
    exact hstray ⟨d, r, hd, hr, hpair⟩

end Call

end ConfigCall

/-! ## Out of reach

A context makes its generic dispatcher itself, and no signal gets it. Then nothing that the macro
does reaches the generic dispatcher of another context. -/

/-- Every context has a generic dispatcher of its own, which is no signal's dispatcher. -/
structure Memory.OwnDispatchers (mem : Memory) : Prop where
  /-- No two contexts share one. -/
  context : ∀ c c' d, mem.genericDispatcher c = some d → mem.genericDispatcher c' = some d → c = c'
  /-- No signal has one. -/
  signal : ∀ c d a, mem.genericDispatcher c = some d → mem.dispatcherPtr a ≠ some d

section Reach

variable {mem mem' : Memory} {m : MacroId} {call : ConfigCall} {d : DispatcherId} {r : Receiver}

/-- Whether contexts have dispatchers of their own depends on two tables, which the calls leave
alone. -/
theorem Memory.OwnDispatchers.congr (h : mem.OwnDispatchers)
    (hgeneric : mem'.genericDispatcher = mem.genericDispatcher)
    (hsignal : mem'.dispatcherPtr = mem.dispatcherPtr) : mem'.OwnDispatchers := by
  refine ⟨?_, ?_⟩
  · rw [hgeneric]
    exact h.context
  · rw [hgeneric, hsignal]
    exact h.signal

/-- A foreign dispatcher is neither the generic dispatcher of the macro's context nor that of an
activator. -/
theorem Memory.OwnDispatchers.not_reached (h : mem.OwnDispatchers) (hd : mem.Foreign m d) :
    mem.contextDispatcher m ≠ some (some d) ∧
      ¬ mem.DispatcherOf (mem.macros m).activators d := by
  obtain ⟨c, hc, hgeneric⟩ := hd
  constructor
  · intro hctx
    obtain ⟨c', hc', hd'⟩ := Option.map_eq_some_iff.mp hctx
    rw [h.context c c' d hgeneric hd', hc'] at hc
    exact hc rfl
  · rintro ⟨a, -, ha⟩
    exact h.signal c d a hgeneric ha

/-- `_removeDispatch` removes nothing from a foreign dispatcher. -/
theorem Memory.OwnDispatchers.not_releases (h : mem.OwnDispatchers) (hd : mem.Foreign m d) :
    ¬ mem.Releases m d r := by
  obtain ⟨hctx, hsignal⟩ := h.not_reached hd
  rintro ⟨g, hg, ⟨-, rfl | hdis⟩ | ⟨-, hdis⟩⟩
  · exact hctx hg
  · exact hsignal hdis
  · exact hsignal hdis

/-- `_addDispatch` adds nothing to a foreign dispatcher. -/
theorem Memory.OwnDispatchers.not_wants (h : mem.OwnDispatchers) (hd : mem.Foreign m d) :
    ¬ mem.Wants m d r := by
  obtain ⟨hctx, hsignal⟩ := h.not_reached hd
  rintro ⟨g, hg, hw⟩
  rw [Memory.Wanted] at hw
  split_ifs at hw
  · exact hctx (hw.1 ▸ hg)
  · exact hctx (hw.1 ▸ hg)
  · exact hsignal hw.1
  · exact hsignal hw.1

namespace ConfigCall

/-- A foreign dispatcher is foreign to the macro as configured. -/
theorem foreign_configure : (call.configure mem m).Foreign m d ↔ mem.Foreign m d := by
  obtain ⟨hcontext, hgeneric⟩ := configure_context mem m call
  rw [Memory.Foreign, Memory.Foreign, hcontext, hgeneric]

/-- Configuring a macro leaves each context with a dispatcher of its own. -/
theorem ownDispatchers_configure (h : mem.OwnDispatchers) :
    (call.configure mem m).OwnDispatchers := by
  cases call <;> exact h.congr rfl rfl

/-- No call clears anything on a foreign dispatcher. -/
theorem not_clears (h : mem.OwnDispatchers) (hd : mem.Foreign m d) :
    ¬ (MacroCall.config call).Clears mem m d r := by
  have hconfigured : ¬ (call.configure mem m).Releases m d r :=
    (ownDispatchers_configure h).not_releases (foreign_configure.mpr hd)
  cases call with
  -- these remove before they write the field, and again when they apply it
  | setActivators array | setTriggers array =>
    rintro (hbefore | ⟨-, hafter⟩)
    · exact h.not_releases hd hbefore
    · exact hconfigured hafter
  | setInterruptor val => exact fun hclears => h.not_releases hd hclears.2.2
  | applyDispatch => exact fun hclears => h.not_releases hd hclears.2
  | removeDispatch => exact fun hclears => h.not_releases hd hclears

/-- **A call leaves a stray pair iff there is one**: what is registered elsewhere stays. -/
theorem leavesStray_iff (h : mem.OwnDispatchers) : call.LeavesStray mem m ↔
    ∃ d r, mem.Foreign m d ∧ (call.configure mem m).Own m r ∧ Registry.Has mem.dispatchers d r := by
  constructor
  · rintro ⟨d, r, hd, hr, ⟨hhas, -⟩ | ⟨-, -, hwants⟩⟩
    · exact ⟨d, r, hd, hr, hhas⟩
    · exact absurd hwants ((ownDispatchers_configure h).not_wants (foreign_configure.mpr hd))
  · rintro ⟨d, r, hd, hr, hhas⟩
    exact ⟨d, r, hd, hr, .inl ⟨hhas, not_clears h hd⟩⟩

end ConfigCall

end Reach

/-! ## Sequences of calls -/

/-- A call of the client on a macro that may change its context. -/
inductive ContextCall where
  /-- `setContext`, with a context. -/
  | setContext (ctx : ContextId)
  /-- `setActivators`, `setTriggers`, `setInterruptor`, `applyDispatch` or `removeDispatch`. -/
  | config (call : ConfigCall)

namespace ContextCall

variable (m : MacroId)

/-- **The registration moves with the context**: every call of the sequence returns; the
registration has moved after every call that applies the dispatch; and when the macro is destroyed
after the sequence, no generic dispatcher of a context it ever had (`had` and those set) contains
it. -/
def MovesAfter : List ContextCall → List ContextId → Memory → Prop
  | [], had, mem => ∃ mem', MacroCall.destroy.run mem m = some mem' ∧
    ∀ c ∈ had, ∀ d, mem'.genericDispatcher c = some d →
      ¬ Registry.Has mem'.dispatchers d (.ofMacro m)
  | setContext ctx :: calls, had, mem => MovesAfter calls (ctx :: had) (mem.setContext m ctx)
  | config call :: calls, had, mem => ∃ mem', call.run mem m = some mem' ∧
    ((MacroCall.config call).Applies mem m → mem'.Moved m) ∧ MovesAfter calls had mem'

/-- No call that applies the dispatch leaves a stray pair, and at the end the macro is with no
generic dispatcher of a context it had but those from which `_removeDispatch` takes it. -/
def NeverStrays : List ContextCall → List ContextId → Memory → Prop
  | [], had, mem => ∀ c ∈ had, ∀ d, mem.genericDispatcher c = some d →
    Registry.Has mem.dispatchers d (.ofMacro m) → mem.Releases m d (.ofMacro m)
  | setContext ctx :: calls, had, mem => NeverStrays calls (ctx :: had) (mem.setContext m ctx)
  | config call :: calls, had, mem =>
    ((MacroCall.config call).Applies mem m → ¬ call.LeavesStray mem m) ∧
      ∀ mem', call.run mem m = some mem' → NeverStrays calls had mem'

/-- **The registration moves with the context iff no call leaves a stray pair**, for every sequence
of calls on a macro that has a context. -/
theorem movesAfter_iff (calls : List ContextCall) (had : List ContextId) (mem : Memory)
    (hctx : ((mem.macros m).context).isSome = true) :
    MovesAfter m calls had mem ↔ NeverStrays m calls had mem := by
  induction calls generalizing had mem with
  | nil =>
    -- the destructor adds nothing: what is left is what it does not remove
    obtain ⟨mem', hrun⟩ := MacroCall.exists_disableEverything hctx
    have hspec : MacroCall.Spec mem mem' m .destroy := MacroCall.run_spec hrun
    have hhas : ∀ d, Registry.Has mem'.dispatchers d (.ofMacro m) ↔
        Registry.Has mem.dispatchers d (.ofMacro m) ∧ ¬ mem.Releases m d (.ofMacro m) := by
      intro d
      rw [hspec.has]
      exact or_iff_left fun hadds => hadds.1
    constructor
    · rintro ⟨mem₁, hrun₁, hgone⟩ c hc d hd hmem
      obtain rfl := Option.some.inj (hrun.symm.trans hrun₁)
      by_contra hreleases
      refine hgone c hc d ?_ ((hhas d).mpr ⟨hmem, hreleases⟩)
      rw [hspec.genericDispatcher]
      exact hd
    · intro hstrays
      refine ⟨mem', hrun, fun c hc d hd hmem => ?_⟩
      rw [hspec.genericDispatcher] at hd
      obtain ⟨hbefore, hreleases⟩ := (hhas d).mp hmem
      exact hreleases (hstrays c hc d hd hbefore)
  | cons call calls ih =>
    cases call with
    | setContext ctx =>
      refine ih (ctx :: had) (mem.setContext m ctx) ?_
      rw [Memory.setContext, Memory.modify_macros_self]
      rfl
    | config call =>
      obtain ⟨mem', hrun⟩ := MacroCall.exists_config_run hctx call
      have hctx' : ((mem'.macros m).context).isSome = true := by
        rw [(ConfigCall.context_run hrun).1]
        exact hctx
      -- the call has one result, and the rest of the sequence runs from it
      have hrest := ih had mem' hctx'
      constructor
      · rintro ⟨mem₁, hrun₁, hmoved, hafter⟩
        obtain rfl := Option.some.inj (hrun.symm.trans hrun₁)
        refine ⟨fun happlies => (ConfigCall.moved_iff hrun happlies).mp (hmoved happlies), ?_⟩
        intro mem₂ hrun₂
        obtain rfl := Option.some.inj (hrun.symm.trans hrun₂)
        exact hrest.mp hafter
      · rintro ⟨hstray, hafter⟩
        exact ⟨mem', hrun, fun happlies => (ConfigCall.moved_iff hrun happlies).mpr
          (hstray happlies), hrest.mpr (hafter mem' hrun)⟩

/-- Two contexts, with generic dispatchers of their own. Signal 7 has dispatcher 2. -/
def twoContexts : Memory where
  genericDispatcher c := some c
  dispatcherPtr signalPtr := if signalPtr = 7 then some 2 else none
  macros _ := { context := some 0 }

/-- Before the first call nothing is registered with either of them. -/
theorem not_has_twoContexts {d : DispatcherId} {r : Receiver} :
    ¬ Registry.Has twoContexts.dispatchers d r := by
  simp [twoContexts, Registry.Has, Dispatcher.Has]

/-- A client that removes the registration before it changes the context, and applies the dispatch
afterwards: the registration moves from dispatcher 0 to dispatcher 1. -/
theorem movesAfter_iff_twoContexts :
    NeverStrays 0 [.config (.setInterruptor .continue), .config .removeDispatch, .setContext 1,
        .config .applyDispatch] [0] twoContexts ∧
      MovesAfter 0 [.config (.setInterruptor .continue), .config .removeDispatch, .setContext 1,
        .config .applyDispatch] [0] twoContexts := by
  have hnever : NeverStrays 0 [.config (.setInterruptor .continue), .config .removeDispatch,
      .setContext 1, .config .applyDispatch] [0] twoContexts := by
    refine ⟨fun _ => ?_, fun mem₁ h₁ => ⟨fun happlies => happlies.elim, fun mem₂ h₂ => ?_⟩⟩
    · -- enabled: the generic dispatcher of its own context is not foreign
      rintro ⟨d, r, ⟨c, hc, hd⟩, -, ⟨hhas, -⟩ | ⟨-, -, hwants⟩⟩
      · exact not_has_twoContexts hhas
      · obtain ⟨hg, -⟩ := (Memory.wants_of_bare rfl rfl).mp hwants
        obtain rfl : c = 0 := Option.some.inj (hd.trans (Option.some.inj hg).symm)
        exact hc rfl
    have hnone : ∀ d r, ¬ Registry.Has mem₂.dispatchers d r := by
      -- `removeDispatch` removes the one pair that enabling has added
      intro d r hhas
      have hspec₁ : MacroCall.Spec twoContexts mem₁ 0 (.config (.setInterruptor .continue)) :=
        MacroCall.run_spec h₁
      have hspec₂ : MacroCall.Spec mem₁ mem₂ 0 (.config .removeDispatch) := MacroCall.run_spec h₂
      rcases (hspec₂.has d r).mp hhas with ⟨hhas, hclears⟩ | ⟨happlies, -⟩
      · rcases (hspec₁.has d r).mp hhas with ⟨hold, -⟩ | ⟨-, -, -, hwants⟩
        · exact not_has_twoContexts hold
        · obtain rfl := Option.some.inj h₁
          obtain ⟨hg, rfl⟩ := (Memory.wants_of_bare rfl rfl).mp hwants
          exact hclears ⟨_, hg, .inl ⟨rfl, .inl rfl⟩⟩
      · exact happlies
    refine ⟨fun _ => ?_, fun mem₃ h₃ c _ d hd hhas => ?_⟩
    · -- applied: the same in the new context
      rintro ⟨d, r, ⟨c, hc, hd⟩, -, ⟨hhas, -⟩ | ⟨-, -, hwants⟩⟩
      · exact hnone d r hhas
      · obtain rfl := Option.some.inj h₁
        obtain rfl := Option.some.inj h₂
        obtain ⟨hg, -⟩ := (Memory.wants_of_bare rfl rfl).mp hwants
        obtain rfl : c = 1 := Option.some.inj (hd.trans (Option.some.inj hg).symm)
        exact hc rfl
    · -- what the destructor finds, it removes
      have hspec₃ : MacroCall.Spec (mem₂.setContext 0 1) mem₃ 0 (.config .applyDispatch) :=
        MacroCall.run_spec h₃
      rcases (hspec₃.has d _).mp hhas with ⟨hold, -⟩ | ⟨-, -, -, hwants⟩
      · exact absurd hold (hnone d _)
      · obtain rfl := Option.some.inj h₁
        obtain rfl := Option.some.inj h₂
        obtain rfl := Option.some.inj h₃
        obtain ⟨hg, -⟩ := (Memory.wants_of_bare rfl rfl).mp hwants
        exact ⟨_, hg, .inl ⟨rfl, .inl rfl⟩⟩
  exact ⟨hnever, (movesAfter_iff 0 _ [0] twoContexts rfl).mpr hnever⟩

/-- **The macro stays with the generic dispatcher of its first context**: it is enabled, which
registers it there, gets another context and is destroyed. -/
theorem not_movesAfter_setContext : (twoContexts.macros 0).applyDispatchFlag = true ∧
    ¬ MovesAfter 0 [.config (.setInterruptor .continue), .setContext 1, .config .applyDispatch] [0]
      twoContexts ∧
    ¬ MovesAfter 0 [.config (.setInterruptor .continue), .setContext 1] [0] twoContexts := by
  refine ⟨rfl, ?_, ?_⟩
  · rintro ⟨mem₁, h₁, -, mem₂, h₂, hmoved, -⟩
    have hstate : ((ConfigCall.run twoContexts 0 (.setInterruptor .continue)).bind fun mem =>
        (ConfigCall.run (mem.setContext 0 1) 0 .applyDispatch).map fun mem =>
          (decide (some 0 ≠ (mem.macros 0).context), mem.genericDispatcher 0,
            decide (Registry.Has mem.dispatchers 0 (.ofMacro 0)))) =
        some (true, some 0, true) := by decide
    rw [h₁, Option.bind_some, h₂, Option.map_some, Option.some_inj, Prod.mk.injEq, Prod.mk.injEq,
      decide_eq_true_eq, decide_eq_true_eq] at hstate
    obtain ⟨hother, hgeneric, hhas⟩ := hstate
    exact hmoved trivial 0 (.ofMacro 0) ⟨0, hother, hgeneric⟩ (.inl rfl) hhas
  · rintro ⟨mem₁, h₁, -, mem₂, h₂, hgone⟩
    have hstate : ((ConfigCall.run twoContexts 0 (.setInterruptor .continue)).bind fun mem =>
        (MacroCall.destroy.run (mem.setContext 0 1) 0).map fun mem =>
          (mem.genericDispatcher 0, decide (Registry.Has mem.dispatchers 0 (.ofMacro 0)))) =
        some (some 0, true) := by decide
    rw [h₁, Option.bind_some, h₂, Option.map_some, Option.some_inj, Prod.mk.injEq,
      decide_eq_true_eq] at hstate
    obtain ⟨hgeneric, hhas⟩ := hstate
    exact hgone 0 (by simp) 0 hgeneric hhas

/-- The memory after a sequence of calls. -/
def runs : List ContextCall → Memory → Option Memory
  | [], mem => some mem
  | setContext ctx :: calls, mem => runs calls (mem.setContext m ctx)
  | config call :: calls, mem => (call.run mem m).bind (runs calls)

/-- **A stray registration outlives the macro**: what is registered with the generic dispatcher of
a context stays there, in every sequence of calls with other contexts, and after the destructor. -/
theorem stays_registered {c : ContextId} {d : DispatcherId} {r : Receiver}
    {calls : List ContextCall} {mem mem' mem'' : Memory} (h : mem.OwnDispatchers)
    (hd : mem.genericDispatcher c = some d) (hhas : Registry.Has mem.dispatchers d r)
    (hcontext : some c ≠ (mem.macros m).context)
    (hcalls : ∀ ctx, setContext ctx ∈ calls → c ≠ ctx) (hruns : runs m calls mem = some mem')
    (hdestroy : MacroCall.destroy.run mem' m = some mem'') :
    Registry.Has mem''.dispatchers d r := by
  induction calls generalizing mem with
  | nil =>
    obtain rfl := Option.some.inj hruns
    rw [(MacroCall.run_spec hdestroy).has]
    -- the destructor removes from the generic dispatcher of the last context only
    exact .inl ⟨hhas, h.not_releases ⟨c, hcontext, hd⟩⟩
  | cons call calls ih =>
    have hrest : ∀ ctx, setContext ctx ∈ calls → c ≠ ctx :=
      fun ctx hctx => hcalls ctx (List.mem_cons_of_mem _ hctx)
    cases call with
    | setContext ctx =>
      -- a new context is not `c`, and no registration changes
      refine @ih (mem.setContext m ctx) (h.congr rfl rfl) hd hhas ?_ hrest hruns
      rw [Memory.setContext, Memory.modify_macros_self]
      exact fun heq => hcalls ctx List.mem_cons_self (Option.some.inj heq)
    | config call =>
      obtain ⟨mem₁, hrun, hruns⟩ := Option.bind_eq_some_iff.mp hruns
      have hspec : MacroCall.Spec mem mem₁ m (.config call) := MacroCall.run_spec hrun
      obtain ⟨hcontext₁, hgeneric₁⟩ := ConfigCall.context_run hrun
      -- any other call keeps the context, and clears nothing on the dispatcher of `c`
      refine ih (h.congr hgeneric₁ hspec.dispatcherPtr) (hgeneric₁ ▸ hd) ?_ (hcontext₁ ▸ hcontext)
        hrest hruns
      rw [hspec.has]
      exact .inl ⟨hhas, ConfigCall.not_clears h ⟨c, hcontext, hd⟩⟩

end ContextCall

end Libmacro
