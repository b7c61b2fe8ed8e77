import Libmacro.Receivers

/-! # Disabled macros

A disabled macro is not started, but it or a trigger given to it may still block a dispatch when
it is registered. Which pairs stay registered when a call leaves the macro disabled is known
before the call (`MacroCall.Clears`): the macro is inert after every call of a sequence iff no
call leaves a receiver that can block (`inertAfter_iff`). -/

namespace Libmacro

/-- The trigger blocks some dispatch: there are a signal and modifiers for which its `receive`
returns true. -/
def Trigger.CanBlock (trig : Trigger) : Prop :=
  ∃ signalPtr mods, (trig.receive signalPtr mods).2 = true

section Inert

variable (triggers : TriggerId → Trigger) (mem : Memory) (m : MacroId) (given : List TriggerId)

/-- **The macro is inert**: no dispatch of any signal with any modifiers on any dispatcher, in any
order of its receivers, changes the macro (it spawns no worker in particular) or ends because the
macro or a trigger given to it blocked. -/
def Inert : Prop :=
  ∀ d order, (mem.dispatchers d).Enumerates order → ∀ worker signalPtr mods,
    (mem.dispatch triggers worker signalPtr mods order).1.macros m = mem.macros m ∧
      ∀ r, (mem.dispatch triggers worker signalPtr mods order).2 = some r →
        ¬ Memory.Owns m {t | t ∈ given} r

/-- The receiver belongs to the macro and can block; `blocking` is the macro's flag. -/
def OwnBlocker (blocking : Bool) (r : Receiver) : Prop :=
  (r = .ofMacro m ∧ blocking = true) ∨ ∃ t ∈ given, r = .trigger t ∧ (triggers t).CanBlock

variable {triggers mem m given}

/-- A dispatch leaves a disabled macro as it is, and a receiver of the macro that ends it is
registered and can block. -/
theorem dispatch_of_disable (hdis : (mem.macros m).interruptor = .disable)
    (worker : Memory → MacroId → Option ThreadId) (signalPtr : Option SignalId)
    (mods : ModFlags) (order : List (Option Receiver)) :
    (mem.dispatch triggers worker signalPtr mods order).1.macros m = mem.macros m ∧
      ∀ r, (mem.dispatch triggers worker signalPtr mods order).2 = some r →
        Memory.Owns m {t | t ∈ given} r →
          some r ∈ order ∧ OwnBlocker triggers m given (mem.macros m).blocking r := by
  induction order generalizing mem with
  | nil =>
    rw [Memory.dispatch]
    exact ⟨rfl, fun r h => absurd h (by simp)⟩
  | cons r? rest ih =>
    cases r? with
    | none =>
      rw [Memory.dispatch]
      obtain ⟨hmac, hby⟩ := ih hdis
      refine ⟨hmac, fun r hr hown => ?_⟩
      obtain ⟨hmem, hblock⟩ := hby r hr hown
      exact ⟨List.mem_cons_of_mem _ hmem, hblock⟩
    | some r =>
      have hmac := Memory.receive_macros triggers worker signalPtr mods mem r hdis
      rw [Memory.dispatch]
      cases hreceive : mem.receive triggers worker signalPtr mods r with
      | mk mem₁ blockFlag =>
        rw [hreceive] at hmac
        dsimp only at hmac ⊢
        cases blockFlag with
        | false =>
          -- the macro is as it was, so the rest is again a dispatch of a disabled macro
          rw [if_neg Bool.false_ne_true, ← hmac]
          obtain ⟨hmac₁, hby⟩ := @ih mem₁ (by rw [hmac]; exact hdis)
          refine ⟨hmac₁, fun r' hr' hown => ?_⟩
          obtain ⟨hmem, hblock⟩ := hby r' hr' hown
          exact ⟨List.mem_cons_of_mem _ hmem, hblock⟩
        | true =>
          -- this receiver ends the dispatch
          rw [if_pos rfl]
          refine ⟨hmac, fun r' hr' hown => ?_⟩
          obtain rfl := Option.some.inj hr'
          refine ⟨List.mem_cons_self, ?_⟩
          rcases hown with rfl | ⟨t, ht, rfl⟩
          · refine Or.inl ⟨rfl, ?_⟩
            have hblock := congrArg Prod.snd hreceive
            rw [Memory.receive, Memory.start_of_disable hdis] at hblock
            exact hblock
          · refine Or.inr ⟨t, ht, rfl, signalPtr, mods, ?_⟩
            rw [← Memory.receive_trigger_snd triggers worker signalPtr mods mem t, hreceive]

/-- **A disabled macro is inert** iff nothing of it that can block is registered. -/
theorem inert_iff_noOwnBlocker (hdis : (mem.macros m).interruptor = .disable) :
    Inert triggers mem m given ↔ ∀ d r, Registry.Has mem.dispatchers d r →
      ¬ OwnBlocker triggers m given (mem.macros m).blocking r := by
  constructor
  · intro hinert d r hhas hblock
    -- the blocker may come first
    obtain ⟨rest, horder⟩ := Dispatcher.exists_enumerates_cons hhas
    have hfirst : ∀ signalPtr mods, (mem.receive triggers (fun _ _ => none) signalPtr mods r).2
        = true → Memory.Owns m {t | t ∈ given} r → False := by
      intro signalPtr mods hreceive hown
      obtain ⟨-, hby⟩ := hinert d _ horder (fun _ _ => none) signalPtr mods
      refine hby r ?_ hown
      rw [Memory.dispatch]
      cases hpair : mem.receive triggers (fun _ _ => none) signalPtr mods r with
      | mk mem₁ blockFlag =>
        rw [hpair] at hreceive
        dsimp only at hreceive ⊢
        rw [if_pos hreceive]
    rcases hblock with ⟨rfl, hblocking⟩ | ⟨t, ht, rfl, signalPtr, mods, hreceive⟩
    · refine hfirst none 0 ?_ (Or.inl rfl)
      rw [Memory.receive, Memory.start_of_disable hdis]
      exact hblocking
    · refine hfirst signalPtr mods ?_ (Or.inr ⟨t, ht, rfl⟩)
      rw [Memory.receive_trigger_snd]
      exact hreceive
  · intro hnone d order horder worker signalPtr mods
    obtain ⟨hmac, hby⟩ :=
      @dispatch_of_disable triggers mem m given hdis worker signalPtr mods order
    refine ⟨hmac, fun r hr hown => ?_⟩
    obtain ⟨hmem, hblock⟩ := hby r hr hown
    exact hnone d r ((horder.2 (some r)).mp hmem) hblock

end Inert

namespace MacroCall

variable (triggers : TriggerId → Trigger) (m : MacroId)

/-- **The call leaves a blocker**: the macro is disabled after it, and a receiver of the macro that
can block then was registered before and is not cleared. -/
def LeavesBlocker (mem : Memory) (given : List TriggerId) (call : MacroCall) : Prop :=
  call.interruptorAfter mem m = .disable ∧
    ∃ d r, Registry.Has mem.dispatchers d r ∧ ¬ call.Clears mem m d r ∧
      OwnBlocker triggers m (call.gives mem m ++ given) (call.blockingAfter mem m) r

/-- Every call of the sequence returns, and the macro is inert after it if it is disabled. -/
def InertAfter : List MacroCall → List TriggerId → Memory → Prop
  | [], _, _ => True
  | call :: calls, given, mem =>
    ∃ mem', call.run mem m = some mem' ∧
      ((mem'.macros m).interruptor = .disable →
        Inert triggers mem' m (call.gives mem m ++ given)) ∧
      InertAfter calls (call.gives mem m ++ given) mem'

/-- No call of the sequence leaves a blocker. -/
def NeverLeavesBlocker : List MacroCall → List TriggerId → Memory → Prop
  | [], _, _ => True
  | call :: calls, given, mem =>
    ¬ call.LeavesBlocker triggers m mem given ∧
      ∀ mem', call.run mem m = some mem' →
        NeverLeavesBlocker calls (call.gives mem m ++ given) mem'

variable {triggers m} {mem mem' : Memory} {given : List TriggerId} {call : MacroCall}

/-- One call: the macro is inert after it iff it leaves no blocker. -/
theorem Spec.inert_iff (h : Spec mem mem' m call) :
    ((mem'.macros m).interruptor = .disable →
        Inert triggers mem' m (call.gives mem m ++ given)) ↔
      ¬ call.LeavesBlocker triggers m mem given := by
  rw [LeavesBlocker, ← h.interruptor, ← h.blocking]
  constructor
  · rintro hinert ⟨hdis, d, r, hhas, hclears, hblock⟩
    have hhas' := (h.has_iff_of_disabled hdis d r).mpr ⟨hhas, hclears⟩
    exact (inert_iff_noOwnBlocker hdis).mp (hinert hdis) d r hhas' hblock
  · intro hleaves hdis
    rw [inert_iff_noOwnBlocker hdis]
    intro d r hhas' hblock
    obtain ⟨hhas, hclears⟩ := (h.has_iff_of_disabled hdis d r).mp hhas'
    exact hleaves ⟨hdis, d, r, hhas, hclears, hblock⟩

/-- **A disabled macro is inert after every call of a sequence iff no call leaves a blocker**, from
any memory in which macros have contexts. -/
theorem inertAfter_iff (triggers : TriggerId → Trigger) (m : MacroId) (calls : List MacroCall)
    (given : List TriggerId) (mem : Memory) (hctx : Contexts mem) :
    InertAfter triggers m calls given mem ↔ NeverLeavesBlocker triggers m calls given mem := by
  induction calls generalizing given mem with
  | nil => exact Iff.rfl
  | cons call calls ih =>
    obtain ⟨mem', hrun⟩ := exists_run hctx m call
    have hspec := run_spec hrun
    -- the call has one result, and the rest of the sequence runs from it
    have hrest := ih (call.gives mem m ++ given) mem' (hspec.contexts hctx)
    constructor
    · rintro ⟨mem₁, hrun₁, hinert, hafter⟩
      obtain rfl := Option.some.inj (hrun.symm.trans hrun₁)
      refine ⟨hspec.inert_iff.mp hinert, fun mem₂ hrun₂ => ?_⟩
      obtain rfl := Option.some.inj (hrun.symm.trans hrun₂)
      exact hrest.mp hafter
    · rintro ⟨hleaves, hafter⟩
      exact ⟨mem', hrun, hspec.inert_iff.mpr hleaves, hrest.mpr (hafter mem' hrun)⟩

/-- A macro without triggers is enabled, made to block and disabled: its one registration, on the
generic dispatcher, is removed, and it is inert. -/
theorem inertAfter_iff_fresh :
    NeverLeavesBlocker blockingAction 0 [.config (.setInterruptor .continue), .setBlocking true,
        .config (.setInterruptor .disable)] [] ConfigCall.fresh ∧
      InertAfter blockingAction 0 [.config (.setInterruptor .continue), .setBlocking true,
        .config (.setInterruptor .disable)] [] ConfigCall.fresh := by
  have hnever : NeverLeavesBlocker blockingAction 0 [.config (.setInterruptor .continue),
      .setBlocking true, .config (.setInterruptor .disable)] [] ConfigCall.fresh := by
    refine ⟨fun h => absurd h.1 (by decide), fun mem₁ h₁ => ⟨?_, fun mem₂ h₂ => ⟨?_, fun _ _ =>
      trivial⟩⟩⟩
    · -- the macro stays enabled
      rintro ⟨hdis, -⟩
      obtain rfl := Option.some.inj h₁
      exact absurd hdis (by decide)
    · -- the only pair there is is the one that the first call has added
      rintro ⟨-, d, r, hhas, hclears, -⟩
      have hspec := run_spec h₁
      obtain rfl := Option.some.inj h₂
      rcases (hspec.has d r).mp hhas with ⟨hold, -⟩ | ⟨-, -, -, hwants⟩
      · exact ConfigCall.not_has_fresh hold
      · obtain rfl := Option.some.inj h₁
        obtain ⟨hg, rfl⟩ := (Memory.wants_of_bare rfl rfl).mp hwants
        exact hclears ⟨by decide, rfl, _, hg, .inl ⟨rfl, .inl rfl⟩⟩
  exact ⟨hnever, (inertAfter_iff blockingAction 0 _ [] ConfigCall.fresh contexts_fresh).mpr hnever⟩

/-- **A disabled macro still blocks**: a macro without activators is enabled, given the blocking
trigger 5 and disabled; the trigger is still with the generic dispatcher and blocks. -/
theorem not_inertAfter_disable : Contexts ConfigCall.fresh ∧
    ¬ InertAfter blockingAction 0 [.config (.setInterruptor .continue),
      .config (.setTriggers [5]), .config (.setInterruptor .disable)] [] ConfigCall.fresh := by
  refine ⟨contexts_fresh, ?_⟩
  rintro ⟨mem₁, h₁, -, mem₂, h₂, -, mem₃, h₃, hinert, -⟩
  have hstate : ((run ConfigCall.fresh 0 (.config (.setInterruptor .continue))).bind fun mem =>
      (run mem 0 (.config (.setTriggers [5]))).bind fun mem =>
        (run mem 0 (.config (.setInterruptor .disable))).map fun mem =>
          ((mem.macros 0).interruptor,
            decide (Registry.Has mem.dispatchers 0 (.trigger 5)))) =
      some (.disable, true) := by decide
  rw [h₁, Option.bind_some, h₂, Option.bind_some, h₃, Option.map_some, Option.some_inj,
    Prod.mk.injEq, decide_eq_true_eq] at hstate
  obtain ⟨hdis, hhas⟩ := hstate
  have hblocks : (blockingAction 5).CanBlock := ⟨none, 0, by decide⟩
  have hnone := (inert_iff_noOwnBlocker hdis).mp (hinert hdis)
  refine hnone 0 (.trigger 5) hhas (Or.inr ⟨5, ?_, rfl, hblocks⟩)
  exact List.mem_append_right _ List.mem_cons_self

end MacroCall

end Libmacro
