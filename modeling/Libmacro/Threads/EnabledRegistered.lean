import Libmacro.Threads.DisableKept

/-! # Enabled and registered

`setInterruptor` registers or removes a macro when its previous value or the new one is `DISABLE`;
it reads the previous value before it takes the mutex. `registered_iff_enabled`: a macro with
activators is registered with their dispatchers exactly when it is enabled, in every state in which
no `setInterruptor` is in progress, provided that a write over `DISABLE` is made by a call that had
read `DISABLE`, or with an `applyDispatch()` still to come. -/

namespace Libmacro

open Interleaving

namespace Memory

/-- The receiver stands for macro `m` with the dispatchers of its activators: one of its triggers,
or the macro when it has none. -/
def Receives (mem : Memory) (m : MacroId) (r : Receiver) : Prop :=
  if (mem.macros m).triggers = [] then r = .ofMacro m else mem.IsTrigger m r

/-- **Enabled and registered in step**: the macro, or its triggers, are registered with the
activators' dispatchers iff it is enabled. -/
def RegisteredIffEnabled (mem : Memory) (m : MacroId) : Prop :=
  ∀ d r, mem.DispatcherOf (mem.macros m).activators d → mem.Receives m r →
    (Registry.Has mem.dispatchers d r ↔ (mem.macros m).enabled = true)

variable {mem mem' : Memory} {m m' : MacroId} {d : DispatcherId} {r : Receiver}
  {g : Option DispatcherId} {reg : Registry}

/-- A macro with activators wants its receivers with their dispatchers. -/
theorem wanted_iff_receives (hact : (mem.macros m).activators ≠ []) :
    mem.Wanted m g d r ↔ mem.DispatcherOf (mem.macros m).activators d ∧ mem.Receives m r := by
  rw [Wanted, if_neg hact, Receives]

/-- A macro that applies its dispatch has a context. -/
theorem context_of_applyDispatch (hflag : (mem.macros m).applyDispatchFlag = true)
    (h : mem.applyDispatch m mem.dispatchers = some reg) :
    ∃ g, mem.contextDispatcher m = some g := by
  rw [applyDispatch, if_pos hflag] at h
  obtain ⟨reg', hreg', -⟩ := Option.bind_eq_some_iff.mp h
  obtain ⟨g, hg, -⟩ := Option.bind_eq_some_iff.mp hreg'
  exact ⟨g, hg⟩

/-- What `applyDispatch()` leaves registered, whenever it comes to an end. -/
theorem has_of_applyDispatch (hflag : (mem.macros m).applyDispatchFlag = true)
    (h : mem.applyDispatch m mem.dispatchers = some reg) : ∃ g, ∀ d r, reg.Has d r ↔
      (Registry.Has mem.dispatchers d r ∧ ¬ mem.Released m g d r) ∨
        ((mem.macros m).enabled = true ∧ mem.Wanted m g d r) := by
  obtain ⟨g, hg⟩ := context_of_applyDispatch hflag h
  obtain ⟨reg', hreg', hhas⟩ := has_applyDispatch mem.dispatchers hg hflag
  obtain rfl := Option.some.inj (h.symm.trans hreg')
  exact ⟨g, hhas⟩

/-- **`applyDispatch()` puts a macro with activators in step.** -/
theorem registeredIffEnabled_of_apply (hact : (mem.macros m).activators ≠ [])
    (hflag : (mem.macros m).applyDispatchFlag = true)
    (h : Block.applyDispatch.apply m mem = some mem') : mem'.RegisteredIffEnabled m := by
  obtain ⟨reg, hreg, rfl⟩ := Option.map_eq_some_iff.mp h
  obtain ⟨g, hhas⟩ := has_of_applyDispatch hflag hreg
  intro d r hd hr
  have hwanted : mem.Wanted m g d r := (wanted_iff_receives hact).mpr ⟨hd, hr⟩
  have hreleased : mem.Released m g d r := by
    by_contra hnot
    exact hact (wanted_not_released_iff.mp ⟨hwanted, hnot⟩).1
  show Registry.Has reg d r ↔ _
  rw [hhas]
  simp [hwanted, hreleased]

/-- `applyDispatch()` of another macro leaves the receivers alone that it does not share. -/
theorem has_of_apply_of_ne (hm : m' ≠ m)
    (hshared : ∀ t ∈ (mem.macros m').triggers, t ∉ (mem.macros m).triggers)
    (h : Block.applyDispatch.apply m' mem = some mem') (hr : mem.Receives m r) :
    Registry.Has mem'.dispatchers d r ↔ Registry.Has mem.dispatchers d r := by
  obtain ⟨reg, hreg, rfl⟩ := Option.map_eq_some_iff.mp h
  show Registry.Has reg d r ↔ _
  -- the receiver is neither the other macro nor one of its triggers
  have hforeign : ¬ (r = .ofMacro m' ∨ mem.IsTrigger m' r) := by
    unfold Receives at hr
    split at hr
    · subst hr
      simp [IsTrigger, Ne.symm hm]
    · obtain ⟨t, ht, rfl⟩ := hr
      rintro (h | ⟨t', ht', h⟩)
      · cases h
      · cases h
        exact hshared t ht' ht
  cases hflag : (mem.macros m').applyDispatchFlag with
  | false =>
    simp only [applyDispatch, hflag] at hreg
    cases hreg
    rfl
  | true =>
    obtain ⟨g, hhas⟩ := has_of_applyDispatch hflag hreg
    have hreleased : ¬ mem.Released m' g d r := fun h => hforeign (owner_of_released h)
    have hwanted : ¬ mem.Wanted m' g d r := fun h => hforeign (owner_of_wanted h)
    rw [hhas]
    tauto

end Memory

/-! ## Threads -/

/-- A `setInterruptor` of macro `m` is in progress, a client's or another. -/
def Thread.sets (m : MacroId) : Thread → Bool
  | worker m' _ (.consume _ (.set _)) => m' = m
  | reset m' _ (.set _) => m' = m
  | call m' (.setInterruptor _ _) => m' = m
  | _ => false

/-- The thread's next step writes another value than `DISABLE` to the interruptor of macro `m`,
without having read `DISABLE` as the previous value. -/
def Thread.enablesBlindly (m : MacroId) : Thread → Bool
  | worker m' _ (.consume _ (.set (.store prev))) => m' = m ∧ prev ≠ .disable
  | call m' (.setInterruptor val (.store prev)) => m' = m ∧ val ≠ .disable ∧ prev ≠ .disable
  | call m' (.start .cancel) => m' = m
  | reset m' _ (.set (.store prev)) => m' = m ∧ prev ≠ .disable
  | reset m' _ (.dequeue _ .interruptor) | reset m' _ (.clear _ (.dequeue .interruptor)) => m' = m
  | _ => false

/-- An `applyDispatch()` of a `setInterruptor` of macro `m` is still to come. -/
def AppliesLater (m : MacroId) (c : Config Memory Thread) : Prop :=
  ∃ t ∈ c.pool, t.applies m = true

/-- Whether a call of the pool applies the dispatch later is read off where it stands. -/
instance (m : MacroId) (c : Config Memory Thread) : Decidable (AppliesLater m c) :=
  inferInstanceAs (Decidable (∃ t ∈ c.pool, t.applies m = true))

/-- A step that writes over `DISABLE` is the store of a call that had read `DISABLE`, or an
`applyDispatch()` is still to come. -/
def enablesKnowingly (m : MacroId) (c : Config Memory Thread) : Label Thread Bool → Bool
  | .step i _ => (c.shared.macros m).interruptor ≠ .disable ∨
      (c.pool[i]?).all (fun t => !t.enablesBlindly m) ∨ AppliesLater m c
  | .call _ => true

/-- The calls that leave the configuration of the macro they are made on. -/
def keepsConfig : CallKind → Bool
  | .setter | .setContext | .copy | .destroy => false
  | _ => true

/-- The clients' calls leave the configuration, and are made on macro `m` or on one that shares no
trigger with it. -/
def configKept (m : MacroId) (c : Config Memory Thread) : Label Thread Bool → Bool
  | .call t => t.only t.macroId keepsConfig true ∧ (t.macroId = m ∨
      ∀ trig ∈ (c.shared.macros t.macroId).triggers, trig ∉ (c.shared.macros m).triggers)
  | .step _ _ => true

section Edges

variable {mac : Macro} {mem : Memory} {m : MacroId} {i : ThreadId} {a : Access}
  {pool : List Thread}

/-- A store that no `applyDispatch()` follows is none of `DISABLE`, and by a call that did not
read `DISABLE`. -/
theorem SetPc.Step.applies_of_store {val : Interrupt} {p : SetPc val} {q : Option (SetPc val)}
    {ts : List Thread} {ev : List Event} (h : p.Step m mac i a q ts ev)
    (hw : a.writesInterruptor = true) : ∃ prev, p = .store prev ∧ a = .storeInterruptor val ∧
      (q.any SetPc.applies = true ∨ val ≠ .disable ∧ prev ≠ .disable) := by
  cases h with
  | storeApply => exact ⟨_, rfl, rfl, .inl rfl⟩
  | storeReset h | storeDone h => exact ⟨_, rfl, rfl, .inr (by tauto)⟩
  | _ => cases hw

end Edges

/-- A call in its `applyDispatch()` is in progress. -/
theorem Thread.sets_of_applies {m : MacroId} {t : Thread} (h : t.applies m = true) :
    t.sets m = true := by
  unfold applies at h
  split at h <;> simp_all [sets]

/-- **A write that no `applyDispatch()` follows** is a blind one. -/
theorem Thread.Step.applies_or_blind {c : Config Memory Thread} {i : ThreadId} {t : Thread}
    {mv : Move} (h : t.Step c i mv) (hc : t.configures = false)
    (hw : mv.access.writesInterruptor = true) :
    mv.next.applies t.macroId = true ∨ t.enablesBlindly t.macroId = true := by
  obtain ⟨a, u, ts, ev⟩ := mv
  rcases h.writer with hno | hwriter
  · rw [hno] at hw
    cases hw
  · cases hwriter with
    -- these write without looking at the previous value
    | cancel | resetDequeue | resetClear => exact .inr (by simp [enablesBlindly])
    | assign | copy | destroy => cases hc
    | consume =>
      cases h with
      | worker h =>
        cases h with
        | notInterrupted _ hp => simp at hp
        | consumeSet h | consumed h =>
          obtain ⟨prev, hp, -, hq⟩ := h.applies_of_store hw
          cases hp
          simpa [applies, enablesBlindly] using hq
    | reset =>
      cases h with
      | reset h =>
        cases h with
        | set h | setDone h =>
          obtain ⟨prev, hp, -, hq⟩ := h.applies_of_store hw
          cases hp
          simpa [applies, enablesBlindly] using hq
    | call =>
      cases h with
      | call h =>
        cases h with
        | setInterruptor h | setDone h =>
          obtain ⟨prev, hp, -, hq⟩ := h.applies_of_store hw
          cases hp
          simpa [applies, enablesBlindly] using hq

/-- The access of a writer writes the interruptor. -/
theorem Thread.Writer.writes {t : Thread} {a : Access} (h : t.Writer a) :
    a.writesInterruptor = true := by
  cases h <;> rfl

/-- A thread of another macro applies nothing to `m`. -/
theorem Thread.applies_of_ne {m : MacroId} {t : Thread} (h : t.macroId ≠ m) :
    t.applies m = false := by
  unfold applies
  split <;> simp_all

/-- A blind write is none of `DISABLE`. -/
theorem Thread.Writer.ne_disable {t : Thread} {a : Access} {m : MacroId} {mem mem' : Memory}
    (h : t.Writer a) (hm : t.macroId = m) (ht : t.enablesBlindly m = true)
    (ha : a.apply m mem = some mem') : (mem'.macros m).interruptor ≠ .disable := by
  have hval := Access.apply_interruptor ha
  subst hm
  cases h with
  | assign | copy | destroy => cases ht
  | cancel | resetDequeue | resetClear =>
    rw [hval]
    exact Interrupt.noConfusion
  | consume | reset =>
    rw [hval]
    simp [Macro.interruptorAfter]
  | call =>
    have hne := (by simpa [enablesBlindly] using ht : _ ∧ _).1
    rw [hval]
    simp only [Macro.interruptorAfter]
    split_ifs <;> first | exact hne | exact Interrupt.noConfusion

section Run

variable {m : MacroId} {mem : Memory} {c : Config Memory Thread} {i : ThreadId} {k : Bool}
  {t : Thread} {e : Effect Memory Thread Event}

/-- What a run with these calls keeps: the configurations, and which threads there are. -/
structure ConfigKept (m : MacroId) (mem : Memory) (c : Config Memory Thread) : Prop where
  /-- The configurations are those of the beginning. -/
  config : ∀ m', Access.SameConfig (mem.macros m') (c.shared.macros m')
  /-- The threads are of calls that leave the configuration. -/
  only : ∀ t ∈ c.pool, t.only t.macroId keepsConfig true = true
  /-- They work on macro `m`, or on a macro that shares no trigger with it. -/
  apart : ∀ t ∈ c.pool, t.macroId = m ∨
    ∀ trig ∈ (mem.macros t.macroId).triggers, trig ∉ (mem.macros m).triggers

/-- **One step** leaves the configurations of the macros, in a run without calls that configure. -/
theorem configKept_step (hinv : ConfigKept m mem c) (ht : c.pool[i]? = some t)
    (he : program.move c i k t = some e) :
    ConfigKept m mem ⟨e.shared, c.pool.set i e.next ++ e.spawned⟩ := by
  obtain ⟨a, hs, ha⟩ := step_of_program_move he
  have hmem := List.mem_of_getElem? ht
  have honly := hs.only (hinv.only t hmem)
  have hnext : e.next.macroId = t.macroId := hs.macroId
  have hspawned : ∀ u ∈ e.spawned, u.macroId = t.macroId := by
    intro u hu
    rcases hs.of_mem_spawned hu with rfl | rfl <;> rfl
  constructor
  · -- a step of a macro's thread is none of a call that configures it
    intro m'
    by_cases hm : t.macroId = m'
    · subst hm
      exact (hinv.config t.macroId).trans (hs.sameConfig ha (hinv.only t hmem) rfl rfl rfl)
    · simpa only [macros_of_ne he hm] using hinv.config m'
  · refine forall_mem_set_append hinv.only ?_ fun u hu => ?_
    · rw [hnext]
      exact honly.1
    · rw [hspawned u hu]
      exact honly.2 u hu
  · refine forall_mem_set_append hinv.apart ?_ fun u hu => ?_
    · rw [hnext]
      exact hinv.apart t hmem
    · rw [hspawned u hu]
      exact hinv.apart t hmem

/-- A thread that makes no such call does not configure. -/
theorem Thread.configures_of_only (h : t.only t.macroId keepsConfig true = true) :
    t.configures = false := by
  unfold configures
  split <;> first | rfl | cases Thread.kind_of_only h rfl

/-- The receivers and dispatchers of a macro are a matter of its configuration. -/
theorem registeredIffEnabled_congr {mem mem' : Memory}
    (hconfig : Access.SameConfig (mem.macros m) (mem'.macros m))
    (hptr : mem'.dispatcherPtr = mem.dispatcherPtr)
    (henabled : (mem'.macros m).enabled = (mem.macros m).enabled)
    (hhas : ∀ d r, mem.Receives m r →
      (Registry.Has mem'.dispatchers d r ↔ Registry.Has mem.dispatchers d r))
    (h : mem.RegisteredIffEnabled m) : mem'.RegisteredIffEnabled m := by
  intro d r hd hr
  have hr' : mem.Receives m r := by
    simpa only [Memory.Receives, Memory.IsTrigger, hconfig.triggers] using hr
  have hd' : mem.DispatcherOf (mem.macros m).activators d := by
    simpa only [Memory.DispatcherOf, hconfig.activators, hptr] using hd
  rw [hhas d r hr', henabled]
  exact h d r hd' hr'

/-- A step that is no `applyDispatch()` of macro `m` leaves those still to come. -/
theorem appliesLater_of_ne (h : AppliesLater m c) (ht : c.pool[i]? = some t)
    (hne : t.applies m = false) :
    AppliesLater m ⟨e.shared, c.pool.set i e.next ++ e.spawned⟩ := by
  obtain ⟨u, hu, happlies⟩ := h
  refine ⟨u, mem_set_append_of_ne _ _ ht hu ?_, happlies⟩
  rintro rfl
  rw [hne] at happlies
  cases happlies

/-- **One step of another macro's thread** leaves the macro in step. -/
theorem registeredIffEnabled_step_of_ne (hkept : ConfigKept m mem c)
    (hinv : c.shared.RegisteredIffEnabled m) (hm : t.macroId ≠ m) (ht : c.pool[i]? = some t)
    (he : program.move c i k t = some e) : e.shared.RegisteredIffEnabled m := by
  obtain ⟨a, hs, ha⟩ := step_of_program_move he
  have hmem := List.mem_of_getElem? ht
  have hsame := macros_of_ne he hm
  have hconfig : Access.SameConfig (c.shared.macros m) (e.shared.macros m) := by
    rw [hsame]
    exact .refl _
  refine registeredIffEnabled_congr hconfig (Access.apply_dispatcherPtr ha) (by rw [hsame]) ?_ hinv
  intro d r hr
  rcases hs.registrar (Thread.configures_of_only (hkept.only t hmem)) with ⟨hno, -⟩ | ⟨rfl, -⟩
  · rw [Access.dispatchers_eq ha hno]
  · refine Memory.has_of_apply_of_ne hm ?_ (Access.perform_of_apply ha) hr
    rw [(hkept.config t.macroId).triggers, (hkept.config m).triggers]
    exact (hkept.apart t hmem).resolve_left hm

/-- **One step** leaves the macro in step, or with an `applyDispatch()` still to come. -/
theorem registeredIffEnabled_step (hkept : ConfigKept m mem c)
    (hact : (mem.macros m).activators ≠ []) (hflag : (mem.macros m).applyDispatchFlag = true)
    (hinv : AppliesLater m c ∨ c.shared.RegisteredIffEnabled m)
    (hknow : enablesKnowingly m c (.step i k) = true) (ht : c.pool[i]? = some t)
    (he : program.move c i k t = some e) :
    AppliesLater m ⟨e.shared, c.pool.set i e.next ++ e.spawned⟩ ∨
      e.shared.RegisteredIffEnabled m := by
  have hmem := List.mem_of_getElem? ht
  by_cases hm : t.macroId = m
  · obtain ⟨a, hs, ha⟩ := step_of_program_move he
    have hconf := Thread.configures_of_only (hkept.only t hmem)
    have hconfig := hs.sameConfig ha (hkept.only t hmem) rfl rfl rfl
    have hwriter := hs.writer
    have hblind := hs.applies_or_blind hconf
    have hregistrar := hs.registrar hconf
    rw [hm] at ha hconfig hblind hregistrar
    -- either the registrations stay, or this is an `applyDispatch()` of the macro
    rcases hregistrar with ⟨hno, happlies⟩ | ⟨rfl, -⟩
    · have hcongr := registeredIffEnabled_congr hconfig (Access.apply_dispatcherPtr ha)
      rw [Access.dispatchers_eq ha hno] at hcongr
      rcases hinv with hlater | hreg
      · exact .inl (appliesLater_of_ne hlater ht happlies)
      · rcases hwriter with hw | hw
        · -- the interruptor stays too
          refine .inr (hcongr ?_ (fun _ _ _ => Iff.rfl) hreg)
          rw [Macro.enabled, Macro.enabled, Access.interruptor_eq ha hw]
        · by_cases hnext : e.next.applies m = true
          · exact .inl ⟨e.next, mem_set_append_self _ _ ht, hnext⟩
          · -- a blind write, over a value that was enabled or with a later `applyDispatch()`
            have hb := (hblind hw.writes).resolve_left hnext
            have hknow' : (c.shared.macros m).interruptor ≠ .disable ∨ AppliesLater m c := by
              simpa [enablesKnowingly, ht, hb] using hknow
            rcases hknow' with hbefore | hlater
            · refine .inr (hcongr ?_ (fun _ _ _ => Iff.rfl) hreg)
              simp [Macro.enabled, hbefore, hw.ne_disable hm hb ha]
            · exact .inl (appliesLater_of_ne hlater ht happlies)
    · -- the `applyDispatch()` itself, with the configuration of the beginning
      refine .inr (Memory.registeredIffEnabled_of_apply ?_ ?_ (Access.perform_of_apply ha))
      · rwa [(hkept.config m).activators]
      · rwa [(hkept.config m).applyDispatchFlag]
  · rcases hinv with hlater | hreg
    · exact .inl (appliesLater_of_ne hlater ht (Thread.applies_of_ne hm))
    · exact .inr (registeredIffEnabled_step_of_ne hkept hreg hm ht he)

/-- The configurations of a run with calls that leave them. -/
theorem configKept_of_run {allowed : Config Memory Thread → Label Thread Bool → Prop}
    {tr : List Event} (hallowed : ∀ c l, allowed c l → configKept m c l = true)
    (h : program.Run allowed (initial mem) tr c) : ConfigKept m mem c := by
  refine Machine.Run.invariant (P := fun _ c => ConfigKept m mem c)
    ⟨fun _ => .refl _, by simp, by simp⟩ ?_ ?_ h
  · rintro _ c t ev hinv ok he
    obtain ⟨honly, hapart⟩ : t.only t.macroId keepsConfig true = true ∧ (t.macroId = m ∨
        ∀ trig ∈ (c.shared.macros t.macroId).triggers, trig ∉ (c.shared.macros m).triggers) :=
      of_decide_eq_true (hallowed _ _ ok)
    rw [(hinv.config _).triggers, (hinv.config m).triggers] at hapart
    exact ⟨hinv.config, forall_mem_concat hinv.only honly, forall_mem_concat hinv.apart hapart⟩
  · rintro _ c i k t e hinv - ht he
    exact configKept_step hinv ht he

/-- **Enabled and registered stay in step**: in every state of a run in which no `setInterruptor`
of the macro is in progress, the macro is registered with its activators' dispatchers iff it is
enabled, when each write over `DISABLE` is made knowingly. -/
theorem registered_iff_enabled {tr : List Event} (hact : (mem.macros m).activators ≠ [])
    (hflag : (mem.macros m).applyDispatchFlag = true) (hinit : mem.RegisteredIffEnabled m)
    (h : program.Run (fun c l => configKept m c l ∧ enablesKnowingly m c l) (initial mem) tr c)
    (hidle : ∀ t ∈ c.pool, t.sets m = false) : c.shared.RegisteredIffEnabled m := by
  have hrun := h.and_invariant (I := ConfigKept m mem)
    fun h => configKept_of_run (fun _ _ ok => ok.1) h
  have hinv : AppliesLater m c ∨ c.shared.RegisteredIffEnabled m := by
    refine Machine.Run.invariant (P := fun _ c =>
      AppliesLater m c ∨ c.shared.RegisteredIffEnabled m) (.inr hinit) ?_ ?_ hrun
    · -- a call touches neither the memory nor the threads there are
      rintro _ c t ev hinv - -
      refine hinv.imp_left ?_
      rintro ⟨u, hu, happlies⟩
      exact ⟨u, List.mem_append_left _ hu, happlies⟩
    · rintro _ c i k t e hinv ⟨⟨-, hknow⟩, hkept⟩ ht he
      exact registeredIffEnabled_step hkept hact hflag hinv hknow ht he
  -- an `applyDispatch()` still to come is part of a call in progress
  refine hinv.resolve_left ?_
  rintro ⟨t, ht, happlies⟩
  have hsets := Thread.sets_of_applies happlies
  rw [hidle t ht] at hsets
  cases hsets

end Run

/-- A disabled macro that has never been registered is in step. -/
theorem registeredIffEnabled_ofMacro {mac : Macro} {m : MacroId} (h : mac.interruptor = .disable) :
    (Memory.ofMacro mac).RegisteredIffEnabled m := by
  intro d r _ _
  simp [Memory.ofMacro, Registry.Has, Dispatcher.Has, h]

/-- A macro is enabled, and registered with the dispatcher of its activator. -/
theorem registered_iff_enabled_enable : ∃ tr c,
    program.Run (fun c l => configKept 0 c l ∧ enablesKnowingly 0 c l)
      (initial (.ofMacro { activators := [7], context := some 0 })) tr c ∧
      c.shared.RegisteredIffEnabled 0 ∧ Registry.Has c.shared.dispatchers 1 (.ofMacro 0) := by
  obtain ⟨tr, c, h, hp⟩ := Machine.Run.exists_of_exec
    (fun c l => configKept 0 c l && enablesKnowingly 0 c l)
    (initial (.ofMacro { activators := [7], context := some 0 }))
    (callSet 0 .continue ++ List.replicate 2 (.step 0 true))
    (M := program) (P := fun _ c => (∀ t ∈ c.pool, t.sets 0 = false) ∧
      Registry.Has c.shared.dispatchers 1 (.ofMacro 0)) (by decide +kernel)
  obtain ⟨hidle, hhas⟩ := of_decide_eq_true hp
  have hrun := h.and_of_bool
  exact ⟨tr, c, hrun, registered_iff_enabled (by decide) rfl (registeredIffEnabled_ofMacro rfl)
    hrun hidle, hhas⟩

/-- **Enabled without being registered**: call 1 reads `CONTINUE` as the previous value, call 2
stores `DISABLE` and removes the macro, and call 1 stores `PAUSE` without applying anything. -/
theorem not_registered_iff_enabled_stale : ¬ ∀ mem tr c,
    (∃ d, mem.DispatcherOf (mem.macros 0).activators d) →
    (mem.macros 0).applyDispatchFlag = true → mem.RegisteredIffEnabled 0 →
    program.Run (fun _ l => onlyCalls 0 (· = .setInterruptor) false l) (initial mem) tr c →
    (∀ t ∈ c.pool, t.sets 0 = false) → c.shared.RegisteredIffEnabled 0 := by
  intro hall
  obtain ⟨tr, c, h, hp⟩ := Machine.Run.exists_of_exec
    (fun _ l => onlyCalls 0 (· = .setInterruptor) false l)
    (initial (.ofMacro { activators := [7], context := some 0 }))
    (callSet 0 .continue ++ List.replicate 2 (.step 0 true) ++ callSet 1 .pause ++
      callSet 2 .disable ++ List.replicate 2 (.step 2 true) ++ [.step 1 true])
    (M := program) (P := fun _ c => (∀ t ∈ c.pool, t.sets 0 = false) ∧
      c.shared.DispatcherOf (c.shared.macros 0).activators 1 ∧ (c.shared.macros 0).triggers = [] ∧
      ¬ Registry.Has c.shared.dispatchers 1 (.ofMacro 0) ∧ (c.shared.macros 0).enabled = true)
    (by decide +kernel)
  obtain ⟨hidle, hd, htriggers, hnot, henabled⟩ := of_decide_eq_true hp
  have hstep := hall _ tr c ⟨1, by decide⟩ rfl (registeredIffEnabled_ofMacro rfl) h hidle
  exact hnot ((hstep 1 (.ofMacro 0) hd (by simp [Memory.Receives, htriggers])).mpr henabled)

end Libmacro
