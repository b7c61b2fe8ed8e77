import Libmacro.PublicCalls
import Mathlib.Data.Finset.Erase
import Mathlib.Data.Finset.Insert

/-! # Macros without a context

`createMacro(ctx)` and `createMacroShared(ctx)` store the pointer they are given. A null one is
documented to stand for `instance()`, and stays null: the macro cannot get a context by any call
(`copy` releases its registrations first), and its destructor reads it. A client that creates
macros, calls them and destroys them all goes without reading a null context iff it created none
without a context (`runs_isSome_iff`). -/

namespace Libmacro

/-- `createMacro(context)` and `createMacroShared(context)`: the new macro is `m`, and the context
is kept as it is given, null included. -/
def Memory.createMacro (mem : Memory) (m : MacroId) (context : Option ContextId) : Memory :=
  mem.modify m fun _ => { context := context }

/-- What a client does with macros: it creates them, calls their member functions, and destroys
them. -/
inductive MacroEvent where
  /-- It creates a macro. -/
  | create (m : MacroId) (context : Option ContextId)
  /-- It calls one. -/
  | call (m : MacroId) (c : PublicCall)
  /-- It destroys one. -/
  | destroy (m : MacroId)

namespace MacroEvent

/-- What the event does to the memory, and how it stops if it does not return. -/
def run (mem : Memory) : MacroEvent → Memory × Option Stop
  | create m context => (mem.createMacro m context, none)
  | call m c => c.run mem m
  | destroy m => mem.returns (mem.disableEverything m)

/-- The memory after a sequence of events; an error is caught by the client, which goes on. `none`
when a null context is read. -/
def runs : List MacroEvent → Memory → Option Memory
  | [], mem => some mem
  | event :: rest, mem =>
    if (event.run mem).2 = some .undefined then none else runs rest (event.run mem).1

/-- The macros that the client has after the event: a creation adds one, a destruction takes one
away. -/
def liveAfter (live : Finset MacroId) : MacroEvent → Finset MacroId
  | create m _ => insert m live
  | call _ _ => live
  | destroy m => live.erase m

/-- The event may come next, `live` being the macros the client has: it calls, copies and destroys
only these, and a new macro is none of them. -/
def Allowed (live : Finset MacroId) : MacroEvent → Prop
  | create m _ => m ∉ live
  | call m c => m ∈ live ∧ ∀ other ∈ c.source, other ∈ live
  | destroy m => m ∈ live

/-- **The client uses its macros properly**, and destroys every macro in the end. -/
def Proper : List MacroEvent → Finset MacroId → Prop
  | [], live => live = ∅
  | event :: rest, live => event.Allowed live ∧ Proper rest (event.liveAfter live)

/-- Whether an event is allowed is a question about the set of living macros. -/
instance (live : Finset MacroId) (event : MacroEvent) : Decidable (event.Allowed live) :=
  match event with
  | create m _ => inferInstanceAs (Decidable (m ∉ live))
  | call m c => inferInstanceAs (Decidable (m ∈ live ∧ ∀ other ∈ c.source, other ∈ live))
  | destroy m => inferInstanceAs (Decidable (m ∈ live))

/-- A sequence of events is checked from its front, with the macros that live at each point. -/
instance decidableProper : ∀ events live, Decidable (Proper events live)
  | [], live => inferInstanceAs (Decidable (live = ∅))
  | event :: rest, live =>
    have := decidableProper rest (event.liveAfter live)
    inferInstanceAs (Decidable (event.Allowed live ∧ Proper rest (event.liveAfter live)))

section Runs

variable {mem mem' : Memory} {m : MacroId} {event : MacroEvent} {events : List MacroEvent}
  {live : Finset MacroId} {ctx : Option ContextId}

/-! ## One event -/

/-- The new macro gets the context. -/
theorem confined_create (mem : Memory) (m : MacroId) (context : Option ContextId) :
    Confined mem (run mem (create m context)).1 m context where
  context := by rw [run, Memory.createMacro, Memory.modify_macros_self]
  others := fun m' hm => by
    rw [run, Memory.createMacro, Memory.modify_macros_of_ne mem m _ hm]
  idle := fun _ => by rw [run, Memory.createMacro, Memory.modify_macros_self]

/-- A destruction reads the context of the macro, so it is undefined exactly without one. -/
theorem run_destroy_eq_undefined_iff :
    (run mem (destroy m)).2 = some .undefined ↔ (mem.macros m).context = none := by
  rw [run, ← Memory.disableEverything_eq_none_iff]
  cases mem.disableEverything m with
  | none => exact iff_of_true rfl rfl
  | some mem' => exact iff_of_false (Option.some_ne_none _).symm (Option.some_ne_none _)

/-- Of the macros a destructor that returns has changed its own alone. -/
theorem confined_destroy (h : (run mem (destroy m)).2 ≠ some .undefined) :
    Confined mem (run mem (destroy m)).1 m (mem.macros m).context := by
  rw [run] at h ⊢
  cases hdestroy : mem.disableEverything m with
  | none =>
    rw [hdestroy] at h
    exact absurd rfl h
  | some mem' => exact Memory.confined_disableEverything hdestroy

/-- The context a call leaves is that of a living macro. -/
theorem contextAfter_ne_none {c : PublicCall} (hallowed : (call m c).Allowed live)
    (hctx : ∀ m ∈ live, (mem.macros m).context ≠ none) : c.contextAfter mem m ≠ none := by
  obtain ⟨hm, hother⟩ := hallowed
  rw [PublicCall.contextAfter]
  cases hsource : c.source with
  | none => exact hctx m hm
  | some other => exact hctx other (hother other hsource)

/-- The living macros are idle after an event. -/
theorem idle_step (hidle : ∀ m ∈ live, (mem.macros m).threadCount = 0)
    (hdef : (event.run mem).2 ≠ some .undefined) :
    ∀ m ∈ event.liveAfter live, ((event.run mem).1.macros m).threadCount = 0 := by
  intro m hm
  cases event with
  | create m' context =>
    rcases Finset.mem_insert.mp hm with rfl | hm
    · rw [run, Memory.createMacro, Memory.modify_macros_self]
    · exact (confined_create mem m' context).threadCount_eq_zero (hidle m hm)
  | call m' c => exact (PublicCall.confined hdef).threadCount_eq_zero (hidle m hm)
  | destroy m' =>
    exact (confined_destroy hdef).threadCount_eq_zero (hidle m (Finset.mem_of_mem_erase hm))

/-- **An event of living macros with contexts** reads no null one and leaves the living macros with
contexts, unless it creates one without. -/
theorem context_step (hallowed : event.Allowed live)
    (hctx : ∀ m ∈ live, (mem.macros m).context ≠ none) (hcreate : ∀ m, event ≠ create m none) :
    (event.run mem).2 ≠ some .undefined ∧
      ∀ m ∈ event.liveAfter live, ((event.run mem).1.macros m).context ≠ none := by
  cases event with
  | create m' context =>
    have hne : context ≠ none := fun heq => hcreate m' (heq ▸ rfl)
    have hconf := confined_create mem m' context
    refine ⟨(Option.some_ne_none _).symm, fun m hm => ?_⟩
    rcases Finset.mem_insert.mp hm with rfl | hm
    · rw [hconf.context]
      exact hne
    · exact hconf.context_ne_none hne (hctx m hm)
  | call m' c =>
    have hafter := contextAfter_ne_none hallowed hctx
    have hdef := PublicCall.run_ne_undefined (hctx m' hallowed.1) hafter
    exact ⟨hdef, fun m hm => (PublicCall.confined hdef).context_ne_none hafter (hctx m hm)⟩
  | destroy m' =>
    have hne := hctx m' hallowed
    have hdef := mt run_destroy_eq_undefined_iff.mp hne
    exact ⟨hdef, fun m hm =>
      (confined_destroy hdef).context_ne_none hne (hctx m (Finset.mem_of_mem_erase hm))⟩

/-- **A living macro without context stays one**, over every event that reads no null context. -/
theorem nullContext_step (hallowed : event.Allowed live) (hm : m ∈ live)
    (hctx : (mem.macros m).context = none) (hdef : (event.run mem).2 ≠ some .undefined) :
    m ∈ event.liveAfter live ∧ ((event.run mem).1.macros m).context = none := by
  cases event with
  | create m' context =>
    have hne : m ≠ m' := fun heq => hallowed (heq ▸ hm)
    refine ⟨Finset.mem_insert_of_mem hm, ?_⟩
    rw [(confined_create mem m' context).others m hne, hctx]
  | call m' c =>
    have hconf := PublicCall.confined hdef
    refine ⟨hm, ?_⟩
    by_cases heq : m = m'
    · subst heq
      exact hconf.context.trans (PublicCall.contextAfter_eq_none hctx hdef)
    · exact (congrArg Macro.context (hconf.others m heq)).trans hctx
  | destroy m' =>
    -- its own destruction would read the null context
    have hne : m ≠ m' := by
      rintro rfl
      exact hdef (run_destroy_eq_undefined_iff.mpr hctx)
    refine ⟨Finset.mem_erase.mpr ⟨hne, hm⟩, ?_⟩
    rw [(confined_destroy hdef).others m hne, hctx]

/-! ## Sequences of events -/

/-- Nothing starts the macros of the client. -/
theorem idle_of_call {before : List MacroEvent} {c : PublicCall}
    (hproper : Proper (before ++ call m c :: events) live)
    (hidle : ∀ m ∈ live, (mem.macros m).threadCount = 0) (hruns : runs before mem = some mem') :
    (mem'.macros m).threadCount = 0 := by
  induction before generalizing mem live with
  | nil =>
    obtain rfl := Option.some.inj hruns
    exact hidle m hproper.1.1
  | cons event before ih =>
    rw [runs] at hruns
    split_ifs at hruns with hdef
    exact ih hproper.2 (idle_step hidle hdef) hruns

/-- **No call of the client needs a reset thread**, which would call `setInterruptor` itself. -/
theorem not_needsResetThread_of_call {before : List MacroEvent} {c : PublicCall}
    (hproper : Proper (before ++ call m c :: events) ∅) (hruns : runs before mem = some mem')
    (val : Interrupt) : ¬ mem'.NeedsResetThread m val := by
  rintro ⟨-, -, hrunning⟩
  have hidle := idle_of_call hproper (fun m hm => absurd hm (Finset.notMem_empty m)) hruns
  exact Macro.running_iff.mp hrunning hidle

/-- A client whose macros have contexts, and that creates all others with one. -/
theorem runs_isSome (hproper : Proper events live)
    (hctx : ∀ m ∈ live, (mem.macros m).context ≠ none) (hcreate : ∀ m, create m none ∉ events) :
    (runs events mem).isSome = true := by
  induction events generalizing mem live with
  | nil => rfl
  | cons event rest ih =>
    obtain ⟨hdef, hctx'⟩ := context_step hproper.1 hctx fun m heq =>
      hcreate m (heq ▸ List.mem_cons_self)
    rw [runs, if_neg hdef]
    exact ih hproper.2 hctx' fun m hm => hcreate m (List.mem_cons_of_mem event hm)

/-- A living macro without context is never got rid of. -/
theorem runs_eq_none (hproper : Proper events live) (hm : m ∈ live)
    (hctx : (mem.macros m).context = none) : runs events mem = none := by
  induction events generalizing mem live with
  | nil => exact absurd (hproper ▸ hm) (Finset.notMem_empty m)
  | cons event rest ih =>
    rw [runs]
    split_ifs with hdef
    · rfl
    · obtain ⟨hm', hctx'⟩ := nullContext_step hproper.1 hm hctx hdef
      exact ih hproper.2 hm' hctx'

/-- A macro created without context spoils the sequence, whatever comes before. -/
theorem runs_eq_none_of_create (hproper : Proper events live)
    (hcreate : create m none ∈ events) : runs events mem = none := by
  induction events generalizing mem live with
  | nil => exact absurd hcreate List.not_mem_nil
  | cons event rest ih =>
    rw [runs]
    split_ifs with hdef
    · rfl
    · rcases List.mem_cons.mp hcreate with rfl | hrest
      · exact runs_eq_none hproper.2 (Finset.mem_insert_self m live)
          (confined_create mem m none).context
      · exact ih hproper.2 hrest

/-- **When no null context is read.** A client that uses its macros properly reads none iff every
macro it creates is given a context. -/
theorem runs_isSome_iff (events : List MacroEvent) (mem : Memory) (h : Proper events ∅) :
    (runs events mem).isSome = true ↔
      ∀ m context, create m context ∈ events → context ≠ none := by
  constructor
  · rintro hsome m context hmem rfl
    rw [runs_eq_none_of_create h hmem] at hsome
    exact Bool.false_ne_true hsome
  · intro hcreate
    exact runs_isSome h (fun m hm => absurd hm (Finset.notMem_empty m)) fun m hmem =>
      hcreate m none hmem rfl

/-- Two macros with contexts: one is enabled and copied to the other, which is cleared. -/
theorem runs_isSome_copied :
    (runs [.create 0 (some 0), .create 1 (some 1), .call 0 (.setEnabled true), .call 1 (.copy 0),
      .call 1 .clearAll, .destroy 0, .destroy 1] {}).isSome = true := by
  refine (runs_isSome_iff _ {} (by decide)).mpr ?_
  rintro m context hcreate rfl
  simp at hcreate

/-- **The default of `createMacro`**: a macro created with a null context and destroyed, while a
context lives. -/
theorem not_runs_isSome :
    ¬ ∀ (events : List MacroEvent) (mem : Memory), Proper events ∅ →
      (runs events mem).isSome = true := by
  intro h
  have hruns := h [.create 0 none, .destroy 0] ConfigCall.fresh (by decide)
  exact absurd hruns (by decide)

end Runs

end MacroEvent

end Libmacro
