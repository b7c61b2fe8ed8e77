import Libmacro.MacroCalls
import Libmacro.Threads.Access

/-! # Public calls and how they stop

A public call of a macro returns or stops (`Stop`): it throws, or it reads the generic dispatcher
of a null context, which is undefined. `_removeDispatch` always reads it, and so do the setters
that begin with it, `copy` and the destructor; `_applyDispatch` reads it with the dispatch
enabled, and `setInterruptor` when it crosses `DISABLE`. A call on one macro changes no other one,
and only `copy` changes the context. -/

namespace Libmacro

/-- Why a call does not return: an exception, a null context that is read, or a thread that cannot
be created. -/
inductive Stop where
  /-- It throws an `mcr::Error`. -/
  | threw (error : Error)
  /-- `std::thread` throws: no thread can be created. -/
  | noThread
  /-- It goes through a null pointer. -/
  | undefined
  deriving DecidableEq, Repr

namespace Memory

/-- What a call without errors of its own leaves; `none` when it reads a null context. -/
def returns (mem : Memory) : Option Memory → Memory × Option Stop
  | none => (mem, some .undefined)
  | some mem' => (mem', none)

/-- `interrupt(val)`, that is `setInterruptor(val)`, with any value; `creates` says whether a reset
thread can be created. -/
def interrupt (mem : Memory) (m : MacroId) (val : ℤ) (creates : Bool) : Memory × Option Stop :=
  match Interrupt.ofCode? val with
  | none => (mem, some (.threw ⟨.einval, "Invalid interruptor value"⟩))
  | some val =>
    match mem.setInterruptor m val with
    | none => (mem, some .undefined)
    | some (mem', spawnResetThread) =>
      (mem', if spawnResetThread && !creates then some .noThread else none)

end Memory

/-- The member function that is the block, with the exception that it may throw. -/
def Block.call (m : MacroId) (mem : Memory) (b : Block) : Memory × Option Stop :=
  match b.apply m mem with
  | none => (mem, some .undefined)
  | some mem' => (mem', (b.error m mem).map Stop.threw)

/-- Blocks one after the other, until one stops; what the others did stays done. -/
def runBlocks (m : MacroId) : List Block → Memory → Memory × Option Stop
  | [], mem => (mem, none)
  | b :: rest, mem =>
    match b.call m mem with
    | (mem, none) => runBlocks m rest mem
    | (mem, some stop) => (mem, some stop)

/-- A public call on a macro that neither starts it nor gives it another context. -/
inductive PublicCall where
  /-- A member function that is one block: `setActivators`, `setTriggers`, `applyDispatch`,
  `removeDispatch`, an `addDispatch` or one of the plain setters. -/
  | block (b : Block)
  /-- `setInterruptor(val)`, or `interrupt(val)`. -/
  | setInterruptor (val : ℤ) (creates : Bool)
  /-- `setEnabled(val)`. -/
  | setEnabled (val : Bool)
  /-- `clearAll()`. -/
  | clearAll
  /-- `copy(other)`. -/
  | copy (other : MacroId)

namespace PublicCall

/-- The call on macro `m`: the memory after it, and how it stops if it does not return. -/
def run (mem : Memory) (m : MacroId) : PublicCall → Memory × Option Stop
  | block b => b.call m mem
  | setInterruptor val creates => mem.interrupt m val creates
  | setEnabled val =>
    mem.interrupt m (if val then Interrupt.continue else Interrupt.disable).code true
  | clearAll => runBlocks m [.setActivators [], .setSignals [], .setTriggers []] mem
  | copy other => mem.returns (mem.copy m other)

/-- The macro that the call reads as the source of a copy, if it is a copy. -/
def source : PublicCall → Option MacroId
  | copy other => some other
  | _ => none

/-- The context of the macro after the call: that of the source for a copy, and its own otherwise.
-/
def contextAfter (mem : Memory) (m : MacroId) (call : PublicCall) : Option ContextId :=
  (mem.macros (call.source.getD m)).context

end PublicCall

/-- **`setInterruptor(val)` starts a reset thread**: `INTERRUPT_ALL` is new to a running macro. -/
def Memory.NeedsResetThread (mem : Memory) (m : MacroId) (val : Interrupt) : Prop :=
  val ≠ (mem.macros m).interruptor ∧ val = .interruptAll ∧ (mem.macros m).running = true

/-- Whether a reset thread is needed is computed from the interruptor and the count of workers. -/
instance (mem : Memory) (m : MacroId) (val : Interrupt) :
    Decidable (mem.NeedsResetThread m val) :=
  inferInstanceAs (Decidable (_ ∧ _ ∧ _))

/-! ## What a call changes -/

/-- Of the macros only `m` has changed; its context is `ctx`, and it does not run if it did not. -/
structure Confined (mem mem' : Memory) (m : MacroId) (ctx : Option ContextId) : Prop where
  /-- The context. -/
  context : (mem'.macros m).context = ctx
  /-- The other macros. -/
  others : ∀ m', m' ≠ m → mem'.macros m' = mem.macros m'
  /-- No run is started. -/
  idle : (mem.macros m).threadCount = 0 → (mem'.macros m).threadCount = 0

namespace Confined

variable {mem mem₁ mem' : Memory} {m m' : MacroId} {ctx ctx' : Option ContextId}

/-- Doing nothing is confined to any macro. -/
theorem refl (mem : Memory) (m : MacroId) : Confined mem mem m (mem.macros m).context :=
  ⟨rfl, fun _ _ => rfl, fun h => h⟩

/-- Two effects confined to the same macro make one, with the context that the second one
leaves. -/
theorem trans (h : Confined mem mem₁ m ctx) (h' : Confined mem₁ mem' m ctx') :
    Confined mem mem' m ctx' :=
  ⟨h'.context, fun m' hm => (h'.others m' hm).trans (h.others m' hm),
    fun hidle => h'.idle (h.idle hidle)⟩

/-- Idle macros stay idle, whichever macro the effect is confined to. -/
theorem threadCount_eq_zero (h : Confined mem mem' m ctx)
    (hidle : (mem.macros m').threadCount = 0) : (mem'.macros m').threadCount = 0 := by
  by_cases heq : m' = m
  · subst heq
    exact h.idle hidle
  · rw [h.others m' heq]
    exact hidle

/-- A macro with a context keeps one, when the changed macro is left with one. -/
theorem context_ne_none (h : Confined mem mem' m ctx) (hne : ctx ≠ none)
    (hctx : (mem.macros m').context ≠ none) : (mem'.macros m').context ≠ none := by
  by_cases heq : m' = m
  · rw [heq, h.context]
    exact hne
  · rw [h.others m' heq]
    exact hctx

end Confined

namespace Block

variable {mem mem' : Memory} {m : MacroId} {b : Block}

/-- Of the macros a guarded block changes its own alone; it keeps the context, and starts no
run. -/
theorem confined (h : b.apply m mem = some mem') : Confined mem mem' m (mem.macros m).context :=
  ⟨context_apply h, (frame h).others, fun hidle => (frame h).threadCount.trans hidle⟩

/-- With a context every block returns. -/
theorem exists_apply (hctx : (mem.macros m).context ≠ none) (b : Block) :
    ∃ mem', b.apply m mem = some mem' := by
  have hsome := Option.isSome_iff_ne_none.mpr hctx
  obtain ⟨ctx, hm⟩ := Option.ne_none_iff_exists'.mp hctx
  have hdisp := Memory.contextDispatcher_of_context hm
  cases b with
  | setActivators array => exact MacroCall.exists_config_run hsome (.setActivators array)
  | setTriggers array => exact MacroCall.exists_config_run hsome (.setTriggers array)
  | applyDispatch => exact MacroCall.exists_config_run hsome .applyDispatch
  | removeDispatch => exact MacroCall.exists_config_run hsome .removeDispatch
  | setSignals array =>
    rw [apply]
    split_ifs
    · exact ⟨_, rfl⟩
    · exact ⟨_, rfl⟩
  | addDispatch =>
    obtain ⟨reg, hreg, -⟩ := Memory.has_addDispatch mem.dispatchers hdisp
    exact ⟨_, by rw [apply, hreg, Option.map_some]⟩
  | addDispatchTrigger trigPtr =>
    exact ⟨_, by rw [apply, Memory.addDispatchTrigger_eq hdisp, Option.map_some]⟩
  | _ => exact ⟨_, rfl⟩

/-- The member function changes what its block does, also when it throws. -/
theorem confined_call (m : MacroId) (mem : Memory) (b : Block) :
    Confined mem (b.call m mem).1 m (mem.macros m).context := by
  rw [call]
  cases h : b.apply m mem with
  | none => exact Confined.refl mem m
  | some mem' => exact confined h

/-- No guarded block reads a null context when the macro has one. -/
theorem call_ne_undefined (hctx : (mem.macros m).context ≠ none) (b : Block) :
    (b.call m mem).2 ≠ some .undefined := by
  obtain ⟨mem', h⟩ := exists_apply hctx b
  rw [call, h]
  cases b.error m mem with
  | none => exact (Option.some_ne_none _).symm
  | some error => simp

end Block

/-- Blocks one after the other are confined to the macro, also where one of them throws and the
rest is left out. -/
theorem confined_runBlocks (m : MacroId) (blocks : List Block) (mem : Memory) :
    Confined mem (runBlocks m blocks mem).1 m (mem.macros m).context := by
  induction blocks generalizing mem with
  | nil => exact Confined.refl mem m
  | cons b rest ih =>
    have hcall := b.confined_call m mem
    rw [runBlocks]
    split
    · next mem₁ heq =>
      rw [heq] at hcall
      have hrest := ih mem₁
      rw [hcall.context] at hrest
      exact hcall.trans hrest
    · next mem₁ stop heq =>
      rw [heq] at hcall
      exact hcall

/-- No sequence of blocks reads a null context when the macro has one at first: none of them takes
it away. -/
theorem runBlocks_ne_undefined {m : MacroId} (blocks : List Block) {mem : Memory}
    (hctx : (mem.macros m).context ≠ none) : (runBlocks m blocks mem).2 ≠ some .undefined := by
  induction blocks generalizing mem with
  | nil => exact (Option.some_ne_none _).symm
  | cons b rest ih =>
    have hcall := b.confined_call m mem
    have hstop := b.call_ne_undefined hctx
    rw [runBlocks]
    split
    · next mem₁ heq =>
      rw [heq] at hcall
      exact ih (by rwa [hcall.context])
    · next mem₁ stop heq =>
      rw [heq] at hstop
      exact hstop

namespace Memory

variable {mem mem' : Memory} {m : MacroId} {val : ℤ} {creates : Bool}

/-- Disabling everything is confined to the macro. -/
theorem confined_disableEverything (h : mem.disableEverything m = some mem') :
    Confined mem mem' m (mem.macros m).context := by
  obtain ⟨reg, -, h'⟩ := Option.bind_eq_some_iff.mp h
  obtain rfl := Option.some.inj h'
  obtain ⟨n, hmac⟩ := @MacroCall.macros_disableEverything mem m reg
  exact ⟨by rw [hmac], (MacroCall.spec_disableEverything h).others, fun _ => by rw [hmac]⟩

/-- `setInterruptor` starts no run of the macro. -/
theorem threadCount_setInterruptor {v : Interrupt} {flag : Bool}
    (h : mem.setInterruptor m v = some (mem', flag)) :
    (mem'.macros m).threadCount = (mem.macros m).threadCount := by
  rw [setInterruptor] at h
  dsimp only at h
  split_ifs at h
  · obtain ⟨mem₁, h₁, hmem⟩ := Option.map_eq_some_iff.mp h
    obtain ⟨rfl, -⟩ := Prod.mk.inj hmem
    rw [(Block.frame h₁).threadCount, modify_macros_self, Macro.storeInterruptor_threadCount]
  · obtain ⟨rfl, -⟩ := Prod.mk.inj (Option.some.inj h)
    rw [modify_macros_self, Macro.storeInterruptor_threadCount]
  · obtain ⟨rfl, -⟩ := Prod.mk.inj (Option.some.inj h)
    rfl

/-- `interrupt` changes the one macro, whatever the value and however it ends. -/
theorem confined_interrupt (mem : Memory) (m : MacroId) (val : ℤ) (creates : Bool) :
    Confined mem (mem.interrupt m val creates).1 m (mem.macros m).context := by
  rw [interrupt]
  split
  · exact Confined.refl mem m
  · split
    · exact Confined.refl mem m
    · next mem' flag h =>
      exact ⟨(MacroCall.setup_setInterruptor h).1.context,
        (MacroCall.spec_setInterruptor h).others, (threadCount_setInterruptor h).trans⟩

/-- **How `interrupt` ends**: a value out of range throws; a value in range may read a null context,
and otherwise returns unless the reset thread it needs cannot be created. -/
theorem interrupt_snd (mem : Memory) (m : MacroId) (val : ℤ) (creates : Bool) :
    (mem.interrupt m val creates).2 =
      match Interrupt.ofCode? val with
      | none => some (.threw ⟨.einval, "Invalid interruptor value"⟩)
      | some v =>
        if mem.ReadsNullContext m v then some .undefined
        else if mem.NeedsResetThread m v ∧ creates = false then some .noThread
        else none := by
  rw [interrupt]
  cases Interrupt.ofCode? val with
  | none => rfl
  | some v =>
    dsimp only
    cases hset : mem.setInterruptor m v with
    | none => rw [if_pos (setInterruptor_eq_none_iff.mp hset)]
    | some result =>
      obtain ⟨mem', flag⟩ := result
      -- the call gets through, so no null context is read
      have hreads : ¬ mem.ReadsNullContext m v := by
        intro h
        rw [setInterruptor_eq_none_iff.mpr h] at hset
        cases hset
      have hflag : flag = true ↔ mem.NeedsResetThread m v :=
        (MacroCall.setup_setInterruptor hset).2
      rw [if_neg hreads]
      simp only [← hflag, Bool.and_eq_true, Bool.not_eq_true']

/-- How `interrupt` ends depends on the macro only. -/
theorem interrupt_snd_congr (h : mem'.macros m = mem.macros m) :
    (mem'.interrupt m val creates).2 = (mem.interrupt m val creates).2 := by
  have hreads : ∀ v, mem'.ReadsNullContext m v ↔ mem.ReadsNullContext m v := fun v => by
    rw [ReadsNullContext, ReadsNullContext, h]
  have hneeds : ∀ v, mem'.NeedsResetThread m v ↔ mem.NeedsResetThread m v := fun v => by
    rw [NeedsResetThread, NeedsResetThread, h]
  simp only [interrupt_snd, hreads, hneeds]

/-- `setInterruptor(val)` as a public call reads a null context iff the value is in range and the
store would. -/
theorem interrupt_eq_undefined_iff : (mem.interrupt m val creates).2 = some .undefined ↔
    ∃ v, Interrupt.ofCode? val = some v ∧ mem.ReadsNullContext m v := by
  rw [interrupt_snd]
  cases Interrupt.ofCode? val with
  | none => simp
  | some v =>
    dsimp only
    split_ifs with hreads hneeds
    · simp [hreads]
    · simp [hreads]
    · simp [hreads]

/-- When `interrupt` with a value in range does not return. -/
theorem interrupt_ne_none_iff {v : Interrupt} (hval : Interrupt.ofCode? val = some v) :
    (mem.interrupt m val creates).2 ≠ none ↔
      mem.ReadsNullContext m v ∨ mem.NeedsResetThread m v ∧ creates = false := by
  rw [interrupt_snd, hval]
  dsimp only
  split_ifs with hreads hneeds
  · simp [hreads]
  · simp [hneeds]
  · simp [hreads, hneeds]

/-- `copy` changes the one macro, which takes over the context. -/
theorem confined_copy {other : MacroId} (h : mem.copy m other = some mem') :
    Confined mem mem' m (mem.macros other).context := by
  have hothers := (MacroCall.spec_copy h).others
  rw [copy] at h
  by_cases hself : m = other
  · rw [if_pos hself, Option.some_inj] at h
    rw [← h, ← hself]
    exact Confined.refl mem m
  · rw [if_neg hself] at h
    obtain ⟨mem₁, h₁, h⟩ := Option.bind_eq_some_iff.mp h
    have hdisabled := confined_disableEverything h₁
    obtain ⟨n, q, hlimit⟩ := Macro.limitMaxThreads_frame (mem₁.copyFrom m other).threadLimit
      ((mem₁.copyFrom m other).macros m)
    have happly := Block.confined h
    rw [modify_macros_self, hlimit, MacroCall.macros_copyFrom] at happly
    exact {
      context := by rw [happly.context, hdisabled.others other (Ne.symm hself)]
      others := hothers
      idle := fun hidle => by
        have hcount := happly.idle
        rw [modify_macros_self, hlimit, MacroCall.macros_copyFrom] at hcount
        exact hcount (hdisabled.idle hidle) }

end Memory

/-! ## Public calls -/

namespace PublicCall

variable {mem : Memory} {m : MacroId} {call : PublicCall}

/-- **What a public call changes**: the one macro, and its context only by `copy`. -/
theorem confined (h : (call.run mem m).2 ≠ some .undefined) :
    Confined mem (call.run mem m).1 m (call.contextAfter mem m) := by
  cases call with
  | block b => exact b.confined_call m mem
  | setInterruptor val creates => exact mem.confined_interrupt m val creates
  | setEnabled val => exact mem.confined_interrupt m _ true
  | clearAll => exact confined_runBlocks m _ mem
  | copy other =>
    rw [run] at h ⊢
    cases hcopy : mem.copy m other with
    | none =>
      rw [hcopy] at h
      exact absurd rfl h
    | some mem' => exact Memory.confined_copy hcopy

/-- With contexts no call reads a null one. -/
theorem run_ne_undefined (hctx : (mem.macros m).context ≠ none)
    (hafter : call.contextAfter mem m ≠ none) : (call.run mem m).2 ≠ some .undefined := by
  have hinterrupt : ∀ val creates, (mem.interrupt m val creates).2 ≠ some .undefined := by
    intro val creates h
    obtain ⟨v, -, -, -, hnone⟩ := Memory.interrupt_eq_undefined_iff.mp h
    exact hctx hnone
  cases call with
  | block b => exact b.call_ne_undefined hctx
  | setInterruptor val creates => exact hinterrupt val creates
  | setEnabled val => exact hinterrupt _ true
  | clearAll => exact runBlocks_ne_undefined _ hctx
  | copy other =>
    rw [run]
    cases hcopy : mem.copy m other with
    | none =>
      obtain ⟨-, hnone | ⟨-, hnone⟩⟩ := Memory.copy_eq_none_iff.mp hcopy
      · exact absurd hnone hctx
      · exact absurd hnone hafter
    | some mem' => exact (Option.some_ne_none _).symm

/-- A macro without context gets none by a call that does not read its null one. -/
theorem contextAfter_eq_none (hctx : (mem.macros m).context = none)
    (h : (call.run mem m).2 ≠ some .undefined) : call.contextAfter mem m = none := by
  cases call with
  | copy other =>
    rw [run] at h
    by_cases hself : m = other
    · rw [← hself]
      exact hctx
    · rw [Memory.copy_eq_none_iff.mpr ⟨hself, Or.inl hctx⟩] at h
      exact absurd rfl h
  | block b => exact hctx
  | setInterruptor val creates => exact hctx
  | setEnabled val => exact hctx
  | clearAll => exact hctx

end PublicCall

end Libmacro
