import Libmacro.Receivers
import Libmacro.Registries.Macros
import Libmacro.Threads.Pass

/-! # Macros that interrupt macros

A signal list may hold `Interrupt` signals, aimed at a macro, which may be the one that sends them,
or at the macro registry. `Memory.dispatchSignals` is the loop of `MacroImpl::dispatchSignals` with
what its deliveries do to the memory, where the interruptor that the loop reads is the one that
they leave (`map_dispatchSignals_of_reads`). `dispatchSignals_upTo`: a pass is the delivering, one
after the other, of the signals up to the first that interrupts the macro itself.
`macros_of_dispatchSignals`: a disabled macro that no signal of the list enables is left as it
is. -/

namespace Containers

variable {α : Type*}

/-- The list up to the first element with the property, and with that one. -/
def upTo (p : α → Bool) : List α → List α
  | [] => []
  | x :: rest => x :: if p x then [] else upTo p rest

end Containers

namespace Libmacro

open Containers

/-- The `IInterrupt` that an `Interrupt` signal is aimed at. -/
inductive InterruptTarget where
  /-- A macro. -/
  | ofMacro (m : MacroId)
  /-- The macro registry, whose map is iterated in the order. -/
  | registry (order : List (Σ _ : CString, Option MacroId))

/-- `Interrupt`, the signal: what it is aimed at, and the value that it sets there. -/
structure InterruptSignal where
  /-- `target`. -/
  target : Option InterruptTarget := none
  /-- `value`. -/
  value : Interrupt := .interruptAll

namespace InterruptTarget

/-- `target->interrupt(type)`: the memory after it and the macros a reset thread was started for;
`none` when it reads a null pointer. -/
def interrupt (mem : Memory) (type : Interrupt) : InterruptTarget → Option (Memory × List MacroId)
  | ofMacro m => (mem.setInterruptor m type).map fun r => (r.1, if r.2 then [m] else [])
  | registry order => MacroRegistry.interrupt type order ∅ mem

/-- The target is macro `m`, or the registry has it. -/
def reaches (m : MacroId) : InterruptTarget → Bool
  | ofMacro m' => m' = m
  | registry order => order.any fun iter => iter.2 = some m

end InterruptTarget

/-- `Interrupt::send`: it interrupts its target, and does nothing without one. -/
def InterruptSignal.send (sig : InterruptSignal) (mem : Memory) :
    Option (Memory × List MacroId) :=
  match sig.target with
  | some target => target.interrupt mem sig.value
  | none => some (mem, [])

/-- The registry has no null pointer, if the signal is aimed at it. -/
def InterruptSignal.Whole (sig : InterruptSignal) : Prop :=
  ∀ order, sig.target = some (.registry order) → ∀ iter ∈ order, iter.2 ≠ none

/-- What a pass has done: the memory after it, its deliveries and the reset threads that it has
started. -/
structure Pass where
  /-- The memory after it. -/
  memory : Memory
  /-- The signals delivered. -/
  delivered : List SignalId
  /-- The macros a reset thread was started for. -/
  resets : List MacroId

namespace Memory

section Pass

variable (triggers : TriggerId → Trigger) (worker : Memory → MacroId → Option ThreadId)
  (iteration : Dispatcher Receiver → List (Option Receiver))
  (interruptOf : SignalId → Option InterruptSignal)

/-- A signal is delivered: the last lines of the loop. `iteration` is how a dispatcher iterates,
`interruptOf` says which signals are `Interrupt`s; the others leave the memory as it is when they
are sent. -/
def deliverSignal (mem : Memory) (s : SignalId) : Option (Memory × List MacroId) :=
  match mem.dispatcherPtr s with
  | some d => some ((mem.dispatch triggers worker (some s) 0 (iteration (mem.dispatchers d))).1, [])
  | none =>
    match interruptOf s with
    | some sig => sig.send mem
    | none => some (mem, [])

/-- The loop of `MacroImpl::dispatchSignals`, with nothing else going on. -/
def dispatchSignals (m : MacroId) : List (Option SignalId) → Memory → Option Pass
  | [], mem => some ⟨mem, [], []⟩
  | signalPtr :: rest, mem =>
    if Interrupt.interruptAll.code ≤ (mem.macros m).interruptor.code then some ⟨mem, [], []⟩
    else if Interrupt.interrupt.code ≤ (mem.macros m).interruptor.code then
      dispatchSignals m rest mem
    else match signalPtr with
      | none => dispatchSignals m rest mem
      | some s => do
        let (mem, resets) ← mem.deliverSignal triggers worker iteration interruptOf s
        let pass ← dispatchSignals m rest mem
        some ⟨pass.memory, s :: pass.delivered, resets ++ pass.resets⟩

/-- Signals are delivered one after the other. -/
def deliverAll : List SignalId → Memory → Option (Memory × List MacroId)
  | [], mem => some (mem, [])
  | s :: rest, mem => do
    let (mem, resets) ← mem.deliverSignal triggers worker iteration interruptOf s
    let (mem, resets') ← deliverAll rest mem
    some (mem, resets ++ resets')

/-- The value that the delivery of a signal gives the interruptor of macro `m`, if it gives one. -/
def setsInterruptor (mem : Memory) (m : MacroId) (s : SignalId) : Option Interrupt :=
  match mem.dispatcherPtr s, interruptOf s with
  | none, some ⟨some target, value⟩ => if target.reaches m then some value else none
  | _, _ => none

/-- The delivery of the signal interrupts macro `m`. -/
def interrupts (mem : Memory) (m : MacroId) (s : SignalId) : Bool :=
  (mem.setsInterruptor interruptOf m s).any fun val => Interrupt.interrupt.code ≤ val.code

end Pass

end Memory

/-- A delivery is one of the signal that it was asked for, offered to a dispatcher or sent. -/
@[simp] theorem deliver_signalPtr (dispatcherPtr : SignalId → Option DispatcherId)
    (env : Encounter) (i : ℕ) (s : SignalId) : (deliver dispatcherPtr env i s).signalPtr = s := by
  unfold deliver
  cases dispatcherPtr s <;> rfl

/-! ## What `setInterruptor` does to the macros -/

namespace Macro

/-- The macro after `setInterruptor(type)`, which does nothing when the value is there already. -/
def interrupted (type : Interrupt) (mac : Macro) : Macro :=
  if type = mac.interruptor then mac else (mac.storeInterruptor type).1

/-- The interruptor after `setInterruptor` on a running macro. -/
theorem interrupted_interruptor {type : Interrupt} {mac : Macro} (hrun : mac.threadCount ≠ 0) :
    (mac.interrupted type).interruptor = type := by
  rw [interrupted]
  split_ifs with heq
  · exact heq.symm
  · rw [storeInterruptor_interruptor, interruptorAfter, if_neg fun h => hrun h.2]

/-- Interrupting a macro does not change the number of its counted workers: they see it later. -/
@[simp] theorem interrupted_threadCount (type : Interrupt) (mac : Macro) :
    (mac.interrupted type).threadCount = mac.threadCount := by
  rw [interrupted]
  split_ifs
  · rfl
  · obtain ⟨q, n, hmac⟩ := storeInterruptor_frame type mac
    rw [hmac]

/-- Interrupting a macro leaves it with its context. -/
@[simp] theorem interrupted_context (type : Interrupt) (mac : Macro) :
    (mac.interrupted type).context = mac.context := by
  rw [interrupted]
  split_ifs
  · rfl
  · obtain ⟨q, n, hmac⟩ := storeInterruptor_frame type mac
    rw [hmac]

/-- Disabling a disabled macro changes nothing. -/
theorem interrupted_disable {mac : Macro} (h : mac.interruptor = .disable) :
    mac.interrupted .disable = mac := if_pos h.symm

end Macro

/-- **What `interrupt(type)` does**, to the macros that it reaches; `resets` are those a reset
thread was started for. -/
structure ReachedBy (type : Interrupt) (reaches : MacroId → Bool) (mem mem' : Memory)
    (resets : List MacroId) : Prop where
  /-- The macros reached are interrupted, the others are left alone. -/
  macros : ∀ m, mem'.macros m = if reaches m then (mem.macros m).interrupted type else mem.macros m
  /-- Reset threads are for the running ones that `INTERRUPT_ALL` changed. -/
  resets : ∀ m, m ∈ resets ↔ reaches m = true ∧ type ≠ (mem.macros m).interruptor ∧
    type = .interruptAll ∧ (mem.macros m).running = true
  /-- The dispatchers of the signals are left alone. -/
  dispatcherPtr : mem'.dispatcherPtr = mem.dispatcherPtr

section Reached

variable {type : Interrupt} {mem mem' : Memory} {m : MacroId} {resets : List MacroId}

/-- `setInterruptor` on one macro reaches this macro and no other. -/
theorem reachedBy_setInterruptor {flag : Bool}
    (h : mem.setInterruptor m type = some (mem', flag)) :
    ReachedBy type (fun m' => m' = m) mem mem' (if flag then [m] else []) := by
  have hspec := MacroCall.spec_setInterruptor h
  obtain ⟨-, hflag⟩ := MacroCall.setup_setInterruptor h
  refine ⟨fun m' => ?_, fun m' => ?_, hspec.dispatcherPtr⟩
  · by_cases hm : m' = m
    · subst hm
      rw [if_pos (decide_eq_true rfl), Macro.interrupted]
      rw [Memory.setInterruptor] at h
      dsimp only at h
      split_ifs at h with hval hcross
      · -- the registrations are rewritten, the stored macro stays
        obtain ⟨mem₁, h, hmem⟩ := Option.map_eq_some_iff.mp h
        obtain ⟨reg, -, rfl⟩ := Option.map_eq_some_iff.mp h
        rw [Prod.mk.injEq] at hmem
        obtain ⟨rfl, -⟩ := hmem
        rw [if_neg hval]
        exact mem.modify_macros_self m' fun _ => ((mem.macros m').storeInterruptor type).1
      · obtain ⟨rfl, -⟩ := Prod.mk.inj (Option.some.inj h)
        rw [if_neg hval]
        exact mem.modify_macros_self m' _
      · obtain ⟨rfl, -⟩ := Prod.mk.inj (Option.some.inj h)
        rw [if_pos (not_not.mp hval)]
    · rw [if_neg (by simpa using hm), hspec.others m' hm]
  · cases flag with
    | false =>
      refine iff_of_false List.not_mem_nil ?_
      rintro ⟨hm, hreset⟩
      rw [of_decide_eq_true hm] at hreset
      exact absurd (hflag.mpr hreset) Bool.false_ne_true
    | true =>
      rw [if_pos rfl, List.mem_singleton, decide_eq_true_iff]
      constructor
      · rintro rfl
        exact ⟨rfl, hflag.mp rfl⟩
      · exact And.left

/-- Interrupting other macros afterwards reaches both, and the reset threads come in this order. -/
theorem ReachedBy.trans {f g : MacroId → Bool} {mem₁ : Memory} {resets' : List MacroId}
    (h : ReachedBy type f mem mem₁ resets) (h' : ReachedBy type g mem₁ mem' resets')
    (hdisj : ∀ m, f m = true → g m = false) :
    ReachedBy type (fun m => f m || g m) mem mem' (resets ++ resets') := by
  refine ⟨fun m => ?_, fun m => ?_, h'.dispatcherPtr.trans h.dispatcherPtr⟩
  · rw [h'.macros m, h.macros m]
    cases hf : f m with
    | true => simp [hdisj m hf]
    | false => simp
  · rw [List.mem_append, h.resets m, h'.resets m, h.macros m]
    cases hf : f m with
    | true => simp [hdisj m hf]
    | false => simp

/-- The registry interrupts the macros that it meets and that are not in `set`. -/
theorem reachedBy_registry {order : List (Σ _ : CString, Option MacroId)}
    {set : Finset (Option MacroId)}
    (h : MacroRegistry.interrupt type order set mem = some (mem', resets)) :
    ReachedBy type (fun m => some m ∉ set && order.any fun iter => iter.2 = some m)
      mem mem' resets := by
  induction order generalizing set mem resets with
  | nil =>
    obtain ⟨rfl, rfl⟩ := Prod.mk.inj (Option.some.inj h)
    exact ⟨fun m => by simp, fun m => by simp, rfl⟩
  | cons iter rest ih =>
    rw [MacroRegistry.interrupt] at h
    split_ifs at h with hset
    · -- interrupted under an earlier name
      convert ih h using 2 with m
      by_cases hm : iter.2 = some m
      · simp [← hm, hset]
      · simp [hm]
    · cases hptr : iter.2 with
      | none => simp [hptr] at h
      | some m₁ =>
        simp only [hptr, Option.bind_eq_bind, Option.bind_some, Option.bind_eq_some_iff,
          Option.some.injEq, Prod.exists, Prod.mk.injEq] at h
        obtain ⟨mem₁, flag, hcall, mem₂, resets₂, hrest, rfl, rfl⟩ := h
        rw [hptr] at hset
        have hboth := (reachedBy_setInterruptor hcall).trans (ih hrest) fun m hm => by
          simp [of_decide_eq_true hm]
        convert hboth using 2 with m
        · by_cases hm : m = m₁
          · simp [hm, hset, hptr]
          · simp [hm, hptr, Ne.symm hm]
        · cases flag <;> rfl

/-- **`interrupt(type)`** on a target reaches what `reaches` says. -/
theorem reachedBy_interrupt {target : InterruptTarget}
    (h : target.interrupt mem type = some (mem', resets)) :
    ReachedBy type (fun m => target.reaches m) mem mem' resets := by
  cases target with
  | ofMacro m =>
    obtain ⟨⟨mem₁, flag⟩, hcall, heq⟩ := Option.map_eq_some_iff.mp h
    obtain ⟨rfl, rfl⟩ := Prod.mk.inj heq
    convert reachedBy_setInterruptor hcall using 2 with m'
    simp [InterruptTarget.reaches, eq_comm]
  | registry order =>
    convert reachedBy_registry h using 2 with m'
    simp [InterruptTarget.reaches]

end Reached

/-! ## What a dispatch does to the macros -/

namespace Memory

section Start

variable {mem : Memory} {m m' : MacroId}

/-- `trySpawnThread` keeps the interruptor, whether it creates a worker or not. -/
theorem trySpawnThread_interruptor (worker : Option ThreadId) :
    ((mem.trySpawnThread m worker).1.macros m).interruptor = (mem.macros m).interruptor := by
  have hlimit : ∀ mac : Macro, (mac.limitMaxThreads mem.threadLimit).interruptor =
      mac.interruptor := fun mac => by
    obtain ⟨n, q, hmac⟩ := mac.limitMaxThreads_frame mem.threadLimit
    rw [hmac]
  have hinc : ((mem.macros m).incQueued mem.threadLimit).interruptor =
      (mem.macros m).interruptor := by
    rw [Macro.incQueued]
    split_ifs
    · exact hlimit _
    · rfl
  rw [trySpawnThread]
  dsimp only
  split_ifs
  · simp
  · simp [hinc]
  · cases worker <;> simp [modify, hinc]

/-- **Starting a macro keeps the interruptor** of one that is not interrupted. -/
theorem start_interruptor (hlt : (mem.macros m).interruptor.code < Interrupt.interrupt.code)
    (worker : Option ThreadId) :
    ((mem.start m' worker).macros m).interruptor = (mem.macros m).interruptor := by
  by_cases hm : m = m'
  · subst hm
    have hspawn := @trySpawnThread_interruptor mem m worker
    have hlimit : ∀ (limit : ℕ) (mac : Macro), (mac.limitMaxThreads limit).interruptor =
        mac.interruptor := fun limit mac => by
      obtain ⟨n, q, hmac⟩ := mac.limitMaxThreads_frame limit
      rw [hmac]
    rw [start]
    cases hv : (mem.macros m).interruptor with
    | «continue» | pause =>
      dsimp only
      split_ifs
      · rw [hspawn, hv]
      · rw [modify_macros_self, hlimit, hspawn, hv]
      · exact hv
    | _ => simp [hv, Interrupt.code] at hlt
  · rw [start_macros_of_ne mem worker hm]

end Start

/-- What a delivery keeps of every macro: the count of its runs and its context; and the
dispatchers of the signals. -/
structure Keeps (mem mem' : Memory) : Prop where
  threadCount : ∀ m, (mem'.macros m).threadCount = (mem.macros m).threadCount
  context : ∀ m, (mem'.macros m).context = (mem.macros m).context
  dispatcherPtr : mem'.dispatcherPtr = mem.dispatcherPtr

/-- What is not changed is kept. -/
theorem Keeps.refl (mem : Memory) : Keeps mem mem := ⟨fun _ => rfl, fun _ => rfl, rfl⟩

/-- What two changes keep, both of them together do. -/
theorem Keeps.trans {mem mem' mem'' : Memory} (h : Keeps mem mem') (h' : Keeps mem' mem'') :
    Keeps mem mem'' :=
  ⟨fun m => (h'.threadCount m).trans (h.threadCount m),
    fun m => (h'.context m).trans (h.context m), h'.dispatcherPtr.trans h.dispatcherPtr⟩

/-- A start keeps them: the worker that it creates is counted only when it runs. -/
theorem keeps_start (mem : Memory) (m : MacroId) (worker : Option ThreadId) :
    Keeps mem (mem.start m worker) := by
  have hframe := startFrame_start mem m worker
  refine ⟨fun m' => ?_, fun m' => ?_, by rw [hframe.rest]⟩
  · by_cases hm : m' = m
    · rw [hm, hframe.setup]
    · rw [hframe.others m' hm]
  · by_cases hm : m' = m
    · rw [hm, hframe.setup]
    · rw [hframe.others m' hm]

/-- So does an interrupt, whichever macros it reaches. -/
theorem keeps_of_reachedBy {mem mem' : Memory} {type : Interrupt} {reaches : MacroId → Bool}
    {resets : List MacroId} (h : ReachedBy type reaches mem mem' resets) : Keeps mem mem' := by
  refine ⟨fun m => ?_, fun m => ?_, h.dispatcherPtr⟩ <;>
  · rw [h.macros m]
    split_ifs <;> simp

/-! ## What a delivery does to the macros -/

section Deliver

variable {triggers : TriggerId → Trigger} {worker : Memory → MacroId → Option ThreadId}
  {iteration : Dispatcher Receiver → List (Option Receiver)}
  {interruptOf : SignalId → Option InterruptSignal} {mem mem' : Memory} {m : MacroId}
  {s : SignalId} {resets : List MacroId}

/-- What a signal interrupts depends on the dispatchers of the signals. -/
theorem setsInterruptor_congr (h : mem'.dispatcherPtr = mem.dispatcherPtr) :
    mem'.setsInterruptor interruptOf m s = mem.setsInterruptor interruptOf m s := by
  rw [setsInterruptor, setsInterruptor, h]

/-- Which signals interrupt a macro depends on the dispatchers of the signals, which no delivery
changes. -/
theorem interrupts_congr (h : mem'.dispatcherPtr = mem.dispatcherPtr) :
    mem'.interrupts interruptOf m = mem.interrupts interruptOf m := by
  funext s
  rw [interrupts, interrupts, setsInterruptor_congr h]

/-- **A delivery is a dispatch, or it interrupts** the macros whose interruptor it sets. -/
theorem deliverSignal_cases
    (h : mem.deliverSignal triggers worker iteration interruptOf s = some (mem', resets)) :
    (∃ order, mem' = (mem.dispatch triggers worker (some s) 0 order).1 ∧ resets = [] ∧
      ∀ m, mem.setsInterruptor interruptOf m s = none) ∨
    ∃ value reaches, ReachedBy value reaches mem mem' resets ∧
      ∀ m, mem.setsInterruptor interruptOf m s = if reaches m then some value else none := by
  have hnothing : ReachedBy .continue (fun _ => false) mem mem [] :=
    ⟨fun m => by simp, fun m => by simp, rfl⟩
  rw [deliverSignal] at h
  cases hd : mem.dispatcherPtr s with
  -- a signal with a dispatcher is dispatched and nothing else
  | some d =>
    rw [hd] at h
    obtain ⟨rfl, rfl⟩ := Prod.mk.inj (Option.some.inj h)
    exact .inl ⟨_, rfl, rfl, fun m => by rw [setsInterruptor, hd]⟩
  | none =>
    -- no dispatcher: the signal is sent, which interrupts if it is an `Interrupt` with a target
    right
    rw [hd] at h
    cases hs : interruptOf s with
    | none =>
      rw [hs] at h
      obtain ⟨rfl, rfl⟩ := Prod.mk.inj (Option.some.inj h)
      exact ⟨_, _, hnothing, fun m => by simp [setsInterruptor, hd, hs]⟩
    | some sig =>
      obtain ⟨target, value⟩ := sig
      rw [hs] at h
      cases target with
      | none =>
        obtain ⟨rfl, rfl⟩ := Prod.mk.inj (Option.some.inj h)
        exact ⟨_, _, hnothing, fun m => by simp [setsInterruptor, hd, hs]⟩
      | some target =>
        exact ⟨value, _, reachedBy_interrupt h, fun m => by simp [setsInterruptor, hd, hs]⟩

/-- A delivery keeps them, whether the signal is dispatched, sent or an interrupt. -/
theorem keeps_deliverSignal
    (h : mem.deliverSignal triggers worker iteration interruptOf s = some (mem', resets)) :
    Keeps mem mem' := by
  rcases deliverSignal_cases h with ⟨order, rfl, -⟩ | ⟨value, reaches, hreached, -⟩
  · exact dispatch_induction triggers worker (some s) 0
      (fun mem' m w hkeeps => hkeeps.trans (keeps_start mem' m w)) (.refl mem) order
  · exact keeps_of_reachedBy hreached

/-- **The interruptor of a running macro** is what the delivery sets it to; a reset thread is
started for the macro when that is `INTERRUPT_ALL`. -/
theorem interruptor_deliverSignal (hrun : (mem.macros m).threadCount ≠ 0)
    (hlt : (mem.macros m).interruptor.code < Interrupt.interrupt.code)
    (h : mem.deliverSignal triggers worker iteration interruptOf s = some (mem', resets)) :
    (mem'.macros m).interruptor =
        (mem.setsInterruptor interruptOf m s).getD (mem.macros m).interruptor ∧
      (m ∈ resets ↔ mem.setsInterruptor interruptOf m s = some .interruptAll) := by
  rcases deliverSignal_cases h with ⟨order, rfl, rfl, hsets⟩ | ⟨value, reaches, hreached, hsets⟩
  · rw [hsets m]
    refine ⟨?_, by simp⟩
    exact dispatch_induction triggers worker (some s) 0
      (P := fun mem' => (mem'.macros m).interruptor = (mem.macros m).interruptor)
      (fun mem' m' w heq => (start_interruptor (heq ▸ hlt) w).trans heq) rfl order
  · rw [hsets m, hreached.macros m, hreached.resets m]
    cases hm : reaches m with
    | false => simp
    | true =>
      simp only [if_true, Option.getD_some, Option.some_inj, true_and,
        Macro.interrupted_interruptor hrun]
      refine ⟨fun hreset => hreset.2.1, ?_⟩
      rintro rfl
      refine ⟨?_, rfl, Macro.running_iff.mpr hrun⟩
      intro heq
      rw [← heq] at hlt
      exact absurd hlt (by decide)

/-- **A disabled macro** that the delivery does not enable is left as it is. -/
theorem macros_deliverSignal (hdis : (mem.macros m).interruptor = .disable)
    (hsets : ∀ val, mem.setsInterruptor interruptOf m s = some val → val = .disable)
    (h : mem.deliverSignal triggers worker iteration interruptOf s = some (mem', resets)) :
    mem'.macros m = mem.macros m ∧ m ∉ resets := by
  rcases deliverSignal_cases h with ⟨order, rfl, rfl, -⟩ | ⟨value, reaches, hreached, hvalue⟩
  · refine ⟨?_, List.not_mem_nil⟩
    refine dispatch_induction triggers worker (some s) 0
      (P := fun mem' => mem'.macros m = mem.macros m) (fun mem' m' w heq => ?_) rfl order
    by_cases hm : m = m'
    · rw [← hm, start_of_disable (by rw [heq, hdis]), heq]
    · rw [start_macros_of_ne mem' w hm, heq]
  · rw [hreached.macros m, hreached.resets m]
    cases hm : reaches m with
    | false => simp
    | true =>
      obtain rfl := hsets value (by rw [hvalue m, hm, if_pos rfl])
      simp [Macro.interrupted_disable hdis, hdis]

/-- A delivery returns, when every macro has a context and the registry no null pointer. -/
theorem exists_deliverSignal (hctx : MacroCall.Contexts mem)
    (hwhole : ∀ sig, interruptOf s = some sig → sig.Whole) : ∃ mem' resets,
    mem.deliverSignal triggers worker iteration interruptOf s = some (mem', resets) := by
  rw [deliverSignal]
  cases mem.dispatcherPtr s with
  | some d => exact ⟨_, _, rfl⟩
  | none =>
    cases hs : interruptOf s with
    | none => exact ⟨_, _, rfl⟩
    | some sig =>
      have hsig := hwhole sig hs
      obtain ⟨target, value⟩ := sig
      cases target with
      | none => exact ⟨_, _, rfl⟩
      | some target =>
        cases target with
        | ofMacro m =>
          obtain ⟨_, hsome⟩ := MacroCall.exists_run hctx m (.config (.setInterruptor value))
          obtain ⟨r, hcall, -⟩ := Option.map_eq_some_iff.mp hsome
          exact ⟨r.1, if r.2 then [m] else [], Option.map_eq_some_iff.mpr ⟨r, hcall, rfl⟩⟩
        | registry order =>
          obtain ⟨mem', resets, hrun, -⟩ :=
            MacroRegistry.interrupt_spec order ∅ (hsig order rfl) hctx
          exact ⟨mem', resets, hrun⟩

end Deliver

/-! ## The pass -/

section Dispatch

variable {triggers : TriggerId → Trigger} {worker : Memory → MacroId → Option ThreadId}
  {iteration : Dispatcher Receiver → List (Option Receiver)}
  {interruptOf : SignalId → Option InterruptSignal} {mem : Memory} {m m' : MacroId}
  {signals : List (Option SignalId)} {pass : Pass}

/-- An interrupted pass delivers nothing more. -/
theorem dispatchSignals_of_interrupted
    (h : Interrupt.interrupt.code ≤ (mem.macros m).interruptor.code) :
    mem.dispatchSignals triggers worker iteration interruptOf m signals = some ⟨mem, [], []⟩ := by
  induction signals with
  | nil => rfl
  | cons signalPtr signals ih =>
    cases signalPtr <;> rw [dispatchSignals] <;> split_ifs <;> first | rfl | exact ih

/-- The turn of a signal: it is delivered, and the rest of the pass goes on in the memory after the
delivery. -/
theorem dispatchSignals_cons_some {s : SignalId}
    (hlt : (mem.macros m).interruptor.code < Interrupt.interrupt.code) :
    mem.dispatchSignals triggers worker iteration interruptOf m (some s :: signals) =
      (mem.deliverSignal triggers worker iteration interruptOf s).bind fun r =>
        (r.1.dispatchSignals triggers worker iteration interruptOf m signals).map fun pass =>
          ⟨pass.memory, s :: pass.delivered, r.2 ++ pass.resets⟩ := by
  have hbreak : ¬ Interrupt.interruptAll.code ≤ (mem.macros m).interruptor.code :=
    Nat.not_le.mpr (hlt.trans (by decide))
  rw [dispatchSignals, if_neg hbreak, if_neg (Nat.not_le.mpr hlt)]
  cases mem.deliverSignal triggers worker iteration interruptOf s with
  | none => rfl
  | some r =>
    simp only [Option.bind_eq_bind, Option.bind_some]
    cases r.1.dispatchSignals triggers worker iteration interruptOf m signals <;> rfl

/-- A null signal is passed over. -/
theorem dispatchSignals_cons_none
    (hlt : (mem.macros m).interruptor.code < Interrupt.interrupt.code) :
    mem.dispatchSignals triggers worker iteration interruptOf m (none :: signals) =
      mem.dispatchSignals triggers worker iteration interruptOf m signals := by
  have hbreak : ¬ Interrupt.interruptAll.code ≤ (mem.macros m).interruptor.code :=
    Nat.not_le.mpr (hlt.trans (by decide))
  rw [dispatchSignals, if_neg hbreak, if_neg (Nat.not_le.mpr hlt)]

/-- **A pass of a running macro** delivers its signals in turn, up to the first that interrupts the
macro, and that one as well. Its interruptor is then what they set last; with `INTERRUPT_ALL` a
reset thread has been started for it. -/
theorem dispatchSignals_upTo (hrun : (mem.macros m).threadCount ≠ 0)
    (hlt : (mem.macros m).interruptor.code < Interrupt.interrupt.code)
    (hctx : MacroCall.Contexts mem)
    (hwhole : ∀ s ∈ signals.reduceOption, ∀ sig, interruptOf s = some sig → sig.Whole) :
    ∃ pass, mem.dispatchSignals triggers worker iteration interruptOf m signals = some pass ∧
      pass.delivered = upTo (mem.interrupts interruptOf m) signals.reduceOption ∧
      mem.deliverAll triggers worker iteration interruptOf pass.delivered =
        some (pass.memory, pass.resets) ∧
      (pass.memory.macros m).interruptor =
        (lastSet (mem.setsInterruptor interruptOf m) pass.delivered).getD
          (mem.macros m).interruptor ∧
      (m ∈ pass.resets ↔ (pass.memory.macros m).interruptor = .interruptAll) := by
  induction signals generalizing mem with
  | nil =>
    refine ⟨⟨mem, [], []⟩, rfl, rfl, rfl, rfl, iff_of_false List.not_mem_nil ?_⟩
    intro heq
    rw [heq] at hlt
    exact absurd hlt (by decide)
  | cons signalPtr signals ih =>
    cases signalPtr with
    | none =>
      rw [dispatchSignals_cons_none hlt, List.reduceOption_cons_of_none]
      exact ih hrun hlt hctx (by simpa using hwhole)
    | some s =>
      rw [List.reduceOption_cons_of_some, List.forall_mem_cons] at hwhole
      obtain ⟨mem₁, resets, hs⟩ := @exists_deliverSignal triggers worker iteration interruptOf mem s
        hctx hwhole.1
      have hkeeps := keeps_deliverSignal hs
      obtain ⟨hval, hreset⟩ := interruptor_deliverSignal hrun hlt hs
      rw [dispatchSignals_cons_some hlt, hs, Option.bind_some, List.reduceOption_cons_of_some, upTo]
      by_cases hstop : mem.interrupts interruptOf m s = true
      · -- the signal interrupts the macro, and the loop ends
        obtain ⟨val, hsets, hcode⟩ := (Option.any_eq_true _ _).mp hstop
        rw [hsets, Option.getD_some] at hval
        rw [dispatchSignals_of_interrupted (hval ▸ of_decide_eq_true hcode), if_pos hstop]
        refine ⟨⟨mem₁, [s], resets⟩, by simp, rfl, ?_, ?_, ?_⟩
        · simp [deliverAll, hs]
        · rw [lastSet_cons, hsets, lastSet_nil, Option.none_or, Option.getD_some]
          exact hval
        · rw [hreset, hsets, Option.some_inj, ← hval]
      · -- the macro goes on as it is, or with the value that the signal sets
        have hlt₁ : (mem₁.macros m).interruptor.code < Interrupt.interrupt.code := by
          rw [hval]
          cases hsets : mem.setsInterruptor interruptOf m s with
          | none => exact hlt
          | some val =>
            rw [interrupts, hsets, Option.any_some, decide_eq_true_iff] at hstop
            exact Nat.not_le.mp hstop
        obtain ⟨pass, hpass, hdelivered, hall, hlast, hresets⟩ := ih
          ((hkeeps.threadCount m).symm ▸ hrun) hlt₁
          (fun m' => by rw [hkeeps.context m']; exact hctx m') hwhole.2
        rw [hpass, Option.map_some, if_neg hstop]
        rw [interrupts_congr hkeeps.dispatcherPtr] at hdelivered
        refine ⟨⟨pass.memory, s :: pass.delivered, resets ++ pass.resets⟩, rfl,
          by rw [hdelivered], ?_, ?_, ?_⟩
        · simp only [deliverAll, hs, hall, Option.bind_eq_bind, Option.bind_some]
        · rw [hlast, hval, lastSet_cons]
          have hsets : mem₁.setsInterruptor interruptOf m = mem.setsInterruptor interruptOf m :=
            funext fun _ => setsInterruptor_congr hkeeps.dispatcherPtr
          rw [hsets]
          cases lastSet (mem.setsInterruptor interruptOf m) pass.delivered <;> rfl
        · rw [List.mem_append, hresets, hreset]
          refine or_iff_right fun hall => hstop ?_
          rw [interrupts, hall]
          rfl

end Dispatch

/-- Signal 3 interrupts all macros of the registry, where macro 0 has two names. -/
def stopsAll (s : SignalId) : Option InterruptSignal :=
  if s = 3 then some { target := some (.registry [⟨.lit "a", some 0⟩, ⟨.lit "b", some 0⟩]) }
  else none

/-- No macro of the registry that the example signal interrupts is a null pointer. -/
theorem whole_stopsAll {s : SignalId} {sig : InterruptSignal} (h : stopsAll s = some sig) :
    sig.Whole := by
  rw [stopsAll] at h
  split_ifs at h
  obtain rfl := Option.some.inj h
  intro order horder
  obtain rfl := InterruptTarget.registry.inj (Option.some.inj horder)
  decide

/-- A running macro whose list has the signal that interrupts all macros. -/
theorem dispatchSignals_upTo_stopsAll : ∃ pass,
    dispatchSignals blockingAction (fun _ _ => none) (fun _ => []) stopsAll 0
        [some 7, none, some 3, some 4]
        (.ofMacro { interruptor := .pause, context := some 0, threadCount := 1 }) = some pass ∧
      pass.delivered = [7, 3] ∧ (pass.memory.macros 0).interruptor = .interruptAll ∧
      0 ∈ pass.resets := by
  obtain ⟨pass, hpass, hdelivered, -, hval, hresets⟩ := @dispatchSignals_upTo blockingAction
    (fun _ _ => none) (fun _ => []) stopsAll
    (.ofMacro { interruptor := .pause, context := some 0, threadCount := 1 }) 0
    [some 7, none, some 3, some 4] (by decide) (by decide) (fun _ => rfl)
    fun _ _ _ => whole_stopsAll
  have hlast : (pass.memory.macros 0).interruptor = .interruptAll := by
    rw [hval, hdelivered]
    decide
  exact ⟨pass, hpass, hdelivered.trans (by decide), hlast, hresets.mpr hlast⟩

section Dispatch

variable {triggers : TriggerId → Trigger} {worker : Memory → MacroId → Option ThreadId}
  {iteration : Dispatcher Receiver → List (Option Receiver)}
  {interruptOf : SignalId → Option InterruptSignal} {mem : Memory} {m m' : MacroId}
  {signals : List (Option SignalId)} {pass : Pass}

/-- **A disabled macro sleeps through a pass** whose signals do not enable it: no field of it
changes, and no reset thread is started for it. -/
theorem macros_of_dispatchSignals (hdis : (mem.macros m').interruptor = .disable)
    (hsets : ∀ s ∈ signals.reduceOption, ∀ val,
      mem.setsInterruptor interruptOf m' s = some val → val = .disable)
    (h : mem.dispatchSignals triggers worker iteration interruptOf m signals = some pass) :
    pass.memory.macros m' = mem.macros m' ∧ m' ∉ pass.resets := by
  induction signals generalizing mem pass with
  | nil =>
    obtain rfl := Option.some.inj h
    exact ⟨rfl, List.not_mem_nil⟩
  | cons signalPtr signals ih =>
    by_cases hint : Interrupt.interrupt.code ≤ (mem.macros m).interruptor.code
    -- the pass is interrupted and sends no more
    · rw [dispatchSignals_of_interrupted hint, Option.some_inj] at h
      obtain rfl := h
      exact ⟨rfl, List.not_mem_nil⟩
    rw [Nat.not_le] at hint
    cases signalPtr with
    | none =>
      rw [dispatchSignals_cons_none hint] at h
      exact ih hdis (by simpa using hsets) h
    | some s =>
      rw [List.reduceOption_cons_of_some, List.forall_mem_cons] at hsets
      rw [dispatchSignals_cons_some hint, Option.bind_eq_some_iff] at h
      obtain ⟨⟨mem₁, resets⟩, hs, h⟩ := h
      obtain ⟨pass₁, hpass, rfl⟩ := Option.map_eq_some_iff.mp h
      obtain ⟨hmac, hresets⟩ := macros_deliverSignal hdis hsets.1 hs
      have hptr := (keeps_deliverSignal hs).dispatcherPtr
      -- the macro is disabled still, and the signals aim at what they aimed at
      obtain ⟨hmac₁, hresets₁⟩ := ih (by rw [hmac, hdis])
        (fun s' hs' val => setsInterruptor_congr hptr ▸ hsets.2 s' hs' val) hpass
      refine ⟨hmac₁.trans hmac, fun hmem => ?_⟩
      exact (List.mem_append.mp hmem).elim hresets hresets₁

end Dispatch

/-- The dispatcher of signal 7 has the disabled macro 1, and signal 3 interrupts all registered
ones. -/
theorem macros_of_dispatchSignals_stopsAll : ∃ pass,
    dispatchSignals blockingAction (fun _ _ => none) (fun _ => [some (.ofMacro 1)]) stopsAll 0
        [some 7, some 3]
        { Memory.ofMacro { context := some 0 } with
          macros := Function.update (fun _ => { context := some 0 }) 0
            { interruptor := .continue, context := some 0, threadCount := 1 } } = some pass ∧
      (pass.memory.macros 1).interruptor = .disable ∧ 1 ∉ pass.resets := by
  refine ⟨_, rfl, ?_⟩
  obtain ⟨hmac, hresets⟩ := @macros_of_dispatchSignals blockingAction (fun _ _ => none)
    (fun _ => [some (.ofMacro 1)]) stopsAll
    { Memory.ofMacro { context := some 0 } with
      macros := Function.update (fun _ => { context := some 0 }) 0
        { interruptor := .continue, context := some 0, threadCount := 1 } } 0 1
    [some 7, some 3] _ rfl (by decide) rfl
  exact ⟨by rw [hmac]; rfl, hresets⟩

end Memory

/-! ## The loop of a pass -/

section Loop

variable (triggers : TriggerId → Trigger) (worker : Memory → MacroId → Option ThreadId)
  (iteration : Dispatcher Receiver → List (Option Receiver))
  (interruptOf : SignalId → Option InterruptSignal)

/-- The interruptor that the pass meets at position `j`: the one that the signals before it
leave. -/
def Memory.interruptorAt (mem : Memory) (m : MacroId) (signals : List (Option SignalId)) (j : ℕ) :
    Interrupt :=
  (mem.dispatchSignals triggers worker iteration interruptOf m (signals.take j)).elim .continue
    fun pass => (pass.memory.macros m).interruptor

variable {triggers worker iteration interruptOf} {mem mem₁ : Memory} {m : MacroId} {j k : ℕ}
  {signals : List (Option SignalId)} {pass : Pass} {resets : List MacroId}

/-- A pass that begins interrupted finds the interruptor unchanged at every position, since it
delivers nothing. -/
theorem Memory.interruptorAt_of_interrupted
    (h : Interrupt.interrupt.code ≤ (mem.macros m).interruptor.code) :
    mem.interruptorAt triggers worker iteration interruptOf m signals j =
      (mem.macros m).interruptor := by
  rw [interruptorAt, dispatchSignals_of_interrupted h]
  rfl

/-- A null entry of the list changes nothing for the positions behind it. -/
theorem Memory.interruptorAt_cons_none
    (hlt : (mem.macros m).interruptor.code < Interrupt.interrupt.code) :
    mem.interruptorAt triggers worker iteration interruptOf m (none :: signals) (j + 1) =
      mem.interruptorAt triggers worker iteration interruptOf m signals j := by
  rw [interruptorAt, List.take_succ_cons, dispatchSignals_cons_none hlt]
  rfl

/-- What a pass finds at the next position is what the rest of the pass finds at its own, after the
delivery. -/
theorem Memory.interruptorAt_cons_some {s : SignalId}
    (hlt : (mem.macros m).interruptor.code < Interrupt.interrupt.code)
    (hs : mem.deliverSignal triggers worker iteration interruptOf s = some (mem₁, resets)) :
    mem.interruptorAt triggers worker iteration interruptOf m (some s :: signals) (j + 1) =
      mem₁.interruptorAt triggers worker iteration interruptOf m signals j := by
  rw [interruptorAt, List.take_succ_cons, dispatchSignals_cons_some hlt, hs, Option.bind_some,
    interruptorAt]
  cases mem₁.dispatchSignals triggers worker iteration interruptOf m (signals.take j) <;> rfl

/-- **It is the loop of a pass**, read with the interruptors that its own deliveries leave. -/
theorem map_dispatchSignals_of_reads {env : Encounter}
    (henv : ∀ j, env.breakTest (k + j) =
        mem.interruptorAt triggers worker iteration interruptOf m signals j ∧
      env.skipTest (k + j) = mem.interruptorAt triggers worker iteration interruptOf m signals j)
    (h : mem.dispatchSignals triggers worker iteration interruptOf m signals = some pass) :
    (dispatchSignals mem.dispatcherPtr env k signals).map Delivery.signalPtr =
      pass.delivered := by
  induction signals generalizing mem pass k with
  | nil =>
    obtain rfl := Option.some.inj h
    rfl
  | cons signalPtr signals ih =>
    obtain ⟨hbreak, hskip⟩ : env.breakTest k = (mem.macros m).interruptor ∧
        env.skipTest k = (mem.macros m).interruptor := henv 0
    have hnext : ∀ j, env.breakTest (k + 1 + j) =
          mem.interruptorAt triggers worker iteration interruptOf m (signalPtr :: signals) (j + 1) ∧
        env.skipTest (k + 1 + j) =
          mem.interruptorAt triggers worker iteration interruptOf m (signalPtr :: signals)
            (j + 1) := fun j => by
      rw [Nat.add_assoc, Nat.add_comm 1 j]
      exact henv (j + 1)
    by_cases hint : Interrupt.interrupt.code ≤ (mem.macros m).interruptor.code
    · -- the loop is left, or goes to the end without a delivery
      rw [Memory.dispatchSignals_of_interrupted hint, Option.some_inj] at h
      obtain rfl := h
      by_cases hall : Interrupt.interruptAll.code ≤ (mem.macros m).interruptor.code
      · rw [dispatchSignals_of_break (hbreak ▸ hall), List.map_nil]
      · rw [dispatchSignals_of_skip (hbreak ▸ hall) (hskip ▸ hint)]
        refine ih (fun j => ?_) (Memory.dispatchSignals_of_interrupted hint)
        rw [Memory.interruptorAt_of_interrupted hint]
        simpa only [Memory.interruptorAt_of_interrupted hint] using hnext j
    have hlt := Nat.not_le.mp hint
    have hall : ¬ Interrupt.interruptAll.code ≤ (mem.macros m).interruptor.code :=
      Nat.not_le.mpr (hlt.trans (by decide))
    rw [dispatchSignals_cons_of_not (hbreak ▸ hall) (hskip ▸ hint), List.map_append]
    cases signalPtr with
    | none =>
      rw [Memory.dispatchSignals_cons_none hlt] at h
      exact ih (fun j => by simpa only [Memory.interruptorAt_cons_none hlt] using hnext j) h
    | some s =>
      rw [Memory.dispatchSignals_cons_some hlt, Option.bind_eq_some_iff] at h
      obtain ⟨⟨mem₁, resets⟩, hs, h⟩ := h
      obtain ⟨pass₁, hpass, rfl⟩ := Option.map_eq_some_iff.mp h
      have hrest := ih
        (fun j => by simpa only [Memory.interruptorAt_cons_some hlt hs] using hnext j) hpass
      rw [(Memory.keeps_deliverSignal hs).dispatcherPtr] at hrest
      rw [hrest, Option.map_some, Option.toList_some, List.map_singleton, List.singleton_append,
        deliver_signalPtr]

end Loop

end Libmacro
