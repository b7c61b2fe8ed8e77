import Libmacro.Blocks

/-! # Atomic accesses to the memory

`Access` lists everything a thread does to the shared memory in one indivisible step: a block
under `_mutex` or `g_globalThreadMutex`, or a single unguarded write. A guarded access waits
while the mutex is locked (`Access.apply` is `none`).

One lemma per field says what every access does to it; the invariants use these and never
unfold `Access.perform`. -/

namespace Libmacro

namespace Block

variable {m : MacroId} {mem mem' : Memory} {b : Block}

/-- The fields of a macro and of the memory that no guarded setter writes: what the running of
threads depends on. -/
structure Frame (m : MacroId) (mem mem' : Memory) : Prop where
  interruptor : (mem'.macros m).interruptor = (mem.macros m).interruptor
  threadCount : (mem'.macros m).threadCount = (mem.macros m).threadCount
  threadMax : (mem'.macros m).threadMax = (mem.macros m).threadMax
  queued : (mem'.macros m).queued = (mem.macros m).queued
  locked : (mem'.macros m).locked = (mem.macros m).locked
  others : ∀ m', m' ≠ m → mem'.macros m' = mem.macros m'
  threadLimit : mem'.threadLimit = mem.threadLimit
  activeThreadCount : mem'.activeThreadCount = mem.activeThreadCount
  genericDispatcher : mem'.genericDispatcher = mem.genericDispatcher
  dispatcherPtr : mem'.dispatcherPtr = mem.dispatcherPtr

/-- New dispatchers leave the fields alone. -/
theorem Frame.withDispatchers (reg : Registry) : Frame m mem { mem with dispatchers := reg } :=
  ⟨rfl, rfl, rfl, rfl, rfl, fun _ _ => rfl, rfl, rfl, rfl, rfl⟩

/-- Replacing the activators, under the registrations `_removeDispatch` and `_applyDispatch`
leave. -/
theorem Frame.setActivators {array : List SignalId}
    (h : mem.setActivators m array = some mem') : Frame m mem mem' := by
  obtain ⟨reg, -, h⟩ := Option.bind_eq_some_iff.mp h
  obtain ⟨reg', -, h⟩ := Option.bind_eq_some_iff.mp h
  cases h
  constructor <;> simp +contextual [Memory.modify]

/-- Replacing the triggers leaves the frame: only the registrations, the actors and the list of
triggers change. -/
theorem Frame.setTriggers {array : List TriggerId}
    (h : mem.setTriggers m array = some mem') : Frame m mem mem' := by
  obtain ⟨reg, -, h⟩ := Option.bind_eq_some_iff.mp h
  obtain ⟨reg', -, h⟩ := Option.bind_eq_some_iff.mp h
  cases h
  constructor <;> simp +contextual [Memory.modify]

/-- **A guarded setter writes none of the running state.** -/
theorem frame (h : b.apply m mem = some mem') : Frame m mem mem' := by
  cases b with
  | setActivators array => exact .setActivators h
  | setTriggers array => exact .setTriggers h
  | setSignals array =>
    simp only [apply] at h
    split at h <;> cases h <;> constructor <;> simp +contextual
  | applyDispatch | removeDispatch | addDispatch | addDispatchTrigger =>
    obtain ⟨reg, -, rfl⟩ := Option.map_eq_some_iff.mp h
    exact .withDispatchers reg
  | addDispatchSignal | addDispatchPair =>
    cases h
    exact .withDispatchers _
  | setBlocking | setName | setSticky | setApplyDispatchEnabled =>
    cases h
    constructor <;> simp +contextual

/-- **Of its macro a guarded setter writes the configuration only.** -/
theorem macros_apply (h : b.apply m mem = some mem') :
    ∃ blocking sticky applyDispatchFlag activators name signals triggers, mem'.macros m =
      { mem.macros m with
        blocking := blocking
        sticky := sticky
        applyDispatchFlag := applyDispatchFlag
        activators := activators
        name := name
        signals := signals
        triggers := triggers } := by
  cases b with
  | setActivators | setTriggers =>
    obtain ⟨reg, -, h⟩ := Option.bind_eq_some_iff.mp h
    obtain ⟨reg', -, h⟩ := Option.bind_eq_some_iff.mp h
    rw [← Option.some.inj h]
    dsimp only
    rw [Memory.modify_macros_self]
    exact ⟨_, _, _, _, _, _, _, rfl⟩
  | setSignals array =>
    rw [apply] at h
    split_ifs at h
    · rw [← Option.some.inj h]
      exact ⟨_, _, _, _, _, _, _, rfl⟩
    · rw [← Option.some.inj h, Memory.modify_macros_self]
      exact ⟨_, _, _, _, _, _, _, rfl⟩
  | applyDispatch | removeDispatch | addDispatch | addDispatchTrigger =>
    obtain ⟨reg, -, rfl⟩ := Option.map_eq_some_iff.mp h
    exact ⟨_, _, _, _, _, _, _, rfl⟩
  | addDispatchSignal | addDispatchPair =>
    rw [← Option.some.inj h]
    exact ⟨_, _, _, _, _, _, _, rfl⟩
  | setBlocking | setName | setSticky | setApplyDispatchEnabled =>
    rw [← Option.some.inj h, Memory.modify_macros_self]
    exact ⟨_, _, _, _, _, _, _, rfl⟩

/-- A guarded setter does not notify, and leaves the handles. -/
theorem apply_notified_threads (h : b.apply m mem = some mem') :
    (mem'.macros m).notified = (mem.macros m).notified ∧
      (mem'.macros m).threads = (mem.macros m).threads := by
  obtain ⟨_, _, _, _, _, _, _, hmac⟩ := macros_apply h
  rw [hmac]
  exact ⟨rfl, rfl⟩

/-- A guarded setter leaves the context. -/
theorem context_apply (h : b.apply m mem = some mem') :
    (mem'.macros m).context = (mem.macros m).context := by
  obtain ⟨_, _, _, _, _, _, _, hmac⟩ := macros_apply h
  rw [hmac]

end Block

/-- One indivisible access of a thread of macro `m` to the memory. -/
inductive Access where
  /-- An unguarded read. -/
  | skip
  /-- A block under `_mutex` that only reads. -/
  | peek
  /-- Lock `_mutex` and keep it. -/
  | lock
  /-- Unlock `_mutex`. -/
  | unlock
  /-- `_cndThreadCount.notify_all()`. -/
  | notify
  /-- `++_threadCount` under `_mutex`. -/
  | countThread
  /-- `--_threadCount` under `_mutex`. -/
  | uncountThread
  /-- `_threadCount = 0` under `_mutex`. -/
  | clearCount
  /-- `++g_activeThreadCount` in `trySpawnThread`. -/
  | reserveSlot
  /-- `if (g_activeThreadCount > 0) --g_activeThreadCount` in `onRunComplete`. -/
  | releaseSlot
  /-- `--g_activeThreadCount; _queued = 0` where `trySpawnThread` refuses. -/
  | refuseSlot
  /-- `--g_activeThreadCount` where `trySpawnThread` catches an exception. -/
  | abandonSlot
  /-- `_queued = 0`. -/
  | clearQueued
  /-- `++_queued`. -/
  | incQueued
  /-- `--_queued`. -/
  | decQueued
  /-- The corrections of `_threadMax` in `limitMaxThreads`. -/
  | clampThreadMax
  /-- `_interruptor = val` outside the mutex (`dequeue`), or under one locked before
  (`start`). -/
  | writeInterruptor (val : Interrupt)
  /-- The guarded block of `setInterruptor`. -/
  | storeInterruptor (val : Interrupt)
  /-- A guarded setter. -/
  | block (b : Block)
  /-- `_removeDispatch` outside the mutex (`disableEverything`). -/
  | removeDispatch
  /-- The guarded block of `copy`. -/
  | assign (other : MacroId)
  /-- `_threads.emplace_back`. -/
  | pushThread (w : ThreadId)
  /-- `_threads.clear()`. -/
  | clearThreads
  /-- `_threadMax = val` under `_mutex`. -/
  | setThreadMax (val : ℕ)
  /-- `_context = ctx`. -/
  | setContext (ctx : Option ContextId)
  /-- `g_threadMax = val`. -/
  | setThreadLimit (val : ℕ)

namespace Access

/-- The access takes `_mutex` for its block, and so waits while another thread has it locked. -/
def guarded : Access → Bool
  | peek | lock | countThread | uncountThread | clearCount | storeInterruptor _ | block _
  | assign _ | setThreadMax _ => true
  | _ => false

/-- The access changes the configuration of the macro: its activators, triggers, signals, flags or
context. Registering alone does not. -/
def configures : Access → Bool
  | block .applyDispatch | block .removeDispatch | block .addDispatch
  | block (.addDispatchSignal _) | block (.addDispatchTrigger _)
  | block (.addDispatchPair _ _) => false
  | block _ | assign _ | setContext _ => true
  | _ => false

/-- The effect of the access, the mutex apart; `none` where it reads a null context. -/
def perform (m : MacroId) (mem : Memory) : Access → Option Memory
  | skip | peek => some mem
  | lock => some (mem.modify m fun mac => { mac with locked := true })
  | unlock => some (mem.modify m fun mac => { mac with locked := false })
  | notify => some (mem.modify m fun mac => { mac with notified := mac.notified + 1 })
  | countThread => some (mem.modify m fun mac => { mac with threadCount := mac.threadCount + 1 })
  | uncountThread =>
    some (mem.modify m fun mac => { mac with threadCount := uintPred mac.threadCount })
  | clearCount => some (mem.modify m fun mac => { mac with threadCount := 0 })
  | reserveSlot => some { mem with activeThreadCount := mem.activeThreadCount + 1 }
  -- the test against 0 is the truncated subtraction
  | releaseSlot => some { mem with activeThreadCount := mem.activeThreadCount - 1 }
  | refuseSlot =>
    some ({ mem with activeThreadCount := uintPred mem.activeThreadCount }.modify m fun mac =>
      { mac with queued := 0 })
  | abandonSlot => some { mem with activeThreadCount := uintPred mem.activeThreadCount }
  | clearQueued => some (mem.modify m fun mac => { mac with queued := 0 })
  | incQueued => some (mem.modify m fun mac => { mac with queued := mac.queued + 1 })
  | decQueued => some (mem.modify m fun mac => { mac with queued := mac.queued - 1 })
  | clampThreadMax => some (mem.modify m (·.clampThreadMax mem.threadLimit))
  | writeInterruptor val => some (mem.modify m fun mac => { mac with interruptor := val })
  | storeInterruptor val => some (mem.modify m fun mac => (mac.storeInterruptor val).1)
  | block b => b.apply m mem
  | removeDispatch => Block.removeDispatch.apply m mem
  | assign other => some (mem.copyFrom m other)
  | pushThread w => some (mem.modify m fun mac => { mac with threads := mac.threads ++ [w] })
  | clearThreads => some (mem.modify m fun mac => { mac with threads := [] })
  | setThreadMax val => some (mem.modify m fun mac => { mac with threadMax := val })
  | setContext ctx => some (mem.modify m fun mac => { mac with context := ctx })
  | setThreadLimit val => some { mem with threadLimit := val }

/-- The access by a thread of `m`; `none` while it waits for the mutex. -/
def apply (m : MacroId) (mem : Memory) (a : Access) : Option Memory :=
  if a.guarded = true ∧ (mem.macros m).locked = true then none else a.perform m mem

variable {m m' : MacroId} {mem mem' : Memory} {a : Access}

/-- An access that is made was not waiting. -/
theorem perform_of_apply (h : a.apply m mem = some mem') : a.perform m mem = some mem' := by
  rw [apply] at h
  split at h
  · cases h
  · exact h

/-- A guarded access finds the mutex free. -/
theorem unlocked_of_apply (h : a.apply m mem = some mem') (hg : a.guarded = true) :
    (mem.macros m).locked = false := by
  rw [apply] at h
  split at h
  · cases h
  next hfree => simpa [hg] using hfree

/-- An access of another macro's thread leaves the macro alone. -/
theorem apply_macros_of_ne (h : a.apply m mem = some mem') (hm : m' ≠ m) :
    mem'.macros m' = mem.macros m' := by
  have h := perform_of_apply h
  cases a with
  | block b => exact (Block.frame h).others m' hm
  | removeDispatch => exact (Block.frame (b := .removeDispatch) h).others m' hm
  | _ =>
    obtain rfl := Option.some.inj h
    simp [hm, Memory.copyFrom]

/-- Who writes the interruptor: the plain writes, the guarded store and the assignment of
`copy`. -/
theorem apply_interruptor : a.apply m mem = some mem' →
    (mem'.macros m).interruptor = match a with
      | writeInterruptor val => val
      | storeInterruptor val => (mem.macros m).interruptorAfter val
      | assign other => (mem.macros other).interruptor
      | _ => (mem.macros m).interruptor := by
  intro h
  have h := perform_of_apply h
  cases a with
  | block b => exact (Block.frame h).interruptor
  | removeDispatch => exact (Block.frame (b := .removeDispatch) h).interruptor
  | _ =>
    obtain rfl := Option.some.inj h
    simp [Memory.copyFrom]

/-- Who writes `_threadCount`: `run` at its two ends, and the forced reset. -/
theorem apply_threadCount : a.apply m mem = some mem' →
    (mem'.macros m).threadCount = match a with
      | countThread => (mem.macros m).threadCount + 1
      | uncountThread => uintPred (mem.macros m).threadCount
      | clearCount => 0
      | _ => (mem.macros m).threadCount := by
  intro h
  have h := perform_of_apply h
  cases a with
  | block b => exact (Block.frame h).threadCount
  | removeDispatch => exact (Block.frame (b := .removeDispatch) h).threadCount
  | _ =>
    obtain rfl := Option.some.inj h
    simp [Memory.copyFrom]

/-- Who writes the state of the mutex: those who lock and unlock it in steps of their own. -/
theorem apply_locked : a.apply m mem = some mem' →
    (mem'.macros m).locked = match a with
      | lock => true
      | unlock => false
      | _ => (mem.macros m).locked := by
  intro h
  have h := perform_of_apply h
  cases a with
  | block b => exact (Block.frame h).locked
  | removeDispatch => exact (Block.frame (b := .removeDispatch) h).locked
  | _ =>
    obtain rfl := Option.some.inj h
    simp [Memory.copyFrom]

/-- Who writes `_queued`: the clearing, the two counting accesses, and the store of
`INTERRUPT_ALL`. -/
theorem apply_queued : a.apply m mem = some mem' →
    (mem'.macros m).queued = match a with
      | clearQueued | refuseSlot => 0
      | incQueued => (mem.macros m).queued + 1
      | decQueued => (mem.macros m).queued - 1
      | storeInterruptor val => if val = .interruptAll then 0 else (mem.macros m).queued
      | _ => (mem.macros m).queued := by
  intro h
  have h := perform_of_apply h
  cases a with
  | block b => exact (Block.frame h).queued
  | removeDispatch => exact (Block.frame (b := .removeDispatch) h).queued
  | _ =>
    obtain rfl := Option.some.inj h
    simp [Memory.copyFrom]

/-- Who writes `_threadMax`: its correction, `setThreadMax` and the assignment of `copy`. -/
theorem apply_threadMax : a.apply m mem = some mem' →
    (mem'.macros m).threadMax = match a with
      | clampThreadMax => ((mem.macros m).clampThreadMax mem.threadLimit).threadMax
      | setThreadMax val => val
      | assign other => (mem.macros other).threadMax
      | _ => (mem.macros m).threadMax := by
  intro h
  have h := perform_of_apply h
  cases a with
  | block b => exact (Block.frame h).threadMax
  | removeDispatch => exact (Block.frame (b := .removeDispatch) h).threadMax
  | _ =>
    obtain rfl := Option.some.inj h
    simp [Memory.copyFrom]

/-- Who replaces `_signals`: `setSignals` of a macro without counted runs, and `copy`. -/
theorem apply_signals : a.apply m mem = some mem' →
    (mem'.macros m).signals = match a with
      | block (.setSignals array) =>
        if 0 < (mem.macros m).threadCount then (mem.macros m).signals else array
      | assign other => (mem.macros other).signals
      | _ => (mem.macros m).signals := by
  intro h
  have h := perform_of_apply h
  cases a with
  | block b =>
    cases b with
    | setSignals array =>
      rw [perform, Block.apply] at h
      -- `setSignals` is ignored while the macro is running
      split_ifs at h with hcount
      · rw [← Option.some.inj h]
        exact (if_pos hcount).symm
      · rw [← Option.some.inj h, Memory.modify_macros_self]
        exact (if_neg hcount).symm
    | setActivators | setTriggers =>
      obtain ⟨reg, -, h⟩ := Option.bind_eq_some_iff.mp h
      obtain ⟨reg', -, h⟩ := Option.bind_eq_some_iff.mp h
      rw [← Option.some.inj h]
      simp
    | applyDispatch | removeDispatch | addDispatch | addDispatchTrigger =>
      obtain ⟨reg, -, rfl⟩ := Option.map_eq_some_iff.mp h
      rfl
    | _ =>
      obtain rfl := Option.some.inj h
      simp
  | removeDispatch =>
    obtain ⟨reg, -, rfl⟩ := Option.map_eq_some_iff.mp h
    rfl
  | _ =>
    obtain rfl := Option.some.inj h
    simp [Memory.copyFrom]

/-- **Notifications are counted up**, one for each `notify_all`. -/
theorem apply_notified (h : a.apply m mem = some mem') :
    (mem.macros m).notified ≤ (mem'.macros m).notified ∧
      (a = notify → (mem'.macros m).notified = (mem.macros m).notified + 1) := by
  have h := perform_of_apply h
  cases a with
  | notify =>
    obtain rfl := Option.some.inj h
    simp
  | block b => exact ⟨Nat.le_of_eq (Block.apply_notified_threads h).1.symm, nofun⟩
  | removeDispatch =>
    exact ⟨Nat.le_of_eq (Block.apply_notified_threads (b := .removeDispatch) h).1.symm, nofun⟩
  | storeInterruptor val =>
    obtain rfl := Option.some.inj h
    rw [Memory.modify_macros_self]
    exact ⟨(mem.macros m).notified_le_storeInterruptor val, nofun⟩
  | clampThreadMax =>
    obtain rfl := Option.some.inj h
    obtain ⟨n, hclamp⟩ := (mem.macros m).clampThreadMax_frame mem.threadLimit
    rw [Memory.modify_macros_self, hclamp]
    exact ⟨Nat.le_refl _, nofun⟩
  | _ =>
    obtain rfl := Option.some.inj h
    exact ⟨by simp [Memory.copyFrom], nofun⟩

/-- Who writes `_threads`: the creation of a worker, and the end of `joinAllThreads`. -/
theorem apply_threads : a.apply m mem = some mem' →
    (mem'.macros m).threads = match a with
      | pushThread w => (mem.macros m).threads ++ [w]
      | clearThreads => []
      | _ => (mem.macros m).threads := by
  intro h
  have h := perform_of_apply h
  cases a with
  | block b => exact (Block.apply_notified_threads h).2
  | removeDispatch => exact (Block.apply_notified_threads (b := .removeDispatch) h).2
  | _ =>
    obtain rfl := Option.some.inj h
    simp [Memory.copyFrom]

/-- Who writes `g_activeThreadCount`: `start` takes and gives back a slot, and `run` gives one back
at its end. -/
theorem apply_activeThreadCount : a.apply m mem = some mem' →
    mem'.activeThreadCount = match a with
      | reserveSlot => mem.activeThreadCount + 1
      | releaseSlot => mem.activeThreadCount - 1
      | refuseSlot | abandonSlot => uintPred mem.activeThreadCount
      | _ => mem.activeThreadCount := by
  intro h
  have h := perform_of_apply h
  cases a with
  | block b => exact (Block.frame h).activeThreadCount
  | removeDispatch => exact (Block.frame (b := .removeDispatch) h).activeThreadCount
  | _ =>
    obtain rfl := Option.some.inj h
    simp [Memory.copyFrom]

/-- Who writes `g_threadMax`: `setGlobalThreadLimit` alone. -/
theorem apply_threadLimit : a.apply m mem = some mem' →
    mem'.threadLimit = match a with
      | setThreadLimit val => val
      | _ => mem.threadLimit := by
  intro h
  have h := perform_of_apply h
  cases a with
  | block b => exact (Block.frame h).threadLimit
  | removeDispatch => exact (Block.frame (b := .removeDispatch) h).threadLimit
  | _ =>
    obtain rfl := Option.some.inj h
    simp [Memory.copyFrom]

/-- The configuration of a macro, as far as runs and registrations read it, is the same. -/
structure SameConfig (mac mac' : Macro) : Prop where
  activators : mac'.activators = mac.activators
  triggers : mac'.triggers = mac.triggers
  signals : mac'.signals = mac.signals
  sticky : mac'.sticky = mac.sticky
  applyDispatchFlag : mac'.applyDispatchFlag = mac.applyDispatchFlag
  context : mac'.context = mac.context

/-- A macro has its own configuration, field by field. -/
theorem SameConfig.refl (mac : Macro) : SameConfig mac mac := ⟨rfl, rfl, rfl, rfl, rfl, rfl⟩

/-- Nothing has changed in two steps. -/
theorem SameConfig.trans {mac mac' mac'' : Macro} (h : SameConfig mac mac')
    (h' : SameConfig mac' mac'') : SameConfig mac mac'' :=
  ⟨h'.activators.trans h.activators, h'.triggers.trans h.triggers, h'.signals.trans h.signals,
    h'.sticky.trans h.sticky, h'.applyDispatchFlag.trans h.applyDispatchFlag,
    h'.context.trans h.context⟩

/-- Who changes the configuration of a macro: the accesses that configure, and no other. -/
theorem apply_sameConfig (h : a.apply m mem = some mem') (ha : a.configures = false) :
    SameConfig (mem.macros m) (mem'.macros m) := by
  have h := perform_of_apply h
  cases a with
  | assign | setContext => cases ha
  | removeDispatch =>
    obtain ⟨reg, -, rfl⟩ := Option.map_eq_some_iff.mp h
    exact ⟨rfl, rfl, rfl, rfl, rfl, rfl⟩
  | clampThreadMax =>
    obtain rfl := Option.some.inj h
    obtain ⟨n, hclamp⟩ := (mem.macros m).clampThreadMax_frame mem.threadLimit
    rw [Memory.modify_macros_self, hclamp]
    exact ⟨rfl, rfl, rfl, rfl, rfl, rfl⟩
  | storeInterruptor val =>
    obtain rfl := Option.some.inj h
    obtain ⟨q, n, hmac⟩ := Macro.storeInterruptor_frame val (mem.macros m)
    rw [Memory.modify_macros_self, hmac]
    exact ⟨rfl, rfl, rfl, rfl, rfl, rfl⟩
  | block b =>
    cases b with
    | applyDispatch | removeDispatch | addDispatch | addDispatchTrigger =>
      obtain ⟨reg, -, rfl⟩ := Option.map_eq_some_iff.mp h
      exact ⟨rfl, rfl, rfl, rfl, rfl, rfl⟩
    | addDispatchSignal | addDispatchPair =>
      cases h
      exact ⟨rfl, rfl, rfl, rfl, rfl, rfl⟩
    | _ => cases ha
  | _ =>
    obtain rfl := Option.some.inj h
    constructor <;> simp

/-- No access changes the dispatcher of a signal. -/
theorem apply_dispatcherPtr (h : a.apply m mem = some mem') :
    mem'.dispatcherPtr = mem.dispatcherPtr := by
  have h := perform_of_apply h
  cases a with
  | block b => exact (Block.frame h).dispatcherPtr
  | removeDispatch => exact (Block.frame (b := .removeDispatch) h).dispatcherPtr
  | _ =>
    obtain rfl := Option.some.inj h
    rfl

/-- Who writes the dispatchers: `_removeDispatch` and the guarded blocks. -/
theorem apply_dispatchers (h : a.apply m mem = some mem') (hr : a ≠ .removeDispatch)
    (hb : ∀ b, a ≠ .block b) : mem'.dispatchers = mem.dispatchers := by
  have h := perform_of_apply h
  cases a with
  | block b => exact absurd rfl (hb b)
  | removeDispatch => exact absurd rfl hr
  | _ =>
    obtain rfl := Option.some.inj h
    rfl

end Access

end Libmacro
