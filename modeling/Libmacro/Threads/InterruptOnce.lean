import Libmacro.Threads.DisableKept
import Libmacro.Threads.ThreadLimit

/-! # One interrupt cancels one run

`consumeInterrupt` tests for `INTERRUPT` under the mutex, and writes `CONTINUE` after it has
released it; until then other workers pass the same test. `consumed_at_most_once`: when each
worker that passes the test does so with no other worker before its write, one call of
`setInterruptor(INTERRUPT)` is consumed at most once, and leaves `CONTINUE` behind. -/

namespace Libmacro

open Interleaving

/-- The event is a return of `consumeInterrupt` of macro `m` with `true`. -/
def Event.isConsumed (m : MacroId) : Event → Bool
  | consumed m' _ => m' = m
  | _ => false

/-- The worker has passed the guarded test of `consumeInterrupt`, which has not returned. -/
def RunPc.clearing : RunPc → ℕ
  | consume _ (.set _) => 1
  | _ => 0

/-- The worker has stored `CONTINUE`, and `consumeInterrupt` has not returned. -/
def RunPc.cleared : RunPc → ℕ
  | consume _ (.set p) => if p.overwrites then 0 else 1
  | _ => 0

/-- `setInterruptor(INTERRUPT)` has its store still ahead. -/
def CallPc.interrupting : CallPc → ℕ
  | checkInterruptor _ => 1
  | setInterruptor .interrupt p => if p.overwrites then 1 else 0
  | _ => 0

/-- A worker of macro `m` is clearing an interrupt. -/
abbrev Thread.clearing (m : MacroId) : Thread → ℕ :=
  onMacro m (fun _ => RunPc.clearing) (fun _ => 0) (fun _ => 0)

/-- A worker of macro `m` has cleared an interrupt. -/
abbrev Thread.cleared (m : MacroId) : Thread → ℕ :=
  onMacro m (fun _ => RunPc.cleared) (fun _ => 0) (fun _ => 0)

/-- The thread is a call that has the store of `INTERRUPT` to macro `m` still ahead. -/
abbrev Thread.interrupting (m : MacroId) : Thread → ℕ :=
  onMacro m (fun _ _ => 0) (fun _ => 0) CallPc.interrupting

/-- The calls that do not change the interruptor. -/
def keepsInterruptor : CallKind → Bool
  | .start | .setInterruptor | .copy | .destroy => false
  | _ => true

/-- The call is `setInterruptor(INTERRUPT)`, with its range check or after it. -/
def CallPc.interrupts : CallPc → Bool
  | checkInterruptor val => val = Interrupt.interrupt.code
  | setInterruptor .interrupt _ => true
  | _ => false

/-- A call that does not change the interruptor, or sets it to `INTERRUPT`. -/
def CallPc.leavesInterruptor (pc : CallPc) : Bool :=
  pc.kind.all keepsInterruptor || pc.interrupts

/-- On macro `m` the thread is a worker, an ended reset thread, or a call that does not change the
interruptor or sets it to `INTERRUPT`. -/
def Thread.leavesInterruptor (m : MacroId) : Thread → Bool
  | worker _ _ _ => true
  | reset m' _ pc => m' ≠ m ∨ pc = .finished
  | call m' pc => m' ≠ m ∨ pc.leavesInterruptor

/-- Threads of other macros leave it alone. -/
theorem Thread.leavesInterruptor_of_ne {m : MacroId} {t : Thread} (h : t.macroId ≠ m) :
    t.leavesInterruptor m = true := by
  cases t <;> simp_all [leavesInterruptor]

/-- A worker of macro `m` that finds `INTERRUPT` in the guarded test of `consumeInterrupt` is the
only one: no other has its write of `CONTINUE` ahead. -/
def testsAlone (m : MacroId) (c : Config Memory Thread) : Label Thread Bool → Bool
  | .step i _ =>
    match c.pool[i]? with
    | some (.worker m' _ (.consume _ .retest)) =>
      m' ≠ m ∨ (c.shared.macros m).interruptor ≠ .interrupt ∨ NoneOverwrites m c
    | _ => true
  | .call _ => true

/-- A worker that has cleared the interrupt is one of those that clear it. -/
theorem RunPc.cleared_le_clearing (p : RunPc) : p.cleared ≤ p.clearing := by
  unfold cleared
  split
  next inLoop p =>
    show _ ≤ 1
    split_ifs <;> omega
  next => exact Nat.zero_le _

/-- A worker that clears, and has nothing to overwrite any more, has cleared. -/
theorem RunPc.clearing_le_cleared {p : RunPc} (h : p.overwrites = false) :
    p.clearing ≤ p.cleared := by
  unfold clearing
  split
  next inLoop p =>
    have hp : p.overwrites = false := h
    simp [cleared, hp]
  next => exact Nat.zero_le _

section Edges

variable {mem : Memory} {m : MacroId} {i : ThreadId} {a : Access} {pool : List Thread}

/-- **What a worker does to an interrupt**: it passes the guarded test, stores `CONTINUE`, or
returns; any other step leaves it as it is. -/
theorem RunPc.Step.clearing_cases {p p' : RunPc} {ev : List Event} (h : p.Step mem m i a p' ev) :
    (a.writesInterruptor = false ∧ ev.countP (Event.isConsumed m) = 0 ∧
        p'.clearing = p.clearing ∧ p'.cleared = p.cleared) ∨
      ((∃ inLoop, p = .consume inLoop .retest) ∧ (mem.macros m).interruptor = .interrupt ∧
        a = .peek ∧ ev = [] ∧ p'.clearing = 1 ∧ p'.cleared = 0) ∨
      (a = .storeInterruptor .continue ∧ p.clearing = 1 ∧
        ev.countP (Event.isConsumed m) + p'.clearing = 1) ∨
      (a.writesInterruptor = false ∧ p.clearing = 1 ∧ ev.countP (Event.isConsumed m) = 1 ∧
        p'.clearing = 0 ∧ p'.cleared = 0 ∧
        ((mem.macros m).interruptor = .continue ∨ p.cleared = 1)) := by
  cases h with
  -- the second test finds `INTERRUPT`, and the worker begins to write `CONTINUE`
  | interrupted h => exact .inr (.inl ⟨⟨_, rfl⟩, h, rfl, rfl, rfl, rfl⟩)
  | consumeSet h =>
    cases h with
    | storeApply | storeReset => exact .inr (.inr (.inl ⟨rfl, rfl, rfl⟩))
    | _ => exact .inl ⟨rfl, rfl, rfl, rfl⟩
  | consumed h =>
    cases h with
    -- another worker has written `CONTINUE` already
    | same h =>
      exact .inr (.inr (.inr ⟨rfl, rfl, by simp [Event.isConsumed], rfl, rfl, .inl h.symm⟩))
    | storeDone => exact .inr (.inr (.inl ⟨rfl, rfl, by simp [Event.isConsumed, clearing]⟩))
    | applyDone =>
      exact .inr (.inr (.inr ⟨rfl, rfl, by simp [Event.isConsumed], rfl, rfl, .inr rfl⟩))
  | @notInterrupted inLoop p a h hp =>
    rcases hp with ⟨rfl, rfl⟩ | ⟨rfl, rfl⟩ <;> cases inLoop <;> exact .inl ⟨rfl, rfl, rfl, rfl⟩
  | limit h | limited h => exact .inl ⟨h.writes, rfl, rfl, rfl⟩
  | pauseWait h | pauseOver h => exact .inl ⟨h.writes, rfl, rfl, rfl⟩
  | _ => exact .inl ⟨rfl, rfl, rfl, rfl⟩

/-- **What a call does to an interrupt**, when it does not change the interruptor or sets it to
`INTERRUPT`: it stores `INTERRUPT` once, and does nothing else to it. -/
theorem CallPc.Step.interrupting_cases {p p' : CallPc} {ts : List Thread} {ev : List Event}
    (h : p.Step mem pool m i a p' ts ev) (hp : p.leavesInterruptor = true) :
    p'.leavesInterruptor = true ∧ ts = [] ∧
      (a.writesInterruptor = false ∧ p'.interrupting ≤ p.interrupting ∨
        a = .storeInterruptor .interrupt ∧ p.interrupting = 1 ∧ p'.interrupting = 0) := by
  cases h with
  | start | started | copy | copied | destroy | destroyed => cases hp
  | @inRange val v h =>
    -- the only value that the call may set is `INTERRUPT`
    have hval : val = Interrupt.interrupt.code := by
      simpa [leavesInterruptor, CallPc.kind, keepsInterruptor, interrupts] using hp
    rw [hval, Interrupt.ofCode?_code] at h
    obtain rfl := Option.some.inj h
    exact ⟨rfl, rfl, .inl ⟨rfl, Nat.le_refl 1⟩⟩
  | @setInterruptor val _ _ _ _ _ h =>
    obtain rfl : val = .interrupt := by cases val <;> first | rfl | cases hp
    cases h with
    | storeApply => exact ⟨rfl, rfl, .inr ⟨rfl, rfl, rfl⟩⟩
    | storeReset h hs => simp at hs
    | _ => exact ⟨rfl, rfl, .inl ⟨rfl, Nat.le_refl _⟩⟩
  | @setDone val _ _ _ _ h =>
    obtain rfl : val = .interrupt := by cases val <;> first | rfl | cases hp
    cases h with
    | storeDone => exact ⟨rfl, rfl, .inr ⟨rfl, rfl, rfl⟩⟩
    | @spawnReset hr | @spawnFails hr => cases hr
    | _ => exact ⟨rfl, rfl, .inl ⟨rfl, Nat.zero_le _⟩⟩
  | limit h | limited h => exact ⟨rfl, rfl, .inl ⟨h.writes, Nat.le_refl _⟩⟩
  | _ => exact ⟨rfl, rfl, .inl ⟨rfl, Nat.zero_le _⟩⟩

end Edges

/-- **The interrupt is in one place**: with the call that sets it, in the interruptor, with the
worker that clears it, or consumed. -/
structure OneInterrupt (m : MacroId) (tr : List Event) (c : Config Memory Thread) : Prop where
  /-- Nobody else is there to write the interruptor. -/
  quiet : ∀ t ∈ c.pool, t.leavesInterruptor m = true
  /-- It is set, being cleared or consumed at most once. -/
  once : tr.countP (Event.isConsumed m) + weight (Thread.clearing m) c.pool +
    weight (Thread.interrupting m) c.pool ≤ 1
  /-- While it stands, it is not consumed, and not to be set again. -/
  fresh : (c.shared.macros m).interruptor = .interrupt →
    tr.countP (Event.isConsumed m) + weight (Thread.interrupting m) c.pool = 0
  /-- Once it is cleared, the interruptor is `CONTINUE`. -/
  spent : 0 < tr.countP (Event.isConsumed m) + weight (Thread.cleared m) c.pool →
    (c.shared.macros m).interruptor = .continue

section Run

variable {m : MacroId} {tr : List Event} {c : Config Memory Thread} {i : ThreadId} {k : Bool}
  {t : Thread} {e : Effect Memory Thread Event}

/-- So no more workers have cleared the interrupt than clear it. -/
theorem cleared_le_clearing (m : MacroId) (c : Config Memory Thread) :
    weight (Thread.cleared m) c.pool ≤ weight (Thread.clearing m) c.pool := by
  refine weight_le_weight fun t _ => ?_
  cases t with
  | worker m' o pc =>
    simp only [Thread.onMacro]
    split_ifs
    · exact pc.cleared_le_clearing
    · exact Nat.le_refl 0
  | _ => simp [Thread.onMacro]

/-- Where nobody overwrites, who clears has cleared. -/
theorem clearing_le_cleared (h : NoneOverwrites m c) :
    weight (Thread.clearing m) c.pool ≤ weight (Thread.cleared m) c.pool := by
  refine weight_le_weight fun t ht => ?_
  have hover := h t ht
  cases t with
  | worker m' o pc =>
    simp only [Thread.onMacro]
    split_ifs with hm
    · exact pc.clearing_le_cleared (by simpa [Thread.overwrites, hm] using hover)
    · exact Nat.le_refl 0
  | _ => simp [Thread.onMacro]

/-- **What leaves the interruptor and consumes nothing** keeps the interrupt in one place, as long
as nobody new is clearing or setting it. -/
theorem OneInterrupt.mono {ev : List Event} {c' : Config Memory Thread}
    (hinv : OneInterrupt m tr c) (hquiet : ∀ t ∈ c'.pool, t.leavesInterruptor m = true)
    (hkeep : (c'.shared.macros m).interruptor = (c.shared.macros m).interruptor)
    (hev : ev.countP (Event.isConsumed m) = 0)
    (hclearing : weight (Thread.clearing m) c'.pool ≤ weight (Thread.clearing m) c.pool)
    (hcleared : weight (Thread.cleared m) c'.pool ≤ weight (Thread.cleared m) c.pool)
    (hinterrupting : weight (Thread.interrupting m) c'.pool ≤
      weight (Thread.interrupting m) c.pool) :
    OneInterrupt m (tr ++ ev) c' := by
  obtain ⟨-, honce, hfresh, hspent⟩ := hinv
  refine ⟨hquiet, ?_, ?_, ?_⟩ <;> rw [List.countP_append, hev]
  · omega
  · intro hi
    have := hfresh (hkeep ▸ hi)
    omega
  · intro hpos
    rw [hkeep]
    exact hspent (by omega)

/-- A step of another macro's thread keeps the interrupt where it is. -/
theorem oneInterrupt_step_of_ne (hinv : OneInterrupt m tr c) (hm : t.macroId ≠ m)
    (ht : c.pool[i]? = some t) (he : program.move c i k t = some e) :
    OneInterrupt m (tr ++ e.events) ⟨e.shared, c.pool.set i e.next ++ e.spawned⟩ := by
  obtain ⟨a, hs, -⟩ := step_of_program_move he
  obtain ⟨hnext, hspawned⟩ := macroId_of_ne he hm
  have hevents : e.events.countP (Event.isConsumed m) = 0 :=
    hs.countP_events_of_ne (fun ev hev => by
      cases ev <;> simp_all [Event.isConsumed, Event.macroId?]) hm
  have hquiet : ∀ u ∈ c.pool.set i e.next ++ e.spawned, u.leavesInterruptor m = true :=
    forall_mem_set_append hinv.quiet (Thread.leavesInterruptor_of_ne hnext) fun u hu =>
      Thread.leavesInterruptor_of_ne (hspawned u hu)
  exact hinv.mono hquiet (congrArg Macro.interruptor (macros_of_ne he hm)) hevents
    (weight_onMacro_of_ne ht he hm).le (weight_onMacro_of_ne ht he hm).le
    (weight_onMacro_of_ne ht he hm).le

/-- **A worker's step** keeps the interrupt in one place. -/
theorem oneInterrupt_step_worker {o : Option ThreadId} {p p' : RunPc} {a : Access}
    {ev : List Event} {mem' : Memory} (hinv : OneInterrupt m tr c)
    (halone : testsAlone m c (.step i k) = true) (ht : c.pool[i]? = some (.worker m o p))
    (h : p.Step c.shared m i a p' ev) (ha : a.apply m c.shared = some mem') :
    OneInterrupt m (tr ++ ev) ⟨mem', c.pool.set i (.worker m o p') ++ []⟩ := by
  have hclearing := weight_set_append (Thread.clearing m) (.worker m o p') [] ht
  have hcleared := weight_set_append (Thread.cleared m) (.worker m o p') [] ht
  have hinterrupting := weight_set_append (Thread.interrupting m) (.worker m o p') [] ht
  simp only [Thread.onMacro_worker, weight_nil, Nat.add_zero] at hclearing hcleared hinterrupting
  have hle := cleared_le_clearing m c
  have hall : ∀ u ∈ c.pool.set i (.worker m o p') ++ [], u.leavesInterruptor m = true :=
    forall_mem_set_append hinv.quiet rfl (by simp)
  have honce := hinv.once
  have hfresh := hinv.fresh
  have hspent := hinv.spent
  rcases h.clearing_cases with ⟨hw, hev, hp, hp'⟩ | ⟨⟨_, rfl⟩, hi, rfl, rfl, hp, hp'⟩ |
    ⟨rfl, hp, hev⟩ | ⟨hw, hp, hev, hp', hp'', hi⟩
  · -- any other step
    refine hinv.mono hall (Access.interruptor_eq ha hw) hev ?_ ?_ ?_ <;> dsimp only <;> omega
  · -- the guarded test: nothing is consumed while `INTERRUPT` stands, and no one else clears
    have hkeep : (mem'.macros m).interruptor = _ := Access.interruptor_eq ha rfl
    have hnone : NoneOverwrites m c := by simpa [testsAlone, ht, hi] using halone
    have hnothing : ¬ 0 < tr.countP (Event.isConsumed m) + weight (Thread.cleared m) c.pool :=
      fun hpos => by simp [hspent hpos] at hi
    have hclear := clearing_le_cleared hnone
    have hzero := hfresh hi
    refine ⟨hall, ?_, ?_, ?_⟩ <;> simp only [List.countP_append, List.countP_nil, hkeep]
    · omega
    · intro
      omega
    · intro hpos
      omega
  · -- the store of `CONTINUE`
    have hval : (mem'.macros m).interruptor = .continue := by
      simpa [Macro.interruptorAfter] using Access.apply_interruptor ha
    refine ⟨hall, ?_, ?_, ?_⟩ <;> simp only [List.countP_append, hval]
    · omega
    · intro hi
      exact absurd hi (by decide)
    · exact fun _ => trivial
  · -- the return: `CONTINUE` stands, found by the comparison or stored before
    have hkeep : (mem'.macros m).interruptor = _ := Access.interruptor_eq ha hw
    have hval : (c.shared.macros m).interruptor = .continue := by
      rcases hi with hi | hi
      · exact hi
      · have := le_weight (Thread.cleared m) (List.mem_of_getElem? ht)
        simp only [Thread.onMacro_worker] at this
        exact hspent (by omega)
    refine ⟨hall, ?_, ?_, ?_⟩ <;> simp only [List.countP_append, hkeep, hval]
    · omega
    · intro hi
      exact absurd hi (by decide)
    · exact fun _ => trivial

/-- **A call's step** keeps the interrupt in one place. -/
theorem oneInterrupt_step_call {p p' : CallPc} {a : Access} {ts : List Thread} {ev : List Event}
    {mem' : Memory} (hinv : OneInterrupt m tr c) (ht : c.pool[i]? = some (.call m p))
    (h : p.Step c.shared c.pool m i a p' ts ev) (hev : ev.countP (Event.isConsumed m) = 0)
    (ha : a.apply m c.shared = some mem') :
    OneInterrupt m (tr ++ ev) ⟨mem', c.pool.set i (.call m p') ++ ts⟩ := by
  have hp : p.leavesInterruptor = true := by
    simpa [Thread.leavesInterruptor] using hinv.quiet _ (List.mem_of_getElem? ht)
  obtain ⟨hp', rfl, hcases⟩ := h.interrupting_cases hp
  have hclearing := weight_set_append (Thread.clearing m) (.call m p') [] ht
  have hcleared := weight_set_append (Thread.cleared m) (.call m p') [] ht
  have hinterrupting := weight_set_append (Thread.interrupting m) (.call m p') [] ht
  simp only [Thread.onMacro_call, weight_nil, Nat.add_zero] at hclearing hcleared hinterrupting
  have hle := cleared_le_clearing m c
  have hall : ∀ u ∈ c.pool.set i (.call m p') ++ [], u.leavesInterruptor m = true :=
    forall_mem_set_append hinv.quiet (by simp [Thread.leavesInterruptor, hp']) (by simp)
  have honce := hinv.once
  have hfresh := hinv.fresh
  have hspent := hinv.spent
  rcases hcases with ⟨hw, hp''⟩ | ⟨rfl, hp, hp''⟩
  · -- any other step
    refine hinv.mono hall (Access.interruptor_eq ha hw) hev ?_ ?_ ?_ <;> dsimp only <;> omega
  · -- the store of `INTERRUPT`: it was still ahead, so nothing was consumed before
    have hmem := le_weight (Thread.interrupting m) (List.mem_of_getElem? ht)
    simp only [Thread.onMacro_call] at hmem
    refine ⟨hall, ?_, ?_, ?_⟩ <;> simp only [List.countP_append]
    · omega
    · intro
      omega
    · intro hpos
      omega

/-- **One step** keeps the interrupt in one place. -/
theorem oneInterrupt_step (hinv : OneInterrupt m tr c) (halone : testsAlone m c (.step i k) = true)
    (ht : c.pool[i]? = some t) (he : program.move c i k t = some e) :
    OneInterrupt m (tr ++ e.events) ⟨e.shared, c.pool.set i e.next ++ e.spawned⟩ := by
  by_cases hm : t.macroId = m
  · obtain ⟨a, hs, ha⟩ := step_of_program_move he
    have hquiet := hinv.quiet t (List.mem_of_getElem? ht)
    have hconsumed : t.isWorker = false → e.events.countP (Event.isConsumed m) = 0 :=
      hs.countP_events_of_not_worker fun ev hev => by cases ev <;> first | rfl | cases hev
    subst hm
    generalize e.next = u, e.spawned = ts, e.events = ev at hs hconsumed ⊢
    cases hs with
    | worker h => exact oneInterrupt_step_worker hinv halone ht h ha
    | reset h =>
      -- the reset threads there are have ended
      have hended := hquiet
      simp only [Thread.leavesInterruptor, Thread.macroId, ne_eq, not_true, false_or,
        decide_eq_true_eq] at hended
      subst hended
      cases h
    | call h => exact oneInterrupt_step_call hinv ht h (hconsumed rfl) ha
  · exact oneInterrupt_step_of_ne hinv hm ht he

end Run

/-- Before the call: macro `m` is not interrupted, no worker is clearing an interrupt, and no
other thread is about to change the interruptor. -/
def NotInterrupted (m : MacroId) (c : Config Memory Thread) : Prop :=
  (c.shared.macros m).interruptor ≠ .interrupt ∧
    ∀ t ∈ c.pool, t.leavesInterruptor m = true ∧ t.clearing m = 0 ∧ t.interrupting m = 0

/-- The condition is about the interruptor and where each thread of the pool stands. -/
instance (m : MacroId) (c : Config Memory Thread) : Decidable (NotInterrupted m c) :=
  inferInstanceAs (Decidable (_ ∧ ∀ t ∈ c.pool, _))

/-- A client's call of `setInterruptor(INTERRUPT)` on macro `m` has just been made. -/
def callInterrupt (m : MacroId) (c : Config Memory Thread) : Config Memory Thread :=
  ⟨c.shared, c.pool ++ [.call m (.checkInterruptor Interrupt.interrupt.code)]⟩

/-- The call puts the interrupt in one place. -/
theorem oneInterrupt_call {m : MacroId} {c : Config Memory Thread} (h : NotInterrupted m c) :
    OneInterrupt m [] (callInterrupt m c) := by
  obtain ⟨hi, hpool⟩ := h
  have hclearing : weight (Thread.clearing m) c.pool = 0 :=
    weight_eq_zero_iff.mpr fun t ht => (hpool t ht).2.1
  have hinterrupting : weight (Thread.interrupting m) c.pool = 0 :=
    weight_eq_zero_iff.mpr fun t ht => (hpool t ht).2.2
  have hcleared := cleared_le_clearing m c
  constructor
  · refine forall_mem_concat (fun t ht => (hpool t ht).1) ?_
    simp [Thread.leavesInterruptor, CallPc.leavesInterruptor, CallPc.interrupts]
  · simp [callInterrupt, hclearing, hinterrupting, CallPc.interrupting]
  · exact fun hinterrupt => absurd hinterrupt hi
  · intro hpos
    simp only [callInterrupt, weight_append, weight_cons, weight_nil, Thread.onMacro_call,
      List.countP_nil] at hpos
    omega

/-- A new thread, unless its call changes the interruptor, has nothing to do with the interrupt. -/
theorem entry_leavesInterruptor {m : MacroId} {t : Thread} {ev : List Event}
    (honly : onlyCalls m keepsInterruptor true (.call t) = true) (he : t.entry = some ev) :
    t.leavesInterruptor m = true ∧ t.clearing m = 0 ∧ t.cleared m = 0 ∧ t.interrupting m = 0 ∧
      ev.countP (Event.isConsumed m) = 0 := by
  rcases Thread.entry_cases he with ⟨m', rfl, rfl⟩ | ⟨m', rfl, rfl⟩ | ⟨m', pc, rfl, rfl, hpc⟩
  · refine ⟨rfl, ?_, ?_, ?_, rfl⟩ <;> simp [Thread.onMacro, RunPc.clearing, RunPc.cleared]
  · have hm : m' ≠ m := by
      simpa [onlyCalls, Thread.only, CallPc.kind, keepsInterruptor] using honly
    simp [Thread.leavesInterruptor, Thread.onMacro, hm, Event.isConsumed]
  · by_cases hm : m' = m
    · have hkind : pc.kind.all keepsInterruptor = true := by
        simpa [onlyCalls, Thread.only, hm] using honly
      have hzero : pc.interrupting = 0 := by
        cases hpc <;> first | rfl | cases hkind
      simp [Thread.leavesInterruptor, CallPc.leavesInterruptor, Thread.onMacro, hkind, hzero]
    · simp [Thread.leavesInterruptor, Thread.onMacro, hm]

/-- **One interrupt is consumed at most once**, when each worker that passes the guarded test does
so alone: at most one `consumeInterrupt` returns `true` for one call of
`setInterruptor(INTERRUPT)`, and the interruptor is `CONTINUE` from then on. -/
theorem consumed_at_most_once {m : MacroId} {c c' : Config Memory Thread} {tr : List Event}
    (hbefore : NotInterrupted m c)
    (h : program.Run (fun c l => onlyCalls m keepsInterruptor true l ∧ testsAlone m c l)
      (callInterrupt m c) tr c') :
    tr.countP (Event.isConsumed m) ≤ 1 ∧
      (0 < tr.countP (Event.isConsumed m) → (c'.shared.macros m).interruptor = .continue) := by
  have hinv : OneInterrupt m tr c' := by
    refine Machine.Run.invariant (oneInterrupt_call hbefore) ?_ ?_ h
    · -- a new thread neither clears nor sets the interrupt
      rintro tr c t ev hinv ⟨honly, -⟩ he
      obtain ⟨hnew, hclearing, hcleared, hinterrupting, hev⟩ := entry_leavesInterruptor honly he
      refine hinv.mono (forall_mem_concat hinv.quiet hnew) rfl hev ?_ ?_ ?_ <;>
        simp [weight_append, hclearing, hcleared, hinterrupting]
    · rintro tr c i k t e hinv ⟨-, halone⟩ ht he
      exact oneInterrupt_step hinv halone ht he
  have honce := hinv.once
  exact ⟨by omega, fun hpos => hinv.spent (by omega)⟩

/-- Two workers run when the interrupt is set, and both see it in their first test. Worker 1 passes
the guarded test and writes `CONTINUE`; worker 3, which takes the guarded test after that, finds
nothing to consume and makes its pass. -/
theorem consumed_at_most_once_worker : ∃ tr₀ c c' tr,
    program.Run (fun _ _ => True)
      (initial (.ofMacro { interruptor := .continue, threadMax := 2, signals := [some 0] })) tr₀ c ∧
      c.pool.countP Thread.isWorker = 2 ∧
      program.Run (fun c l => onlyCalls 0 keepsInterruptor true l ∧ testsAlone 0 c l)
        (callInterrupt 0 c) tr c' ∧
      tr.filter (Event.isConsumed 0) = [.consumed 0 1] ∧ (.pass 0 3) ∈ tr ∧
      (c'.shared.macros 0).interruptor = .continue := by
  obtain ⟨tr₀, c, ev, c₁, tr, c', h, hstep, h', hp⟩ := Machine.Run.exists_of_exec_step
    (fun _ _ => true) (fun c l => onlyCalls 0 keepsInterruptor true l && testsAlone 0 c l)
    (initial (.ofMacro { interruptor := .continue, threadMax := 2, signals := [some 0] }))
    (startTwice 12 ++ [.step 1 true, .step 3 true])
    (.call (.call 0 (.checkInterruptor Interrupt.interrupt.code)))
    (List.replicate 4 (.step 4 true) ++ [.step 1 true, .step 3 true] ++
      List.replicate 4 (.step 1 true) ++ List.replicate 11 (.step 3 true))
    (M := program) (P := fun c tr c' => (NotInterrupted 0 c ∧
      c.pool.countP Thread.isWorker = 2) ∧
      tr.filter (Event.isConsumed 0) = [.consumed 0 1] ∧ (.pass 0 3) ∈ tr)
    (by decide +kernel)
  obtain ⟨⟨hbefore, htwo⟩, hone, hpass⟩ := of_decide_eq_true hp
  obtain ⟨-, rfl⟩ := Machine.step_call_iff.mp hstep
  have hrun := h'.and_of_bool
  -- one event of the trace is enough for the second part
  have hpos : 0 < tr.countP (Event.isConsumed 0) := by
    rw [List.countP_eq_length_filter, hone]
    exact Nat.one_pos
  exact ⟨tr₀, c, c', tr, h.weaken, htwo, hrun, hone, hpass,
    (consumed_at_most_once hbefore hrun).2 hpos⟩

/-- **One interrupt that cancels two runs**: both workers pass the guarded test before worker 1
writes `CONTINUE`. -/
theorem not_consumed_at_most_once_two : ¬ ∀ mem tr₀ c tr c',
    program.Run (fun _ _ => True) (initial mem) tr₀ c → NotInterrupted 0 c →
    program.Run (fun _ l => onlyCalls 0 keepsInterruptor false l) (callInterrupt 0 c) tr c' →
    tr.countP (Event.isConsumed 0) ≤ 1 := by
  intro hall
  obtain ⟨tr₀, c, ev, c₁, tr, c', h, hstep, h', hp⟩ := Machine.Run.exists_of_exec_step
    (fun _ _ => true) (fun _ l => onlyCalls 0 keepsInterruptor false l)
    (initial (.ofMacro { interruptor := .continue, threadMax := 2, signals := [some 0] }))
    (startTwice 12 ++ [.step 1 true, .step 3 true])
    (.call (.call 0 (.checkInterruptor Interrupt.interrupt.code)))
    (List.replicate 4 (.step 4 true) ++ List.replicate 2 (.step 1 true) ++
      List.replicate 2 (.step 3 true) ++ List.replicate 3 (.step 1 true) ++
      List.replicate 2 (.step 3 true))
    (M := program) (P := fun c tr c' => NotInterrupted 0 c ∧ tr.countP (Event.isConsumed 0) = 2)
    (by decide +kernel)
  obtain ⟨hbefore, htwo⟩ := of_decide_eq_true hp
  obtain ⟨-, rfl⟩ := Machine.step_call_iff.mp hstep
  have hle := hall _ tr₀ c tr c' h.weaken hbefore h'
  omega

end Libmacro
