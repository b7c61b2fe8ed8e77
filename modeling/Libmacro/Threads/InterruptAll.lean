import Libmacro.Threads.Counters
import Libmacro.Threads.DisableKept

/-! # What an interrupt of all threads cancels

`setInterruptor(INTERRUPT_ALL)` goes back to `CONTINUE` when `_threadCount` is 0, at once or in a
reset thread. A worker that has been spawned and has not counted itself yet is not seen by that
test. `interruptAll_cancels`: when there is none at the moment `INTERRUPT_ALL` is stored, no worker
spawned before it begins a pass once the interruptor has gone back to `CONTINUE`. -/

namespace Libmacro

open Interleaving

/-- A worker that is spawned and has not raised `_threadCount`. -/
def Thread.spawnedUncounted (m : MacroId) : Thread → Bool
  | worker m' (some _) .count => m' = m
  | _ => false

/-- The store of a client's `setInterruptor(INTERRUPT_ALL)` on macro `m` is made while every worker
spawned for it has counted itself. -/
def interruptsCounted (m : MacroId) (c : Config Memory Thread) : Label Thread Bool → Bool
  | .step i _ =>
    match c.pool[i]? with
    | some (.call m' (.setInterruptor .interruptAll (.store _))) =>
      m' ≠ m ∨ ∀ t ∈ c.pool, t.spawnedUncounted m = false
    | _ => true
  | .call _ => true

/-- `run` has executed its decrement of `_threadCount`, and sends nothing any more. -/
def RunPc.left : RunPc → Bool
  | release | notifyDone | finished => true
  | _ => false

/-- A reset thread has found `_threadCount` at 0, and goes on to set `CONTINUE`. -/
def ResetPc.foundZero : ResetPc → Bool
  | clear _ .joinAll | clear _ (.join _) | prevTest _ | set _ | finished => true
  | _ => false

/-- Thread `w` is a spawned worker of macro `m` at a point with property `P`. -/
def WorkerAt (m : MacroId) (w : ThreadId) (P : RunPc → Prop) (c : Config Memory Thread) : Prop :=
  ∃ o pc, c.pool[w]? = some (.worker m (some o) pc) ∧ P pc

section Edges

variable {mac : Macro} {mem : Memory} {m : MacroId} {i : ThreadId} {a : Access}
  {pool : List Thread}

/-- A worker counts itself once: no step leads back to the count. -/
theorem RunPc.Step.ne_count {p p' : RunPc} {ev : List Event} (h : p.Step mem m i a p' ev) :
    p' ≠ .count := by
  cases h with
  | @notInterrupted inLoop => cases inLoop <;> nofun
  | _ => nofun

/-- A worker that has left does not come back. -/
theorem RunPc.Step.left {p p' : RunPc} {ev : List Event} (h : p.Step mem m i a p' ev)
    (hp : p.left = true) : p'.left = true := by
  cases h <;> first | rfl | cases hp

/-- A worker that is neither still to be counted nor counted has left. -/
theorem RunPc.left_of_counted {p : RunPc} (hne : p ≠ .count) (h : p.counted = 0) :
    p.left = true := by
  cases p <;> first | rfl | exact absurd rfl hne | cases h

/-- A reset thread gets past its wait with `_threadCount` at 0. -/
theorem ResetPc.Step.foundZero {origin : ThreadId} {p p' : ResetPc} {ev : List Event}
    (h : p.Step pool mac m i origin a p' ev) (hp : p'.foundZero = true) :
    p.foundZero = true ∨ mac.threadCount = 0 := by
  cases h with
  | notRunning h => exact .inr (by simpa [Macro.running] using h)
  | clear h =>
    cases h with
    | waited h =>
      cases h with
      | holds h => exact .inr (by simpa [Macro.running] using h)
    | joinAll | join => exact .inl rfl
    | @cleared hs => cases hs
    | _ => cases hp
  | cleared h =>
    cases h
    exact .inl rfl
  | restore | keep | set | setDone => exact .inl rfl
  | _ => cases hp

end Edges

/-! ## Who emits the four events -/

namespace Thread.Emits

variable {c : Config Memory Thread} {m : MacroId} {i w n : ThreadId} {t : Thread}
  {ev : List Event}

/-- A spawn is that of the thread that comes next in the pool. -/
theorem of_spawn (h : t.Emits c i ev) (hev : .spawn m w ∈ ev) :
    t = .call m (.start .spawn) ∧ w = c.pool.length := by
  cases h with
  | spawn =>
    cases List.mem_singleton.mp hev
    exact ⟨rfl, rfl⟩
  | interruptAll => split_ifs at hev <;> simp at hev
  | _ => simp at hev

/-- `INTERRUPT_ALL` is stored by the call it is the event of. -/
theorem of_interruptAll (h : t.Emits c i ev) (hev : .interruptAll m n ∈ ev) : i = n ∧
    (∃ prev, t = .call m (.setInterruptor .interruptAll (.store prev))) ∧ .spawn m w ∉ ev := by
  cases h with
  | interruptAll =>
    split_ifs at hev ⊢ <;> simp at hev <;> obtain ⟨rfl, rfl⟩ := hev <;>
      exact ⟨rfl, ⟨_, rfl⟩, by simp⟩
  | _ => simp at hev

/-- The interrupt is over at its store, when nothing is running, or in its reset thread. -/
theorem of_resumed (h : t.Emits c i ev) (hev : .resumed m n ∈ ev) :
    (.interruptAll m n ∈ ev ∧ (c.shared.macros m).threadCount = 0) ∨
      (∃ p, t = .reset m n (.set p)) ∧ .interruptAll m n ∉ ev := by
  cases h with
  | interruptAll =>
    split_ifs at hev with hr
    · simp at hev
    · simp at hev
      obtain ⟨rfl, rfl⟩ := hev
      exact .inl ⟨by simp, by simpa using hr⟩
  | resumed =>
    cases List.mem_singleton.mp hev
    exact .inr ⟨⟨_, rfl⟩, by simp⟩
  | _ => simp at hev

/-- A pass is begun by its worker. -/
theorem of_pass (h : t.Emits c i ev) (hev : .pass m w ∈ ev) :
    i = w ∧ (∃ o, t = .worker m o .dispatchSignals) ∧ .resumed m n ∉ ev := by
  cases h with
  | pass =>
    cases List.mem_singleton.mp hev
    exact ⟨rfl, ⟨_, rfl⟩, by simp⟩
  | interruptAll => split_ifs at hev <;> simp at hev
  | _ => simp at hev

end Thread.Emits

section Run

variable {m : MacroId} {w n : ThreadId} {tr : List Event} {c : Config Memory Thread} {i : ThreadId}
  {k : Bool} {t : Thread} {e : Effect Memory Thread Event} {P Q : RunPc → Prop}

/-- A property that a worker does not lose holds of it after every step. -/
theorem workerAt_step (hP : ∀ {p p' : RunPc} {a : Access} {ev : List Event},
      p.Step c.shared m w a p' ev → P p → P p')
    (h : WorkerAt m w P c) (ht : c.pool[i]? = some t) (he : program.move c i k t = some e) :
    WorkerAt m w P ⟨e.shared, c.pool.set i e.next ++ e.spawned⟩ := by
  obtain ⟨o, pc, hw, hpc⟩ := h
  have hpool := getElem?_set_append e.next e.spawned ht hw
  by_cases hwi : w = i
  · subst hwi
    obtain rfl := Option.some.inj (ht.symm.trans hw)
    obtain ⟨a, hs, -⟩ := step_of_program_move he
    rw [if_pos rfl] at hpool
    generalize e.next = u, e.spawned = ts, e.events = ev at hs hpool ⊢
    cases hs with
    | worker h => exact ⟨o, _, hpool, hP h hpc⟩
  · rw [if_neg hwi] at hpool
    exact ⟨o, pc, hpool, hpc⟩

/-- A counted macro without threads: a worker that has counted itself has left. -/
theorem workerAt_left (hcount : (c.shared.macros m).threadCount = weight (Thread.counted m) c.pool)
    (hzero : (c.shared.macros m).threadCount = 0) (h : WorkerAt m w (· ≠ .count) c) :
    WorkerAt m w (·.left = true) c := by
  obtain ⟨o, pc, hw, hne⟩ := h
  refine ⟨o, pc, hw, RunPc.left_of_counted hne ?_⟩
  rw [hzero] at hcount
  simpa using weight_eq_zero_iff.mp hcount.symm _ (List.mem_of_getElem? hw)

/-- **What `INTERRUPT_ALL` of call `n` has done to worker `w`**, as far as the trace has come. -/
structure InterruptsAll (m : MacroId) (w n : ThreadId) (tr : List Event)
    (c : Config Memory Thread) : Prop where
  /-- A spawned worker is there. -/
  spawned : .spawn m w ∈ tr → WorkerAt m w (fun _ => True) c
  /-- One that was spawned before the interrupt has counted itself. -/
  counted : [.spawn m w, .interruptAll m n].Sublist tr → WorkerAt m w (· ≠ .count) c
  /-- It has left when a reset thread of the interrupt has found nothing running. -/
  cleared : [.spawn m w, .interruptAll m n].Sublist tr → ∀ pc, .reset m n pc ∈ c.pool →
    pc.foundZero = true → WorkerAt m w (·.left = true) c
  /-- The call has returned when there is a reset thread. -/
  returned : ∀ pc, .reset m n pc ∈ c.pool → c.pool[n]? = some (.call m .returned)
  /-- The worker has left when the interrupt is over. -/
  resumed : [.spawn m w, .interruptAll m n, .resumed m n].Sublist tr →
    WorkerAt m w (·.left = true) c

/-- What a step emits, and what its thread may emit. -/
theorem emits_of_mem {ev : Event} (he : program.move c i k t = some e) (hev : ev ∈ e.events) :
    t.Emits c i e.events := by
  obtain ⟨a, hs, -⟩ := step_of_program_move he
  rcases hs.emits with hnone | hemits
  · simp only at hnone
    rw [hnone] at hev
    cases hev
  · exact hemits

/-- A step spawns the worker it says it spawns. -/
theorem spawned_step (hinv : .spawn m w ∈ tr → WorkerAt m w (fun _ => True) c)
    (ht : c.pool[i]? = some t) (he : program.move c i k t = some e)
    (h : .spawn m w ∈ tr ++ e.events) :
    WorkerAt m w (fun _ => True) ⟨e.shared, c.pool.set i e.next ++ e.spawned⟩ := by
  rcases List.mem_append.mp h with h | h
  · -- it was there before, and stays a worker
    exact workerAt_step (fun _ _ => trivial) (hinv h) ht he
  · obtain ⟨rfl, rfl⟩ := (emits_of_mem he h).of_spawn h
    obtain ⟨a, hs, -⟩ := step_of_program_move he
    -- it is there now, the first that the step spawns
    generalize e.next = u, e.spawned = ts, e.events = ev at hs h ⊢
    cases hs with
    | call hs =>
      cases hs with
      | start hs =>
        cases hs with
        | spawn => exact ⟨i, .count, by simp, trivial⟩
        | spawnThrows => cases h
      | started hs => cases hs

/-- The store of `INTERRUPT_ALL` is made with all spawned workers counted. -/
theorem counted_of_store (hinv : .spawn m w ∈ tr → WorkerAt m w (fun _ => True) c)
    (hcounted : interruptsCounted m c (.step i k) = true) {prev : Interrupt}
    (ht : c.pool[i]? = some (.call m (.setInterruptor .interruptAll (.store prev))))
    (h : .spawn m w ∈ tr) : WorkerAt m w (· ≠ .count) c := by
  obtain ⟨o, pc, hw, -⟩ := hinv h
  refine ⟨o, pc, hw, ?_⟩
  rintro rfl
  have hall : ∀ t ∈ c.pool, t.spawnedUncounted m = false := by
    simpa [interruptsCounted, ht] using hcounted
  simpa [Thread.spawnedUncounted] using hall _ (List.mem_of_getElem? hw)

/-- **The worker has counted itself** by the time of the interrupt, after every step. -/
theorem counted_step (hinv : InterruptsAll m w n tr c)
    (hcounted : interruptsCounted m c (.step i k) = true) (ht : c.pool[i]? = some t)
    (he : program.move c i k t = some e)
    (h : [.spawn m w, .interruptAll m n].Sublist (tr ++ e.events)) :
    WorkerAt m w (· ≠ .count) ⟨e.shared, c.pool.set i e.next ++ e.spawned⟩ := by
  refine workerAt_step (fun hs _ => hs.ne_count) ?_ ht he
  by_cases hev : .interruptAll m n ∈ e.events
  · obtain ⟨rfl, ⟨prev, rfl⟩, hno⟩ := (emits_of_mem he hev).of_interruptAll (w := w) hev
    have hspawn := (List.mem_append.mp (h.subset List.mem_cons_self)).resolve_right hno
    exact counted_of_store hinv.spawned hcounted ht hspawn
  · -- the interrupt was stored before: the worker does not go back to `count`
    exact hinv.counted (sublist_of_append_of_not_mem h rfl hev)

/-- **Where a reset thread comes from**: it was there, it has moved, or its call has just created
it and returned. -/
theorem reset_mem_cases (ht : c.pool[i]? = some t) (he : program.move c i k t = some e)
    {pc : ResetPc} (h : .reset m n pc ∈ c.pool.set i e.next ++ e.spawned) :
    .reset m n pc ∈ c.pool ∨ (∃ p, t = .reset m n p ∧ e.next = .reset m n pc) ∨
      pc = .readPrev ∧ i = n ∧ e.next = .call m .returned ∧
        ∃ val hv, t = .call m (.setInterruptor val (.spawnReset hv)) := by
  obtain ⟨a, hs, -⟩ := step_of_program_move he
  rcases List.mem_append.mp h with hmem | hmem
  · rcases List.mem_or_eq_of_mem_set hmem with hmem | hnext
    · exact .inl hmem
    · generalize e.next = u, e.spawned = ts, e.events = ev at hs hnext ⊢
      subst hnext
      cases hs
      exact .inr (.inl ⟨_, rfl, rfl⟩)
  · rcases hs.spawned_cases with hnone | ⟨m', rfl, hmv⟩ | ⟨m', val, hv, rfl, hmv⟩
    · simp only at hnone
      rw [hnone] at hmem
      cases hmem
    · rw [(Move.mk.inj hmv).2.2.1] at hmem
      simp at hmem
    · rw [(Move.mk.inj hmv).2.2.1] at hmem
      obtain ⟨rfl, rfl, rfl⟩ : m = m' ∧ n = i ∧ pc = .readPrev := by simpa using hmem
      exact .inr (.inr ⟨rfl, rfl, (Move.mk.inj hmv).2.1, val, hv, rfl⟩)

/-- **The call has returned** when there is a reset thread, after every step. -/
theorem returned_step (hinv : InterruptsAll m w n tr c) (ht : c.pool[i]? = some t)
    (he : program.move c i k t = some e) {pc : ResetPc}
    (h : .reset m n pc ∈ c.pool.set i e.next ++ e.spawned) :
    (c.pool.set i e.next ++ e.spawned)[n]? = some (.call m .returned) := by
  have hold : ∀ {pc}, .reset m n pc ∈ c.pool →
      (c.pool.set i e.next ++ e.spawned)[n]? = some (.call m .returned) := by
    intro pc hmem
    have hn := hinv.returned pc hmem
    have hpool := getElem?_set_append e.next e.spawned ht hn
    by_cases hni : n = i
    · -- the call itself moved, but a call that has returned has no move
      subst hni
      obtain rfl := Option.some.inj (ht.symm.trans hn)
      cases he
    · rwa [if_neg hni] at hpool
  rcases reset_mem_cases ht he h with hmem | ⟨p, rfl, -⟩ | ⟨-, rfl, hnext, -⟩
  · exact hold hmem
  · exact hold (List.mem_of_getElem? ht)
  · rw [getElem?_set_append e.next e.spawned ht ht, if_pos rfl, hnext]

/-- **The worker has left** when a reset thread has found nothing running, after every step. -/
theorem cleared_step (hinv : InterruptsAll m w n tr c)
    (hcount : (c.shared.macros m).threadCount = weight (Thread.counted m) c.pool)
    (ht : c.pool[i]? = some t) (he : program.move c i k t = some e)
    (h : [.spawn m w, .interruptAll m n].Sublist (tr ++ e.events)) {pc : ResetPc}
    (hmem : .reset m n pc ∈ c.pool.set i e.next ++ e.spawned) (hzero : pc.foundZero = true) :
    WorkerAt m w (·.left = true) ⟨e.shared, c.pool.set i e.next ++ e.spawned⟩ := by
  refine workerAt_step (fun hs hp => hs.left hp) ?_ ht he
  by_cases hev : .interruptAll m n ∈ e.events
  · -- the call that stores has not created its reset thread yet
    obtain ⟨rfl, ⟨prev, rfl⟩, -⟩ := (emits_of_mem he hev).of_interruptAll (w := w) hev
    rcases reset_mem_cases ht he hmem with hmem | ⟨p, hp, -⟩ | ⟨-, -, -, val, hv, hp⟩
    · cases (hinv.returned pc hmem).symm.trans ht
    · cases hp
    · cases hp
  · have hsub := sublist_of_append_of_not_mem h rfl hev
    rcases reset_mem_cases ht he hmem with hmem | ⟨p, rfl, hnext⟩ | ⟨rfl, -⟩
    · exact hinv.cleared hsub pc hmem hzero
    · obtain ⟨a, hs, -⟩ := step_of_program_move he
      generalize e.next = u, e.spawned = ts, e.events = ev at hs hnext
      subst hnext
      cases hs with
      | reset hs =>
        -- it finds the count at 0 now, with the worker counted, or has found it before
        rcases hs.foundZero hzero with hbefore | hnone
        · exact hinv.cleared hsub _ (List.mem_of_getElem? ht) hbefore
        · exact workerAt_left hcount hnone (hinv.counted hsub)
    · -- a new reset thread has found nothing yet
      cases hzero

/-- **The worker has left** when the interrupt is over, after every step. -/
theorem resumed_step (hinv : InterruptsAll m w n tr c)
    (hcount : (c.shared.macros m).threadCount = weight (Thread.counted m) c.pool)
    (hcounted : interruptsCounted m c (.step i k) = true) (ht : c.pool[i]? = some t)
    (he : program.move c i k t = some e)
    (h : [.spawn m w, .interruptAll m n, .resumed m n].Sublist (tr ++ e.events)) :
    WorkerAt m w (·.left = true) ⟨e.shared, c.pool.set i e.next ++ e.spawned⟩ := by
  refine workerAt_step (fun hs hp => hs.left hp) ?_ ht he
  by_cases hev : .resumed m n ∈ e.events
  · rcases (emits_of_mem he hev).of_resumed hev with ⟨hstore, hzero⟩ | ⟨⟨p, rfl⟩, hno⟩
    · -- resumed on the spot: the store itself found the count at 0
      obtain ⟨rfl, ⟨prev, rfl⟩, hno⟩ := (emits_of_mem he hstore).of_interruptAll (w := w) hstore
      have hspawn := (List.mem_append.mp (h.subset List.mem_cons_self)).resolve_right hno
      exact workerAt_left hcount hzero (counted_of_store hinv.spawned hcounted ht hspawn)
    · -- resumed by the reset thread
      have hsub : [.spawn m w, .interruptAll m n].Sublist (tr ++ e.events) :=
        List.Sublist.trans (by simp) h
      exact hinv.cleared (sublist_of_append_of_not_mem hsub rfl hno) _
        (List.mem_of_getElem? ht) rfl
  · exact hinv.resumed (sublist_of_append_of_not_mem h rfl hev)

/-- **One step** keeps what the interrupt has done. -/
theorem interruptsAll_step (hinv : InterruptsAll m w n tr c)
    (hcount : (c.shared.macros m).threadCount = weight (Thread.counted m) c.pool)
    (hcounted : interruptsCounted m c (.step i k) = true) (ht : c.pool[i]? = some t)
    (he : program.move c i k t = some e) :
    InterruptsAll m w n (tr ++ e.events) ⟨e.shared, c.pool.set i e.next ++ e.spawned⟩ where
  spawned := spawned_step hinv.spawned ht he
  counted := counted_step hinv hcounted ht he
  cleared h _ := cleared_step hinv hcount ht he h
  returned _ := returned_step hinv ht he
  resumed := resumed_step hinv hcount hcounted ht he

/-- A worker that has left begins no pass. -/
theorem no_pass_of_left (hleft : WorkerAt m w (·.left = true) c) (ht : c.pool[i]? = some t)
    (he : program.move c i k t = some e) : .pass m w ∉ e.events := by
  intro hev
  obtain ⟨rfl, ⟨o, rfl⟩, -⟩ := (emits_of_mem he hev).of_pass (n := 0) hev
  obtain ⟨o', pc, hw, hpc⟩ := hleft
  cases hw.symm.trans ht
  cases hpc

/-- A call is none of the four events. -/
theorem not_mem_of_entry {ev : List Event} (he : t.entry = some ev) {x : Event} (hx : x ∈ ev) :
    ∃ m', x = .start m' := by
  rcases Thread.entry_cases he with ⟨m', -, rfl⟩ | ⟨m', -, rfl⟩ | ⟨m', pc, -, rfl, -⟩
  · cases hx
  · exact ⟨m', List.mem_singleton.mp hx⟩
  · cases hx

/-- A client creates no reset thread. -/
theorem reset_mem_of_entry {ev : List Event} (he : t.entry = some ev) {pc : ResetPc}
    (h : .reset m n pc ∈ c.pool ++ [t]) : .reset m n pc ∈ c.pool := by
  rcases List.mem_append.mp h with h | h
  · exact h
  · obtain rfl := List.mem_singleton.mp h
    cases he

/-- A new call leaves the threads where they are. -/
theorem workerAt_call (h : WorkerAt m w P c) : WorkerAt m w P ⟨c.shared, c.pool ++ [t]⟩ := by
  obtain ⟨o, pc, hw, hpc⟩ := h
  exact ⟨o, pc, getElem?_append_of_some hw, hpc⟩

/-- A new call has done nothing yet. -/
theorem interruptsAll_call (hinv : InterruptsAll m w n tr c) {ev : List Event}
    (he : t.entry = some ev) : InterruptsAll m w n (tr ++ ev) ⟨c.shared, c.pool ++ [t]⟩ := by
  have hsub : ∀ {l : List Event} {x : Event}, l.Sublist (tr ++ ev) → l.getLast? = some x →
      (∀ m', x ≠ .start m') → l.Sublist tr := fun hl hlast hx =>
    sublist_of_append_of_not_mem hl hlast fun hmem =>
      let ⟨m', heq⟩ := not_mem_of_entry he hmem
      hx m' heq
  constructor
  · intro h
    have htr := hsub (List.singleton_sublist.mpr h) rfl nofun
    exact workerAt_call (hinv.spawned (List.singleton_sublist.mp htr))
  · intro h
    exact workerAt_call (hinv.counted (hsub h rfl nofun))
  · intro h pc hmem hzero
    exact workerAt_call (hinv.cleared (hsub h rfl nofun) pc (reset_mem_of_entry he hmem) hzero)
  · intro pc hmem
    exact getElem?_append_of_some (hinv.returned pc (reset_mem_of_entry he hmem))
  · intro h
    exact workerAt_call (hinv.resumed (hsub h rfl nofun))

end Run

/-- The calls that leave `_threadCount` to the workers: neither `copy` nor the destructor. -/
def keepsCount : CallKind → Bool
  | .copy | .destroy => false
  | _ => true

/-- **`INTERRUPT_ALL` cancels everything started before it**: once the interruptor has gone back
to `CONTINUE`, no worker spawned before the interrupt begins a pass, when each interrupt finds all
spawned workers counted. -/
theorem interruptAll_cancels {m : MacroId} {mem : Memory} {tr : List Event}
    {c : Config Memory Thread} (hinit : (mem.macros m).threadCount = 0)
    (h : program.Run (fun c l => onlyCalls m keepsCount true l ∧ interruptsCounted m c l)
      (initial mem) tr c) (w n : ThreadId) :
    ¬ [.spawn m w, .interruptAll m n, .resumed m n, .pass m w].Sublist tr := by
  have hrun := h.and_invariant
    (I := fun c => (c.shared.macros m).threadCount = weight (Thread.counted m) c.pool)
    fun h => threadCount_eq_weight (fun _ _ ok => ok.1) rfl rfl hinit h
  have hinv : InterruptsAll m w n tr c ∧
      ¬ [.spawn m w, .interruptAll m n, .resumed m n, .pass m w].Sublist tr := by
    refine Machine.Run.invariant (P := fun tr c => InterruptsAll m w n tr c ∧
      ¬ [.spawn m w, .interruptAll m n, .resumed m n, .pass m w].Sublist tr) ?_ ?_ ?_ hrun
    · exact ⟨⟨nofun, nofun, nofun, nofun, nofun⟩, nofun⟩
    · -- a call emits `start` at most, so the pattern was complete before
      rintro tr c t ev ⟨hinv, hnot⟩ - he
      refine ⟨interruptsAll_call hinv he, fun hsub => hnot ?_⟩
      refine sublist_of_append_of_not_mem hsub rfl fun hmem => ?_
      obtain ⟨m', hev⟩ := not_mem_of_entry he hmem
      cases hev
    · rintro tr c i k t e ⟨hinv, hnot⟩ ⟨⟨-, hcounted⟩, hcount⟩ ht he
      refine ⟨interruptsAll_step hinv hcount hcounted ht he, fun hsub => ?_⟩
      by_cases hev : .pass m w ∈ e.events
      · -- the pass would be that of a worker that has left
        have hno := ((emits_of_mem he hev).of_pass (n := n) hev).2.2
        have hresumed : [.spawn m w, .interruptAll m n, .resumed m n].Sublist (tr ++ e.events) :=
          List.Sublist.trans (by simp) hsub
        have hleft := hinv.resumed (sublist_of_append_of_not_mem hresumed rfl hno)
        exact no_pass_of_left hleft ht he hev
      · exact hnot (sublist_of_append_of_not_mem hsub rfl hev)
  exact hinv.2

/-- A worker is spawned and counted before the interrupt, and leaves; the reset thread ends it. -/
theorem interruptAll_cancels_worker : ∃ tr c,
    program.Run (fun c l => onlyCalls 0 keepsCount true l ∧ interruptsCounted 0 c l)
      (initial (.ofMacro { interruptor := .continue, signals := [some 0] })) tr c ∧
      [.spawn 0 1, .interruptAll 0 2, .resumed 0 2].Sublist tr ∧
      ¬ [.spawn 0 1, .interruptAll 0 2, .resumed 0 2, .pass 0 1].Sublist tr := by
  obtain ⟨tr, c, h, hp⟩ := Machine.Run.exists_of_exec
    (fun c l => onlyCalls 0 keepsCount true l && interruptsCounted 0 c l)
    (initial (.ofMacro { interruptor := .continue, signals := [some 0] }))
    (spawnOne ++ .step 1 true :: callSet 2 .interruptAll ++ List.replicate 2 (.step 2 true) ++
      List.replicate 7 (.step 1 true) ++ List.replicate 9 (.step 3 true))
    (M := program) (P := fun tr _ => [.spawn 0 1, .interruptAll 0 2, .resumed 0 2].Sublist tr)
    (by decide +kernel)
  have hrun := h.and_of_bool
  exact ⟨tr, c, hrun, of_decide_eq_true hp, interruptAll_cancels rfl hrun 1 2⟩

/-- Clients start the macro and set its interruptor, and make no other call on it. -/
def startsOrSets : CallKind → Bool
  | .start | .setInterruptor => true
  | _ => false

/-- A worker of macro `m` spawned by the call `origin`. -/
def Thread.spawnedBy (m : MacroId) (origin : ThreadId) : Thread → Bool
  | worker m' (some o) _ => m' = m ∧ o = origin
  | _ => false

/-- **A worker that outlives `INTERRUPT_ALL`**: the sticky macro is started, and interrupted before
worker 1 has counted itself. Nothing is running for call 2, which sets `CONTINUE` at once; then
worker 1 begins a pass. -/
theorem not_interruptAll_cancels_sticky : ¬ ∀ mem tr c tr' c' w origin n,
    (mem.macros 0).threadCount = 0 →
    program.Run (fun _ l => onlyCalls 0 startsOrSets false l) (initial mem) tr c →
    c.pool[w]?.any (Thread.spawnedBy 0 origin) → c.pool[origin]?.any Thread.ended →
    c.pool.length ≤ n →
    program.Run (fun _ l => onlyCalls 0 startsOrSets false l) c tr' c' →
    ¬ [.interruptAll 0 n, .resumed 0 n, .pass 0 w].Sublist tr' := by
  intro hall
  obtain ⟨tr, c, ev, c₁, tr', c', h, hstep, h', hp⟩ := Machine.Run.exists_of_exec_step
    (fun _ l => onlyCalls 0 startsOrSets false l) (fun _ l => onlyCalls 0 startsOrSets false l)
    (initial (.ofMacro { interruptor := .continue, sticky := true, signals := [some 0] })) spawnOne
    (.call (.call 0 (.checkInterruptor Interrupt.interruptAll.code)))
    (List.replicate 4 (.step 2 true) ++ List.replicate 11 (.step 1 true))
    (M := program) (P := fun c tr' _ => c.pool[1]?.any (Thread.spawnedBy 0 0) ∧
      c.pool[0]?.any Thread.ended ∧ c.pool.length ≤ 2 ∧
      [.interruptAll 0 2, .resumed 0 2, .pass 0 1].Sublist tr')
    (by decide +kernel)
  obtain ⟨hworker, hreturned, hnew, hsub⟩ := of_decide_eq_true hp
  have hrun := (Machine.Run.single rfl hstep).trans h'
  exact hall _ tr c _ c' 1 0 2 rfl h hworker hreturned hnew hrun
    (hsub.trans (List.sublist_append_right _ _))

end Libmacro
