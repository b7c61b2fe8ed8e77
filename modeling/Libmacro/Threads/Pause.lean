import Libmacro.Threads.DisableKept

/-! # Paused macros

`run` waits out a `PAUSE` after its preamble and after each pass, and `dispatchSignals` does not
look for it between two signals. `no_delivery_while_paused`: nothing is delivered in a paused macro
when no worker was in the middle of a pass, or about to begin one, at the moment of the pause. -/

namespace Libmacro

open Interleaving

/-- A worker's next signal, if there is one, comes after a pause test: it is not past the last
pause test before a pass, and a pass it is in has no signal left. -/
def RunPc.awaitsPause : RunPc → Bool
  | count | notifyCount | consume false _ | signalsTest | pause _ => true
  | breakTest rest | delivering rest => rest.all Option.isNone
  | skipTest signalPtr rest | deliver signalPtr rest => signalPtr.isNone && rest.all Option.isNone
  | uncount | release | notifyDone | finished => true
  | _ => false

/-- The thread is no worker of macro `m` that may deliver a signal before a pause test. -/
def Thread.awaitsPause (m : MacroId) : Thread → Bool
  | worker m' _ pc => m' ≠ m ∨ pc.awaitsPause
  | _ => true

/-- Every worker of macro `m` has a pause test ahead of its next signal. -/
def AllAwaitPause (m : MacroId) (c : Config Memory Thread) : Prop :=
  ∀ t ∈ c.pool, t.awaitsPause m = true

/-- Whether all workers have a pause test ahead of them is read off where each of them stands. -/
instance (m : MacroId) (c : Config Memory Thread) : Decidable (AllAwaitPause m c) :=
  inferInstanceAs (Decidable (∀ t ∈ c.pool, t.awaitsPause m = true))

/-- A step that pauses macro `m`, by `setInterruptor(PAUSE)` or by `copy` of a paused macro, is
taken while every worker has a pause test ahead. -/
def pausesBetween (m : MacroId) (c : Config Memory Thread) : Label Thread Bool → Bool
  | .step i _ =>
    match c.pool[i]? with
    | some (.call m' (.setInterruptor .pause (.store _))) => m' ≠ m ∨ AllAwaitPause m c
    | some (.call m' (.copy other .assign)) =>
      m' ≠ m ∨ (c.shared.macros other).interruptor ≠ .pause ∨ AllAwaitPause m c
    | _ => true
  | .call _ => true

/-- The event is the beginning of a delivery by a worker of macro `m`. -/
def Event.isDelivery (m : MacroId) : Event → Bool
  | deliver m' _ _ _ => m' = m
  | _ => false

section Edges

variable {mem : Memory} {m : MacroId} {i : ThreadId} {a : Access}

/-- **A paused worker delivers nothing**, and goes no further than the next pause test. -/
theorem RunPc.Step.awaitsPause {p p' : RunPc} {ev : List Event} (h : p.Step mem m i a p' ev)
    (hi : (mem.macros m).interruptor = .pause) (hp : p.awaitsPause = true) :
    p'.awaitsPause = true ∧ ev.countP (Event.isDelivery m) = 0 := by
  cases h with
  | @consumeTest inLoop h | @interrupted inLoop h => rw [hi] at h; cases h
  | @notInterrupted inLoop =>
    cases inLoop with
    | false => exact ⟨rfl, rfl⟩
    | true => cases hp
  | @consumeSet inLoop =>
    cases inLoop with
    | false => exact ⟨rfl, rfl⟩
    | true => cases hp
  | consumed => exact ⟨rfl, rfl⟩
  -- the pause test holds the worker back
  | notPaused h => exact absurd hi h
  | pauseOver h =>
    cases h with
    | holds h => simp [hi] at h
  | passBreak h | skip h => rw [hi] at h; exact absurd h (by decide)
  | breakTest => exact ⟨by simpa [RunPc.awaitsPause] using hp, rfl⟩
  | skipTest => exact ⟨hp, rfl⟩
  | nullSignal => exact ⟨by simpa [RunPc.awaitsPause] using hp, rfl⟩
  | delivered => exact ⟨hp, rfl⟩
  | deliver => cases hp
  | _ => first | exact ⟨rfl, rfl⟩ | cases hp

end Edges

section Run

variable {m : MacroId} {c : Config Memory Thread} {i : ThreadId} {k : Bool} {t : Thread}
  {e : Effect Memory Thread Event}

/-- Threads of other macros are no workers of `m`. -/
theorem Thread.awaitsPause_of_ne (h : t.macroId ≠ m) : t.awaitsPause m = true := by
  cases t <;> simp_all [awaitsPause]

/-- **Who pauses a macro**: a step after which it is paused found it so, or is a client's, at a
moment at which all workers have a pause test ahead. -/
theorem paused_before_or_client (hbetween : pausesBetween m c (.step i k) = true)
    (ht : c.pool[i]? = some t) (he : program.move c i k t = some e)
    (hpause : (e.shared.macros m).interruptor = .pause) :
    (c.shared.macros m).interruptor = .pause ∨ AllAwaitPause m c ∧ ∃ pc, t = .call m pc := by
  by_cases hm : t.macroId = m
  · obtain ⟨a, hs, ha⟩ := step_of_program_move he
    rw [hm] at ha
    have hval := Access.apply_interruptor ha
    rw [hpause] at hval
    rcases hs.writer with hw | hw
    · exact .inl (by rw [← Access.interruptor_eq ha hw, hpause])
    · cases hw with
      | @call m' val prev =>
        obtain rfl : m' = m := hm
        obtain rfl : val = .pause := by
          simp only [Macro.interruptorAfter] at hval
          split_ifs at hval
          exact hval.symm
        exact .inr ⟨by simpa [pausesBetween, ht] using hbetween, _, rfl⟩
      | @assign m' other =>
        obtain rfl : m' = m := hm
        exact .inr ⟨by simpa [pausesBetween, ht, ← hval] using hbetween, _, rfl⟩
      -- nobody else writes `PAUSE`
      | consume | reset => simp [Macro.interruptorAfter] at hval
      | _ => cases hval
  · exact .inl (by rwa [macros_of_ne he hm] at hpause)

/-- **One step** of a paused macro leaves its workers before a pause test, and delivers nothing. -/
theorem awaitsPause_step (hpause : (c.shared.macros m).interruptor = .pause)
    (hall : AllAwaitPause m c) (ht : c.pool[i]? = some t) (he : program.move c i k t = some e) :
    e.next.awaitsPause m = true ∧ e.events.countP (Event.isDelivery m) = 0 := by
  obtain ⟨a, hs, -⟩ := step_of_program_move he
  by_cases hm : t.macroId = m
  · have ht' := hall t (List.mem_of_getElem? ht)
    have hdelivery : t.isWorker = false → e.events.countP (Event.isDelivery m) = 0 :=
      hs.countP_events_of_not_worker fun ev hev => by cases ev <;> first | rfl | cases hev
    generalize e.next = u, e.spawned = ts, e.events = ev at hs hdelivery ⊢
    cases hs with
    | @worker m' o p p' a ev h =>
      obtain rfl : m' = m := hm
      have hp : p.awaitsPause = true := by simpa [Thread.awaitsPause] using ht'
      simpa [Thread.awaitsPause] using h.awaitsPause hpause hp
    | reset h => exact ⟨rfl, hdelivery rfl⟩
    | call h => exact ⟨rfl, hdelivery rfl⟩
  · refine ⟨Thread.awaitsPause_of_ne (macroId_of_ne he hm).1, ?_⟩
    refine hs.countP_events_of_ne (fun ev hev => ?_) hm
    cases ev <;> simp_all [Event.isDelivery, Event.macroId?]

/-- **While a macro is paused, its workers have a pause test ahead.** -/
theorem allAwaitPause_of_paused {mem : Memory} {tr : List Event}
    (h : program.Run (fun c l => pausesBetween m c l) (initial mem) tr c)
    (hpause : (c.shared.macros m).interruptor = .pause) : AllAwaitPause m c := by
  refine Machine.Run.invariant (P := fun _ c =>
    (c.shared.macros m).interruptor = .pause → AllAwaitPause m c) ?_ ?_ ?_ h hpause
  · intro _ t ht
    cases ht
  · -- a direct `run` begins before its pause test
    rintro _ c t ev hinv - he hpause
    refine forall_mem_concat (hinv hpause) ?_
    rcases Thread.entry_cases he with ⟨m', rfl, -⟩ | ⟨m', rfl, -⟩ | ⟨m', pc, rfl, -⟩
    · simp [Thread.awaitsPause, RunPc.awaitsPause]
    · rfl
    · rfl
  · rintro _ c i k t e hinv hbetween ht he hpause
    obtain ⟨a, hs, -⟩ := step_of_program_move he
    have hspawned : ∀ u ∈ e.spawned, u.awaitsPause m = true := by
      intro u hu
      rcases hs.of_mem_spawned hu with rfl | rfl
      · simp [Thread.awaitsPause, RunPc.awaitsPause]
      · rfl
    rcases paused_before_or_client hbetween ht he hpause with hbefore | ⟨hall, pc, rfl⟩
    · -- it was paused before: the worker that moved has its test ahead still
      have hall := hinv hbefore
      exact forall_mem_set_append hall (awaitsPause_step hbefore hall ht he).1 hspawned
    · -- the client pauses it now, with all tests ahead
      have hnext : e.next.awaitsPause m = true := by
        generalize e.next = u, e.spawned = ts, e.events = ev at hs ⊢
        cases hs
        rfl
      exact forall_mem_set_append hall hnext hspawned

/-- **Pause stops sending**: when a macro is paused only while all its workers have a pause test
ahead, no step taken in a paused macro begins the delivery of a signal. -/
theorem no_delivery_while_paused {mem : Memory} {tr ev : List Event} {c' : Config Memory Thread}
    {l : Label Thread Bool}
    (h : program.Run (fun c l => pausesBetween m c l) (initial mem) tr c)
    (hpause : (c.shared.macros m).interruptor = .pause) (hstep : program.step c l = some (ev, c')) :
    ev.countP (Event.isDelivery m) = 0 := by
  have hall := allAwaitPause_of_paused h hpause
  cases l with
  | call t =>
    obtain ⟨hev, rfl⟩ := Machine.step_call_iff.mp hstep
    rcases Thread.entry_cases hev with ⟨m', -, rfl⟩ | ⟨m', -, rfl⟩ | ⟨m', pc, -, rfl, -⟩ <;> rfl
  | step i k =>
    obtain ⟨t, e, ht, he, rfl, rfl⟩ := Machine.step_step_iff.mp hstep
    exact (awaitsPause_step hpause hall ht he).2

end Run

/-- A macro that is paused before its worker's first step: the worker waits for its mutex. -/
theorem no_delivery_while_paused_before : ∃ tr c ev c',
    program.Run (fun c l => pausesBetween 0 c l)
      (initial (.ofMacro { interruptor := .continue, signals := [some 0] })) tr c ∧
      (c.shared.macros 0).interruptor = .pause ∧
      program.step c (.step 1 true) = some (ev, c') ∧ ev.countP (Event.isDelivery 0) = 0 := by
  obtain ⟨tr, c, ev, c', tr', c'', h, hstep, -, hp⟩ := Machine.Run.exists_of_exec_step
    (fun c l => pausesBetween 0 c l) (fun _ _ => true)
    (initial (.ofMacro { interruptor := .continue, signals := [some 0] }))
    (spawnOne ++ callSet 2 .pause ++ .step 2 true :: List.replicate 5 (.step 1 true))
    (.step 1 true) [] (M := program) (P := fun c _ _ => (c.shared.macros 0).interruptor = .pause)
    (by decide +kernel)
  have hpause := of_decide_eq_true hp
  exact ⟨tr, c, ev, c', h, hpause, hstep, no_delivery_while_paused h hpause hstep⟩

/-- **A pause that does not stop**: the macro is paused while worker 1 delivers the first of two
signals; it goes on to the second. -/
theorem not_no_delivery_while_paused_second : ¬ ∀ mem tr c l ev c',
    program.Run (fun _ _ => True) (initial mem) tr c →
    (c.shared.macros 0).interruptor = .pause → program.step c l = some (ev, c') →
    ev.countP (Event.isDelivery 0) = 0 := by
  intro hall
  obtain ⟨tr, c, h, hp⟩ := Machine.Run.exists_of_exec (fun _ _ => true)
    (initial (.ofMacro { interruptor := .continue, signals := [some 0, some 1] }))
    (spawnOne ++ List.replicate 16 (.step 1 true) ++ callSet 2 .pause ++ .step 2 true ::
      List.replicate 3 (.step 1 true))
    (M := program) (P := fun _ c => (c.shared.macros 0).interruptor = .pause ∧
      (program.step c (.step 1 true)).any fun r => r.1.countP (Event.isDelivery 0) = 1)
    (by decide +kernel)
  obtain ⟨hpause, hdeliver⟩ := of_decide_eq_true hp
  obtain ⟨⟨ev, c'⟩, hstep, hone⟩ := (Option.any_eq_true _ _).mp hdeliver
  have hnone := hall _ tr c _ ev c' h.weaken hpause hstep
  rw [hnone] at hone
  cases hone

end Libmacro
