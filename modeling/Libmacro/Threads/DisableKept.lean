import Libmacro.Threads.GlobalSlots
import Libmacro.Threads.Mutex
import Libmacro.Threads.Writers

/-! # A disabled macro stays disabled

Once a client has stored `DISABLE`, nobody but a client should write another value. A worker that
has passed the guarded test of `consumeInterrupt`, and a reset thread that is on its way, write
theirs all the same. `disable_kept`: if there is no such thread when `DISABLE` is stored, the macro
stays disabled until a client's own write. -/

namespace Libmacro

open Interleaving

/-- `setInterruptor` has its store still ahead. -/
def SetPc.overwrites {val : Interrupt} : SetPc val → Bool
  | readPrev | compare _ | store _ => true
  | _ => false

/-- A worker has passed the guarded test of `consumeInterrupt`, and not stored `CONTINUE` yet. -/
def RunPc.overwrites : RunPc → Bool
  | consume _ (.set p) => p.overwrites
  | _ => false

/-- A reset thread may still write, whatever it finds: `INTERRUPT_ALL` up to its last `dequeue`,
and `CONTINUE` at its end if it did not read `DISABLE` at its beginning. -/
def ResetPc.overwrites : ResetPc → Bool
  | readPrev | dequeue _ _ | runningTest _ => true
  | clear _ (.dequeue .queued) | clear _ (.dequeue .interruptor) => true
  | clear prev _ | prevTest prev => prev ≠ .disable
  | set p => p.overwrites
  | finished => false

/-- A client's `setInterruptor(INTERRUPT_ALL)` is about to create a reset thread. -/
def CallPc.resets : CallPc → Bool
  | setInterruptor _ (.apply true _) | setInterruptor _ (.spawnReset _) => true
  | _ => false

/-- The thread works on macro `m`, and it or a thread it creates may write another value than
`DISABLE` without a client asking for it. -/
def Thread.overwrites (m : MacroId) : Thread → Bool
  | worker m' _ pc => m' = m ∧ pc.overwrites
  | reset m' _ pc => m' = m ∧ pc.overwrites
  | call m' pc => m' = m ∧ pc.resets

/-- A `start` of macro `m` is about to write `CONTINUE` over `INTERRUPT`. -/
def Thread.cancels (m : MacroId) : Thread → Bool
  | call m' (.start .cancel) => m' = m
  | _ => false

/-- The step is the store of a client's `setInterruptor(DISABLE)` on macro `m`. -/
def storesDisable (m : MacroId) (c : Config Memory Thread) : Label Thread Bool → Bool
  | .step i _ =>
    match c.pool[i]? with
    | some (.call m' (.setInterruptor .disable (.store _))) => m' = m
    | _ => false
  | .call _ => false

/-- The step is a client's own write of another value than `DISABLE` to macro `m`, by
`setInterruptor` or by `copy`. -/
def clientWrites (m : MacroId) (c : Config Memory Thread) : Label Thread Bool → Bool
  | .step i _ =>
    match c.pool[i]? with
    | some (.call m' (.setInterruptor val (.store _))) => m' = m ∧ val ≠ .disable
    | some (.call m' (.copy other .assign)) =>
      m' = m ∧ (c.shared.macros other).interruptor ≠ .disable
    | _ => false
  | .call _ => false

/-- No thread is on its way to write another value than `DISABLE` to macro `m`. -/
def NoneOverwrites (m : MacroId) (c : Config Memory Thread) : Prop :=
  ∀ t ∈ c.pool, t.overwrites m = false

/-- Whether some thread still overwrites the interruptor is read off the pool. -/
instance (m : MacroId) (c : Config Memory Thread) : Decidable (NoneOverwrites m c) :=
  inferInstanceAs (Decidable (∀ t ∈ c.pool, t.overwrites m = false))

section Edges

variable {mac : Macro} {mem : Memory} {m : MacroId} {i : ThreadId} {a : Access}
  {pool : List Thread}

/-- A store that is done does not come back. -/
theorem SetPc.Step.overwrites {val : Interrupt} {p p' : SetPc val} {ts : List Thread}
    {ev : List Event} (h : p.Step m mac i a (some p') ts ev) (hp : p.overwrites = false) :
    p'.overwrites = false := by
  cases h with
  | readPrev | differs => cases hp
  | _ => rfl

/-- A worker gets to the store of `CONTINUE` only from `INTERRUPT`. -/
theorem RunPc.Step.overwrites {p p' : RunPc} {ev : List Event} (h : p.Step mem m i a p' ev)
    (hi : (mem.macros m).interruptor ≠ .interrupt) (hp : p.overwrites = false) :
    p'.overwrites = false := by
  cases h with
  | interrupted h => exact absurd h hi
  | consumeSet h => exact h.overwrites hp
  | @notInterrupted inLoop => cases inLoop <;> rfl
  | _ => rfl

/-- A reset thread that has done its writes does none any more. -/
theorem ResetPc.Step.overwrites {origin : ThreadId} {p p' : ResetPc} {ev : List Event}
    (h : p.Step pool mac m i origin a p' ev) (hp : p.overwrites = false) :
    p'.overwrites = false := by
  cases h with
  | readPrev | dequeue | dequeued | running | notRunning => cases hp
  | clear h =>
    cases h with
    | dequeue h => cases h <;> first | exact hp | cases hp
    | dequeued h => cases h; exact hp
    | dequeuedSticky _ hs => cases hs
    | _ => exact hp
  | cleared h => cases h; exact hp
  -- a reset thread that read `DISABLE` at its beginning leaves it
  | restore h => exact absurd h (by simpa [ResetPc.overwrites] using hp)
  | keep | setDone => rfl
  | set h => exact h.overwrites hp

/-- A call gets to the creation of a reset thread only by a store of another value than
`DISABLE`, and `start` to its write only from `INTERRUPT`. -/
theorem CallPc.Step.overwrites {p p' : CallPc} {ts : List Thread} {ev : List Event}
    (h : p.Step mem pool m i a p' ts ev) (hi : (mem.macros m).interruptor ≠ .interrupt)
    (hp : (Thread.call m p).overwrites m = false)
    (hstore : ∀ val prev, p = .setInterruptor val (.store prev) → val = .disable) :
    (Thread.call m p').overwrites m = false ∧ (Thread.call m p').cancels m = false := by
  cases h with
  | start h =>
    cases h with
    | interrupted h => exact absurd h hi
    | _ => simp [Thread.overwrites, Thread.cancels, CallPc.resets]
  | setInterruptor h =>
    cases h with
    | storeApply =>
      obtain rfl := hstore _ _ rfl
      simp [Thread.overwrites, Thread.cancels, CallPc.resets]
    | storeReset _ hs =>
      obtain rfl := hstore _ _ rfl
      simp at hs
    | applyReset => simp [Thread.overwrites, CallPc.resets] at hp
    | _ => simp [Thread.overwrites, Thread.cancels, CallPc.resets]
  | _ => simp [Thread.overwrites, Thread.cancels, CallPc.resets]

end Edges

/-- What a thread of macro `m` may not be while the macro is to stay disabled. -/
def Thread.calm (m : MacroId) (t : Thread) : Prop :=
  t.overwrites m = false ∧ t.cancels m = false

/-- Threads of other macros are calm. -/
theorem Thread.calm_of_ne {m : MacroId} {t : Thread} (h : t.macroId ≠ m) : t.calm m := by
  cases t with
  | worker | reset => simp_all [calm, overwrites, cancels]
  | call m' pc =>
    refine ⟨by simp_all [overwrites], ?_⟩
    unfold cancels
    split <;> simp_all

section Run

variable {m : MacroId} {c : Config Memory Thread} {i : ThreadId} {k : Bool} {t : Thread}
  {e : Effect Memory Thread Event}

/-- A client's store that is not excluded stores `DISABLE`. -/
theorem val_eq_disable (hquiet : clientWrites m c (.step i k) = false) (ht : c.pool[i]? = some t)
    {val prev : Interrupt} (h : t = .call m (.setInterruptor val (.store prev))) :
    val = .disable := by
  subst h
  simpa [clientWrites, ht] using hquiet

/-- **One step** leaves the threads calm. -/
theorem calm_step (hi : (c.shared.macros m).interruptor = .disable) (hcalm : t.calm m)
    (hquiet : clientWrites m c (.step i k) = false) (ht : c.pool[i]? = some t)
    (he : program.move c i k t = some e) : e.next.calm m ∧ ∀ u ∈ e.spawned, u.calm m := by
  obtain ⟨a, hs, -⟩ := step_of_program_move he
  by_cases hm : t.macroId = m
  · constructor
    · generalize e.next = u, e.spawned = ts, e.events = ev at hs ⊢
      cases hs with
      | @worker m' o p p' a ev h =>
        obtain rfl : m' = m := hm
        have hp : p.overwrites = false := by simpa [Thread.overwrites] using hcalm.1
        exact ⟨by simpa [Thread.overwrites] using h.overwrites (by simp [hi]) hp, rfl⟩
      | @reset m' o p p' a ev h =>
        obtain rfl : m' = m := hm
        have hp : p.overwrites = false := by simpa [Thread.overwrites] using hcalm.1
        exact ⟨by simpa [Thread.overwrites] using h.overwrites hp, rfl⟩
      | @call m' p p' a ts ev h =>
        obtain rfl : m' = m := hm
        refine h.overwrites (by simp [hi]) hcalm.1 fun val prev hp => ?_
        exact val_eq_disable hquiet ht (by rw [hp])
    · intro u hu
      rcases hs.spawned_cases with hnone | ⟨m', rfl, hmv⟩ | ⟨m', val, hv, rfl, hmv⟩
      · simp only at hnone
        simp [hnone] at hu
      · rw [(Move.mk.inj hmv).2.2.1] at hu
        obtain rfl := List.mem_singleton.mp hu
        simp [Thread.calm, Thread.overwrites, Thread.cancels, RunPc.overwrites]
      · -- a call that is about to create a reset thread is not calm
        obtain rfl : m' = m := hm
        simp [Thread.calm, Thread.overwrites, CallPc.resets] at hcalm
  · obtain ⟨hnext, hspawned⟩ := macroId_of_ne he hm
    exact ⟨Thread.calm_of_ne hnext, fun u hu => Thread.calm_of_ne (hspawned u hu)⟩

/-- **One step** leaves the macro disabled. -/
theorem disable_step (hi : (c.shared.macros m).interruptor = .disable) (hcalm : t.calm m)
    (hquiet : clientWrites m c (.step i k) = false) (ht : c.pool[i]? = some t)
    (he : program.move c i k t = some e) : (e.shared.macros m).interruptor = .disable := by
  by_cases hm : t.macroId = m
  · obtain ⟨a, hs, ha⟩ := step_of_program_move he
    rw [hm] at ha
    have hval := Access.apply_interruptor ha
    rcases hs.writer with hw | hw
    · rw [Access.interruptor_eq ha hw, hi]
    · cases hw with
      | @call m' val prev =>
        obtain rfl : m' = m := hm
        obtain rfl := val_eq_disable hquiet ht rfl
        simpa [Macro.interruptorAfter] using hval
      | @assign m' other =>
        obtain rfl : m' = m := hm
        rw [hval]
        simpa [clientWrites, ht] using hquiet
      -- these two write `DISABLE` again
      | copy | destroy => exact hval
      -- the other writers are not calm
      | _ =>
        simp only [Thread.macroId] at hm
        simp [hm, Thread.calm, Thread.overwrites, Thread.cancels, RunPc.overwrites,
          ResetPc.overwrites, SetPc.overwrites] at hcalm
  · rw [macros_of_ne he hm, hi]

/-- The macro stays disabled as long as its threads are calm and no client writes. -/
theorem disabled_of_calm {tr : List Event} {c' : Config Memory Thread}
    (hi : (c.shared.macros m).interruptor = .disable) (hcalm : ∀ t ∈ c.pool, t.calm m)
    (h : program.Run (fun c l => clientWrites m c l = false) c tr c') :
    (c'.shared.macros m).interruptor = .disable := by
  -- the threads have to stay calm for the value to stay
  suffices (c'.shared.macros m).interruptor = .disable ∧ ∀ t ∈ c'.pool, t.calm m from this.1
  refine Machine.Run.invariant (P := fun _ c =>
    (c.shared.macros m).interruptor = .disable ∧ ∀ t ∈ c.pool, t.calm m) ⟨hi, hcalm⟩ ?_ ?_ h
  · -- a new thread stands at its beginning, with nothing read
    rintro _ c t ev ⟨hi, hcalm⟩ _ he
    refine ⟨hi, forall_mem_concat hcalm ?_⟩
    rcases Thread.entry_cases he with ⟨m', rfl, -⟩ | ⟨m', rfl, -⟩ | ⟨m', pc, rfl, -, hpc⟩
    · simp [Thread.calm, Thread.overwrites, Thread.cancels, RunPc.overwrites]
    · simp [Thread.calm, Thread.overwrites, Thread.cancels, CallPc.resets]
    · cases hpc <;> simp [Thread.calm, Thread.overwrites, Thread.cancels, CallPc.resets]
  · rintro _ c i k t e ⟨hi, hcalm⟩ hquiet ht he
    have ht' := hcalm t (List.mem_of_getElem? ht)
    obtain ⟨hnext, hspawned⟩ := calm_step hi ht' hquiet ht he
    exact ⟨disable_step hi ht' hquiet ht he, forall_mem_set_append hcalm hnext hspawned⟩

end Run

/-- While the mutex is free, no `start` is inside its switch. -/
theorem cancels_of_unlocked {mem : Memory} {m : MacroId} {c : Config Memory Thread}
    {allowed : Config Memory Thread → Label Thread Bool → Prop} {tr : List Event}
    (hinit : (mem.macros m).locked = false) (h : program.Run allowed (initial mem) tr c)
    (hfree : (c.shared.macros m).locked = false) : ∀ t ∈ c.pool, t.cancels m = false := by
  intro t ht
  -- the switch is inside the mutex, which no thread holds
  have hholds : weight (Thread.holds m) c.pool = 0 := by
    rw [← locked_eq_weight m hinit h, hfree]
    rfl
  have ht₀ := weight_eq_zero_iff.mp hholds t ht
  unfold Thread.cancels
  split
  next m' =>
    by_cases hm : m' = m
    · simp [hm, CallPc.holds, StartPc.holds] at ht₀
    · simpa using hm
  · rfl

/-- The thread and the point of a store of `DISABLE`. -/
theorem of_storesDisable {m : MacroId} {c : Config Memory Thread} {l : Label Thread Bool}
    (h : storesDisable m c l = true) : ∃ i k prev, l = .step i k ∧
      c.pool[i]? = some (.call m (.setInterruptor .disable (.store prev))) := by
  unfold storesDisable at h
  split at h
  next i k =>
    split at h
    next m' prev heq =>
      obtain rfl : m' = m := by simpa using h
      exact ⟨i, k, prev, rfl, heq⟩
    next => cases h
  next => cases h

/-- The store of `DISABLE`: the mutex is free, the macro is disabled, and `applyDispatch()` comes
next. -/
theorem store_disable_step {m : MacroId} {c : Config Memory Thread} {i : ThreadId} {k : Bool}
    {prev : Interrupt} {e : Effect Memory Thread Event}
    (he : program.move c i k (.call m (.setInterruptor .disable (.store prev))) = some e) :
    (c.shared.macros m).locked = false ∧ (e.shared.macros m).interruptor = .disable ∧
      e.next.calm m ∧ e.spawned = [] := by
  obtain ⟨a, hs, ha⟩ := step_of_program_move he
  generalize e.next = u, e.spawned = ts, e.events = ev at hs ⊢
  cases hs with
  | call h =>
    cases h with
    | setInterruptor h =>
      cases h with
      | storeApply =>
        refine ⟨Access.unlocked_of_apply ha rfl, ?_, ?_, rfl⟩
        · simpa [Macro.interruptorAfter] using Access.apply_interruptor ha
        · simp [Thread.calm, Thread.overwrites, Thread.cancels, CallPc.resets]
      | storeReset h => exact absurd (.inr rfl) h
    | setDone h =>
      cases h with
      | storeDone h => exact absurd (.inr rfl) h

/-- **Disable is not lost**: when a client stores `DISABLE` while no thread is on its way to write
another value, the macro is disabled in every later state, up to a client's own write. -/
theorem disable_kept {mem : Memory} {m : MacroId} {c c' c'' : Config Memory Thread}
    {l : Label Thread Bool} {tr tr' ev : List Event} (hinit : (mem.macros m).locked = false)
    (hrun : program.Run (fun _ _ => True) (initial mem) tr c) (hstore : storesDisable m c l = true)
    (hnone : NoneOverwrites m c) (hstep : program.step c l = some (ev, c'))
    (hlater : program.Run (fun c l => clientWrites m c l = false) c' tr' c'') :
    (c''.shared.macros m).interruptor = .disable := by
  obtain ⟨i, k, prev, rfl, ht⟩ := of_storesDisable hstore
  obtain ⟨t, e, ht', he, rfl, rfl⟩ := Machine.step_step_iff.mp hstep
  obtain rfl := Option.some.inj (ht'.symm.trans ht)
  obtain ⟨hfree, hi, hnext, hspawned⟩ := store_disable_step he
  -- the store holds the mutex, so no `start` is inside its switch
  have hcalm : ∀ t ∈ c.pool, t.calm m := fun t ht =>
    ⟨hnone t ht, cancels_of_unlocked hinit hrun hfree t ht⟩
  refine disabled_of_calm hi (forall_mem_set_append hcalm hnext ?_) hlater
  simp [hspawned]

/-- A client's `setInterruptor(val)` on macro 0 as thread `i`, up to its store. -/
def callSet (i : ThreadId) (val : Interrupt) : List (Label Thread Bool) :=
  .call (.call 0 (.checkInterruptor val.code)) :: List.replicate 3 (.step i true)

/-- A macro is disabled while its only worker waits for its first step; worker and client go on. -/
theorem disable_kept_worker : ∃ tr c ev c' tr' c'',
    program.Run (fun _ _ => True)
      (initial (.ofMacro { interruptor := .continue, context := some 0 })) tr c ∧
      program.step c (.step 2 true) = some (ev, c') ∧
      program.Run (fun c l => clientWrites 0 c l = false) c' tr' c'' ∧
      (c''.shared.macros 0).threadCount = 1 ∧ (c''.shared.macros 0).interruptor = .disable := by
  obtain ⟨tr, c, ev, c', tr', c'', h, hstep, h', hp⟩ := Machine.Run.exists_of_exec_step
    (fun _ _ => true) (fun c l => !clientWrites 0 c l)
    (initial (.ofMacro { interruptor := .continue, context := some 0 }))
    (spawnOne ++ callSet 2 .disable) (.step 2 true)
    (List.replicate 4 (.step 1 true) ++ [.step 2 true])
    (M := program) (P := fun c _ c' => storesDisable 0 c (.step 2 true) ∧
      NoneOverwrites 0 c ∧ (c'.shared.macros 0).threadCount = 1)
    (by decide +kernel)
  obtain ⟨hstore, hnone, hcount⟩ := of_decide_eq_true hp
  have hlater : program.Run (fun c l => clientWrites 0 c l = false) c' tr' c'' :=
    h'.mono fun c l ok => by simpa using ok
  exact ⟨tr, c, ev, c', tr', c'', h.weaken, hstep, hlater, hcount,
    disable_kept rfl h.weaken hstore hnone hstep hlater⟩

/-- **A disable that is lost**: worker 1 has seen `INTERRUPT` in the guarded test of
`consumeInterrupt` when client 3 stores `DISABLE`; then it stores `CONTINUE`. -/
theorem not_disable_kept_interrupted : ¬ ∀ mem tr c l ev c' tr' c'',
    (mem.macros 0).locked = false →
    program.Run (fun _ _ => True) (initial mem) tr c → storesDisable 0 c l = true →
    program.step c l = some (ev, c') →
    program.Run (fun c l => clientWrites 0 c l = false) c' tr' c'' →
    (c''.shared.macros 0).interruptor = .disable := by
  intro hall
  obtain ⟨tr, c, ev, c', tr', c'', h, hstep, h', hp⟩ := Machine.Run.exists_of_exec_step
    (fun _ _ => true) (fun c l => !clientWrites 0 c l)
    (initial (.ofMacro { interruptor := .continue, signals := [some 0] }))
    (spawnOne ++ callSet 2 .interrupt ++ .step 2 true :: List.replicate 4 (.step 1 true) ++
      callSet 3 .disable)
    (.step 3 true) (List.replicate 3 (.step 1 true))
    (M := program) (P := fun c _ c' => storesDisable 0 c (.step 3 true) ∧
      (c'.shared.macros 0).interruptor = .continue)
    (by decide +kernel)
  obtain ⟨hstore, hcontinue⟩ := of_decide_eq_true hp
  have hdisable := hall _ tr c _ ev c' tr' c'' rfl h.weaken hstore hstep
    (h'.mono fun c l ok => by simpa using ok)
  rw [hcontinue] at hdisable
  cases hdisable

end Libmacro
