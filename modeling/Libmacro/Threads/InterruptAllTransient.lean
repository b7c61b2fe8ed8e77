import Libmacro.Threads.DisableKept

/-! # `INTERRUPT_ALL` is transient

A macro left in `INTERRUPT_ALL` needs a reset thread that will set it to `CONTINUE`, or a call
about to create one (`Thread.pendingReset`). Three steps can break this: a reset thread that found
`DISABLE` writes `INTERRUPT_ALL` and does not take it back, `copy` takes the value over from its
source without the reset thread, and the thread may not be created. In runs where none of them
does while nothing else is pending, a pending reset thread is always there
(`interruptAll_transient`). -/

namespace Libmacro

open Interleaving

/-- **The reset thread will set `CONTINUE`**: its store, or a test that finds the value there, is
still to come. Having read `DISABLE` it will not. -/
def ResetPc.resumesLater : ResetPc → Bool
  | readPrev | set .readPrev | set (.compare _) | set (.store _) => true
  | dequeue prev _ | runningTest prev | clear prev _ | prevTest prev => prev ≠ .disable
  | set (.apply _ _) | set (.spawnReset _) | finished => false

/-- The call is about to create a reset thread. -/
def CallPc.createsReset : CallPc → Bool
  | setInterruptor _ (.apply spawnResetThread _) => spawnResetThread
  | setInterruptor _ (.spawnReset _) => true
  | _ => false

/-- A reset of macro `m` to `CONTINUE` is pending in the thread. -/
def Thread.pendingReset (m : MacroId) : Thread → Bool
  | reset m' _ pc => m' == m && pc.resumesLater
  | call m' pc => m' == m && pc.createsReset
  | worker _ _ _ => false

/-- The thread is a client's call on macro `m` that has not returned. -/
def Thread.inCall (m : MacroId) : Thread → Bool
  | call m' pc => m' == m && !(call m' pc).ended
  | _ => false

/-- A reset thread has a reset pending when it is one of this macro that still comes to set
`CONTINUE`. -/
theorem Thread.pendingReset_reset {m m' : MacroId} {o : ThreadId} {pc : ResetPc} :
    (reset m' o pc).pendingReset m = true ↔ m' = m ∧ pc.resumesLater = true := by
  rw [pendingReset, Bool.and_eq_true, beq_iff_eq]

/-- A call has one pending when it is a call on this macro that is about to create a reset
thread. -/
theorem Thread.pendingReset_call {m m' : MacroId} {pc : CallPc} :
    (call m' pc).pendingReset m = true ↔ m' = m ∧ pc.createsReset = true := by
  rw [pendingReset, Bool.and_eq_true, beq_iff_eq]

/-- A reset of the macro is pending in another thread than `i`. -/
def othersPending (m : MacroId) (c : Config Memory Thread) (i : ThreadId) : Bool :=
  (c.pool.eraseIdx i).any (Thread.pendingReset m)

/-- **The step leaves no `INTERRUPT_ALL` behind.** Without another pending reset, a reset thread of
the macro that has found `DISABLE` writes nothing, `copy` assigns from no macro in
`INTERRUPT_ALL`, and the creation of a reset thread does not fail in `INTERRUPT_ALL`. -/
def leavesNone (m : MacroId) (c : Config Memory Thread) : Label Thread Bool → Bool
  | .call _ => true
  | .step i k =>
    match c.pool[i]? with
    | some (.reset m' _ (.dequeue .disable .interruptor))
    | some (.reset m' _ (.clear .disable (.dequeue .interruptor))) =>
      m' != m || othersPending m c i
    | some (.call m' (.copy other .assign)) =>
      m' != m || (c.shared.macros other).interruptor != .interruptAll || othersPending m c i
    | some (.call m' (.setInterruptor _ (.spawnReset _))) =>
      m' != m || k || (c.shared.macros m).interruptor != .interruptAll || othersPending m c i
    | _ => true

section Edges

variable {mac : Macro} {mem : Memory} {m : MacroId} {i o : ThreadId} {a : Access}
  {pool : List Thread}

/-- **A pending reset thread stays pending** while the macro is in `INTERRUPT_ALL`, up to the store
of `CONTINUE`. -/
theorem ResetPc.Step.resumesLater {p p' : ResetPc} {ev : List Event}
    (h : p.Step pool mac m i o a p' ev) (hp : p.resumesLater = true)
    (hmac : mac.interruptor = .interruptAll) :
    p'.resumesLater = true ∨ a = .storeInterruptor .continue := by
  cases h with
  | readPrev =>
    -- it reads `INTERRUPT_ALL`, and so not `DISABLE`
    rw [hmac]
    exact Or.inl rfl
  | dequeue | dequeued | running | notRunning | clear | cleared => exact Or.inl hp
  | restore => exact Or.inl rfl
  | keep => cases hp
  | set h =>
    cases h with
    | readPrev | differs => exact Or.inl rfl
    | storeApply | storeReset => exact Or.inr rfl
    | applyReset => cases hp
  | setDone h =>
    cases h with
    | same h =>
      rw [hmac] at h
      cases h
    | storeDone => exact Or.inr rfl
    | applyDone => cases hp

/-- It does so where it writes `INTERRUPT_ALL` itself. -/
theorem ResetPc.Step.resumesLater_of_write {p p' : ResetPc} {ev : List Event}
    (h : p.Step pool mac m i o a p' ev) (hp : p.resumesLater = true)
    (ha : a = .writeInterruptor .interruptAll) : p'.resumesLater = true := by
  cases h with
  | dequeue | dequeued | clear | cleared => exact hp
  | set h | setDone h => cases h <;> cases ha
  | _ => cases ha

/-- A call about to create a reset thread goes on to do so, or fails. -/
theorem SetPc.Step.createsReset {val : Interrupt} {p : SetPc val} {q : Option (SetPc val)}
    {ts : List Thread} {ev : List Event} (h : p.Step m mac i a q ts ev)
    (hp : (CallPc.setInterruptor val p).createsReset = true) :
    (∃ hval, q = some (.spawnReset hval)) ∨ ∃ hval, p = .spawnReset hval ∧ q = none := by
  cases h with
  | applyReset => exact Or.inl ⟨_, rfl⟩
  | spawnReset | spawnFails => exact Or.inr ⟨_, rfl, rfl⟩
  | _ => cases hp

/-- A store that leaves `INTERRUPT_ALL` leads to the creation of a reset thread. -/
theorem SetPc.Step.createsReset_of_store {val prev : Interrupt} {q : Option (SetPc val)}
    {ts : List Thread} {ev : List Event}
    (h : SetPc.Step m mac i (.store prev) a q ts ev)
    (hval : mac.interruptorAfter val = .interruptAll) :
    ∃ p', q = some p' ∧ (CallPc.setInterruptor val p').createsReset = true := by
  have hsnd : (mac.storeInterruptor val).2 = true := by
    rw [Macro.interruptorAfter] at hval
    split_ifs at hval with hidle
    rw [Macro.storeInterruptor_snd, hval, Bool.and_eq_true, Macro.running_iff]
    exact ⟨decide_eq_true rfl, fun hzero => hidle ⟨hval, hzero⟩⟩
  cases h with
  | storeApply => exact ⟨_, rfl, hsnd⟩
  | storeReset => exact ⟨_, rfl, rfl⟩
  | storeDone _ hs =>
    rw [hsnd] at hs
    cases hs

end Edges

section Run

variable {m : MacroId} {mem : Memory} {c : Config Memory Thread} {tr : List Event}
  {i : ThreadId} {k : Bool} {t : Thread} {e : Effect Memory Thread Event} {a : Access}

/-- Another thread's pending reset stays pending. -/
theorem exists_of_othersPending {t' : Thread} {ts : List Thread} (ht : c.pool[i]? = some t)
    (h : othersPending m c i = true) :
    ∃ u ∈ c.pool.set i t' ++ ts, u.pendingReset m = true := by
  obtain ⟨u, hu, hpending⟩ := List.any_eq_true.mp h
  obtain ⟨j, hj, hget⟩ := List.mem_eraseIdx_iff_getElem?.mp hu
  have hstays := getElem?_set_append t' ts ht hget
  rw [if_neg hj] at hstays
  exact ⟨u, List.mem_of_getElem? hstays, hpending⟩

/-- A pending reset is the thread's own or another's. -/
theorem pendingReset_or_others (ht : c.pool[i]? = some t)
    (h : ∃ u ∈ c.pool, u.pendingReset m = true) :
    t.pendingReset m = true ∨ othersPending m c i = true := by
  obtain ⟨u, hu, hpending⟩ := h
  obtain ⟨j, hj⟩ := List.mem_iff_getElem?.mp hu
  by_cases hij : j = i
  · rw [hij, ht] at hj
    rw [Option.some.inj hj]
    exact Or.inl hpending
  · right
    exact List.any_eq_true.mpr ⟨u, List.mem_eraseIdx_iff_getElem?.mpr ⟨j, hij, hj⟩, hpending⟩

/-- The creation of a reset thread that does not fail. -/
theorem spawned_of_spawnReset {val : Interrupt} {hval : val = .interruptAll}
    (he : program.move c i true (.call m (.setInterruptor val (.spawnReset hval))) = some e) :
    e.spawned = [.reset m i .readPrev] := by
  generalize ht : Thread.call m (.setInterruptor val (.spawnReset hval)) = t at he
  obtain ⟨mv, hmv, hmap⟩ := Option.bind_eq_some_iff.mp he
  obtain ⟨mem, -, rfl⟩ := Option.map_eq_some_iff.mp hmap
  subst ht
  rw [← Option.some.inj hmv]
  rfl

/-- A thread's own pending reset is handed on while the macro stays in `INTERRUPT_ALL`. -/
theorem exists_of_pendingReset (hok : leavesNone m c (.step i k) = true) (ht : c.pool[i]? = some t)
    (hs : t.Step c i ⟨a, e.next, e.spawned, e.events⟩) (he : program.move c i k t = some e)
    (ha : a.apply t.macroId c.shared = some e.shared) (hpending : t.pendingReset m = true)
    (hbefore : (c.shared.macros m).interruptor = .interruptAll)
    (hafter : (e.shared.macros m).interruptor = .interruptAll) :
    ∃ u ∈ c.pool.set i e.next ++ e.spawned, u.pendingReset m = true := by
  have hnext := mem_set_append_self e.next e.spawned ht
  cases t with
  | worker => cases hpending
  | reset m' o p =>
    obtain ⟨rfl, hp⟩ := Thread.pendingReset_reset.mp hpending
    generalize e.next = u, e.spawned = ts, e.events = ev at hs hnext ⊢
    cases hs with
    | reset h =>
      rcases h.resumesLater hp hbefore with hlater | hstore
      · exact ⟨_, hnext, Thread.pendingReset_reset.mpr ⟨rfl, hlater⟩⟩
      · -- `CONTINUE` was stored
        rw [hstore] at ha
        have hwrite := Access.apply_interruptor ha
        rw [show (e.shared.macros m').interruptor = _ from hwrite] at hafter
        simp [Macro.interruptorAfter] at hafter
  | call m' p =>
    obtain ⟨rfl, hp⟩ := Thread.pendingReset_call.mp hpending
    have hcreated : k = true → ∀ val hval, p = .setInterruptor val (.spawnReset hval) →
        e.spawned = [.reset m' i .readPrev] := by
      rintro rfl val hval rfl
      exact spawned_of_spawnReset he
    generalize e.next = u, e.spawned = ts, e.events = ev at hs hnext hcreated ⊢
    cases hs with
    | call h =>
      cases h with
      | setInterruptor h =>
        rcases h.createsReset hp with ⟨hval, hq⟩ | ⟨-, -, hq⟩
        · -- the creation is next
          refine ⟨_, hnext, Thread.pendingReset_call.mpr ⟨rfl, ?_⟩⟩
          rw [Option.some.inj hq]
          rfl
        · cases hq
      | setDone h =>
        cases h with
        | spawnReset =>
          refine ⟨_, List.mem_append_right _ (List.mem_singleton_self _), ?_⟩
          exact Thread.pendingReset_reset.mpr ⟨rfl, rfl⟩
        | spawnFails =>
          -- the creation fails while another reset is pending
          cases k with
          | true => exact absurd (hcreated rfl _ _ rfl).symm (List.cons_ne_nil _ _)
          | false =>
            refine exists_of_othersPending ht ?_
            rw [leavesNone, ht] at hok
            simpa [hbefore] using hok
        | _ => cases hp
      | _ => cases hp

/-- A step that turns the interruptor to `INTERRUPT_ALL` leaves a pending reset. -/
theorem exists_of_writer (hok : leavesNone m c (.step i k) = true) (ht : c.pool[i]? = some t)
    (hs : t.Step c i ⟨a, e.next, e.spawned, e.events⟩)
    (ha : a.apply t.macroId c.shared = some e.shared) (hm : t.macroId = m)
    (hbefore : (c.shared.macros m).interruptor ≠ .interruptAll)
    (hafter : (e.shared.macros m).interruptor = .interruptAll) :
    ∃ u ∈ c.pool.set i e.next ++ e.spawned, u.pendingReset m = true := by
  subst hm
  have hnext := mem_set_append_self e.next e.spawned ht
  have hwrite := Access.apply_interruptor ha
  rw [hafter] at hwrite
  rcases hs.writer with hw | hw
  · rw [Access.interruptor_eq ha hw] at hafter
    exact absurd hafter hbefore
  · cases hw with
    | cancel | copy | destroy => cases hwrite
    | consume | reset =>
      -- what is stored is `CONTINUE`
      simp [Macro.interruptorAfter] at hwrite
    | @call m val prev =>
      generalize e.next = u, e.spawned = ts, e.events = ev at hs hnext ⊢
      cases hs with
      | call h =>
        cases h with
        | setInterruptor h =>
          obtain ⟨p', hp', hcreates⟩ := h.createsReset_of_store hwrite.symm
          refine ⟨_, hnext, Thread.pendingReset_call.mpr ⟨rfl, ?_⟩⟩
          rw [Option.some.inj hp']
          exact hcreates
        | setDone h =>
          obtain ⟨p', hp', -⟩ := h.createsReset_of_store hwrite.symm
          cases hp'
    | @resetDequeue m o prev | @resetClear m o prev =>
      by_cases hprev : prev = .disable
      · -- it will not take the value back
        subst hprev
        refine exists_of_othersPending ht ?_
        rw [leavesNone, ht] at hok
        simpa using hok
      · generalize e.next = u, e.spawned = ts, e.events = ev at hs hnext ⊢
        cases hs with
        | reset h =>
          have hlater := h.resumesLater_of_write (decide_eq_true hprev) rfl
          exact ⟨_, hnext, Thread.pendingReset_reset.mpr ⟨rfl, hlater⟩⟩
    | @assign m other =>
      -- the source was in `INTERRUPT_ALL`
      refine exists_of_othersPending ht ?_
      rw [leavesNone, ht] at hok
      simpa [hwrite.symm] using hok

/-- **A reset is always pending** in `INTERRUPT_ALL`, its creation included. -/
theorem exists_pendingReset {mem : Memory} (hinit : (mem.macros m).interruptor ≠ .interruptAll)
    (h : program.Run (fun c l => leavesNone m c l) (initial mem) tr c)
    (hint : (c.shared.macros m).interruptor = .interruptAll) :
    ∃ u ∈ c.pool, u.pendingReset m = true := by
  refine Machine.Run.invariant (P := fun _ c =>
    (c.shared.macros m).interruptor = .interruptAll → ∃ u ∈ c.pool, u.pendingReset m = true)
    ?_ ?_ ?_ h hint
  · exact fun hint => absurd hint hinit
  · intro _ c t ev hc _ _ hint
    obtain ⟨u, hu, hpending⟩ := hc hint
    exact ⟨u, List.mem_append_left _ hu, hpending⟩
  · intro _ c i k t e hc hok ht he hafter
    obtain ⟨a, hs, ha⟩ := step_of_program_move he
    by_cases hbefore : (c.shared.macros m).interruptor = .interruptAll
    · rcases pendingReset_or_others ht (hc hbefore) with hown | hothers
      · exact exists_of_pendingReset hok ht hs he ha hown hbefore hafter
      · exact exists_of_othersPending ht hothers
    · by_cases hm : t.macroId = m
      · exact exists_of_writer hok ht hs ha hm hbefore hafter
      · -- another macro's thread does not write it
        have hsame : (e.shared.macros m).interruptor = (c.shared.macros m).interruptor := by
          rw [macros_of_ne he hm]
        exact absurd (hsame.symm.trans hafter) hbefore

/-- **`INTERRUPT_ALL` is transient**: in every run whose steps leave none behind, a macro on which
no call is in progress is in `INTERRUPT_ALL` only while a reset thread of it will set
`CONTINUE`. -/
theorem interruptAll_transient {mem : Memory}
    (hinit : (mem.macros m).interruptor ≠ .interruptAll)
    (h : program.Run (fun c l => leavesNone m c l) (initial mem) tr c)
    (hidle : ∀ t ∈ c.pool, t.inCall m = false)
    (hint : (c.shared.macros m).interruptor = .interruptAll) :
    ∃ o pc, .reset m o pc ∈ c.pool ∧ pc.resumesLater = true := by
  obtain ⟨u, hu, hpending⟩ := exists_pendingReset hinit h hint
  cases u with
  | worker => cases hpending
  | reset m' o pc =>
    obtain ⟨rfl, hlater⟩ := Thread.pendingReset_reset.mp hpending
    exact ⟨o, pc, hu, hlater⟩
  | call m' pc =>
    obtain ⟨rfl, hcreates⟩ := Thread.pendingReset_call.mp hpending
    have hreturned := hidle _ hu
    rw [Thread.inCall, beq_self_eq_true, Bool.true_and, Bool.not_eq_false'] at hreturned
    cases pc with
    | returned => cases hcreates
    | _ => cases hreturned

end Run

/-- While worker 1 runs, `INTERRUPT_ALL` is set; the call has returned. -/
theorem interruptAll_transient_worker : ∃ tr c,
    program.Run (fun c l => leavesNone 0 c l)
      (initial (.ofMacro { interruptor := .continue })) tr c ∧
      (c.shared.macros 0).interruptor = .interruptAll ∧
      ∃ o pc, .reset 0 o pc ∈ c.pool ∧ pc.resumesLater = true := by
  obtain ⟨tr, c, h, hp⟩ := Machine.Run.exists_of_exec (leavesNone 0)
    (initial (.ofMacro { interruptor := .continue }))
    (spawnOne ++ .step 1 true :: callSet 2 .interruptAll ++ List.replicate 2 (.step 2 true))
    (M := program) (P := fun _ c => (c.shared.macros 0).interruptor = .interruptAll ∧
      ∀ t ∈ c.pool, t.inCall 0 = false) (by decide +kernel)
  obtain ⟨hint, hidle⟩ := of_decide_eq_true hp
  exact ⟨tr, c, h, hint, interruptAll_transient (by decide) h hidle hint⟩

/-- **A macro left in `INTERRUPT_ALL`**: it is disabled before the reset thread of an
`INTERRUPT_ALL` reads the previous value; that thread writes `INTERRUPT_ALL` over `DISABLE` and
ends. All threads have ended. -/
theorem not_interruptAll_transient_disabled : ¬ ∀ mem tr c,
    (mem.macros 0).interruptor ≠ .interruptAll →
    program.Run (fun _ _ => True) (initial mem) tr c →
    (∀ t ∈ c.pool, t.inCall 0 = false) →
    (c.shared.macros 0).interruptor = .interruptAll →
      ∃ o pc, .reset 0 o pc ∈ c.pool ∧ pc.resumesLater = true := by
  intro hall
  obtain ⟨tr, c, h, hp⟩ := Machine.Run.exists_of_exec (fun _ _ => true)
    (initial (.ofMacro { interruptor := .continue, context := some 0 }))
    (spawnOne ++ .step 1 true :: callSet 2 .interruptAll ++ List.replicate 2 (.step 2 true) ++
      callSet 4 .disable ++ List.replicate 2 (.step 4 true) ++ List.replicate 4 (.step 3 true) ++
      List.replicate 6 (.step 1 true) ++ List.replicate 2 (.step 3 true))
    (M := program) (P := fun _ c => (c.shared.macros 0).interruptor = .interruptAll ∧
      (∀ t ∈ c.pool, t.inCall 0 = false) ∧ ∀ t ∈ c.pool, t.ended = true) (by decide +kernel)
  obtain ⟨hint, hidle, hended⟩ := of_decide_eq_true hp
  obtain ⟨o, pc, hreset, hlater⟩ := hall _ tr c (by decide) h.weaken hidle hint
  have hover := hended _ hreset
  cases pc with
  | finished => cases hlater
  | _ => cases hover

end Libmacro
