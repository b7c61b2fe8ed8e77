import Libmacro.Threads.ThreadLimit

/-! # The last worker of a sticky macro

An idle worker of a sticky macro leaves when it reads `threadCount() > 1`, and lowers the count
later, in `onRunComplete`. Two workers may both read that they have company, and both leave.
`sticky_keeps_worker`: in the runs in which each worker that leaves so leaves another one behind
that is not on its way out itself, the count never returns to 0. -/

namespace Libmacro

open Interleaving

/-- `run` is counted and has not decided to leave. -/
def RunPc.staying : RunPc → ℕ
  | count | consume _ (.set _) | uncount | release | notifyDone | finished => 0
  | _ => 1

/-- A worker of macro `m` is counted and has not decided to leave. -/
abbrev Thread.staying (m : MacroId) : Thread → ℕ :=
  onMacro m (fun _ => RunPc.staying) (fun _ => 0) (fun _ => 0)

/-- The signal a worker of macro `m` delivers does not throw. -/
def signalReturns (m : MacroId) (c : Config Memory Thread) : Label Thread Bool → Bool
  | .step i k =>
    match c.pool[i]? with
    | some (.worker m' _ (.delivering _)) => m' ≠ m ∨ k
    | _ => true
  | .call _ => true

/-- The macro is sticky and has a signal list. -/
structure StickySetup (mac : Macro) : Prop where
  /-- `sticky()`. -/
  sticky : mac.sticky = true
  /-- The list is not empty. -/
  signals : mac.signals ≠ []

/-- Clients start macro `m`, and do nothing else to it, while its interruptor is `v`; its signals
do not throw. -/
structure StartsOnly (m : MacroId) (v : Interrupt) (c : Config Memory Thread)
    (l : Label Thread Bool) : Prop where
  /-- The calls on the macro are starts. -/
  starts : onlyCalls m (· = .start) false l = true
  /-- The interruptor has not changed. -/
  interruptor : (c.shared.macros m).interruptor = v
  /-- No signal throws. -/
  returns : signalReturns m c l = true

/-- The condition is computed from the label of the step and the interruptor that it meets. -/
instance (m : MacroId) (v : Interrupt) (c : Config Memory Thread) (l : Label Thread Bool) :
    Decidable (StartsOnly m v c l) :=
  decidable_of_iff (onlyCalls m (· = .start) false l = true ∧ (c.shared.macros m).interruptor = v ∧
      signalReturns m c l = true)
    ⟨fun ⟨hstarts, hv, hreturns⟩ => ⟨hstarts, hv, hreturns⟩,
      fun h => ⟨h.starts, h.interruptor, h.returns⟩⟩

/-- A worker of macro `m` that finds itself surplus leaves another one behind, which is counted
and has not decided to leave. -/
def leavesAnother (m : MacroId) (c : Config Memory Thread) : Label Thread Bool → Bool
  | .step i _ =>
    match c.pool[i]? with
    | some (.worker m' _ .countTest) => m' ≠ m ∨
      ¬ toSigned (c.shared.macros m).threadCount > 1 ∨ 2 ≤ weight (Thread.staying m) c.pool
    | _ => true
  | .call _ => true

/-- The thread is no worker of macro `m`, and no start of it on its way to create one. -/
def Thread.dormant (m : MacroId) : Thread → Bool
  | worker m' _ _ => m' ≠ m
  | call m' (.start p) => m' ≠ m ∨ p = .lock ∨ p = .switch ∨ p = .cancel ∨ p = .cancelNotify ∨
      p = .leave
  | _ => true

section Edges

variable {mem : Memory} {m : MacroId} {i : ThreadId} {a : Access}

/-- Nothing is spawned while starts are turned away. -/
theorem StartPc.Step.dormant {w : ThreadId} {p : StartPc} {q : Option StartPc}
    {ts : List Thread} {ev : List Event} (h : p.Step mem m i w a q ts ev)
    (hv : Interrupt.interrupt.code ≤ (mem.macros m).interruptor.code)
    (hp : (Thread.call m (.start p)).dormant m = true) :
    ts = [] ∧ ∀ p', q = some p' → (Thread.call m (.start p')).dormant m = true := by
  cases h with
  | enabled h =>
    rcases h with h | h <;> rw [h] at hv <;> exact absurd hv (by decide)
  | lock | interrupted | disabled | cancel | cancelNotify =>
    exact ⟨rfl, fun p' hp' => by rw [← Option.some.inj hp']; simp [Thread.dormant]⟩
  | leave => exact ⟨rfl, fun p' hp' => by cases hp'⟩
  | _ => simp [Thread.dormant] at hp

/-- A worker that becomes counted stays. -/
theorem RunPc.Step.staying_of_counted {p p' : RunPc} {ev : List Event}
    (h : p.Step mem m i a p' ev) : p'.counted ≤ p.counted ∨ p'.staying = 1 := by
  cases h with
  | count => exact .inr rfl
  | notInterrupted h hp =>
    next inLoop p => cases inLoop <;> exact .inl (Nat.le_refl 1)
  | _ => exact .inl (by first | exact Nat.le_refl _ | exact Nat.zero_le _)

/-- **Who decides to leave**: with signals that do not throw and nothing interrupted, a sticky
worker leaves as surplus only. -/
theorem RunPc.Step.staying_le {p p' : RunPc} {ev : List Event} (h : p.Step mem m i a p' ev)
    (hv : (mem.macros m).interruptor.code < Interrupt.interrupt.code)
    (hsetup : StickySetup (mem.macros m))
    (hthrow : (∃ rest, p = .delivering rest) → p' ≠ .uncount) :
    p.staying ≤ p'.staying ∨ p = .countTest ∧ toSigned (mem.macros m).threadCount > 1 := by
  cases h with
  | interrupted h =>
    rw [h] at hv
    exact absurd hv (by decide)
  | noSignals h => exact absurd h hsetup.signals
  | loopBreak h =>
    exact absurd (lt_of_lt_of_le hv (le_trans (by decide) h)) (lt_irrefl _)
  | notSticky h =>
    rw [hsetup.sticky] at h
    cases h
  | surplus h => exact .inr ⟨rfl, h⟩
  | threw => exact absurd rfl (hthrow ⟨_, rfl⟩)
  | notInterrupted h hp =>
    next inLoop p =>
    rcases hp with ⟨rfl, -⟩ | ⟨rfl, -⟩ <;> cases inLoop <;> exact .inl (Nat.le_refl 1)
  | _ => exact .inl (by first | exact Nat.le_refl _ | exact Nat.zero_le _)

end Edges

/-- A step that the last access of a signal takes leads on, when the signal does not throw. -/
theorem ne_uncount_of_returns {c : Config Memory Thread} {m : MacroId} {i : ThreadId} {k : Bool}
    {o : Option ThreadId} {rest : List (Option SignalId)} {e : Effect Memory Thread Event}
    (hk : k = true) (h : program.move c i k (.worker m o (.delivering rest)) = some e) :
    e.next ≠ .worker m o .uncount := by
  subst hk
  obtain ⟨mem, -, rfl⟩ : ∃ mem, Access.skip.apply m c.shared = some mem ∧
      ⟨mem, .worker m o (.breakTest rest), [], []⟩ = e := Option.map_eq_some_iff.mp h
  intro heq
  cases heq

/-- `run` is counted while it stays. -/
theorem RunPc.staying_le_counted (p : RunPc) : p.staying ≤ p.counted := by
  cases p with
  | consume inLoop p => cases p <;> first | exact Nat.le_refl 1 | exact Nat.zero_le 1
  | _ => first | exact Nat.le_refl _ | exact Nat.zero_le _

/-- A worker that stays on in a sticky run is counted. -/
theorem Thread.staying_le_counted {m : MacroId} (t : Thread) : t.staying m ≤ t.counted m := by
  cases t with
  | worker m' o pc =>
    simp only [onMacro]
    split_ifs
    · exact pc.staying_le_counted
    · exact Nat.le_refl 0
  | reset | call => simp [onMacro]

section Run

variable {m : MacroId} {v : Interrupt} {c : Config Memory Thread} {i : ThreadId} {k : Bool}
  {t : Thread} {e : Effect Memory Thread Event}

/-- **One step** leaves a worker that stays, if there was one, and a worker that counts itself
stays. -/
theorem staying_step (hsetup : StickySetup (c.shared.macros m))
    (hv : v.code < Interrupt.interrupt.code) (hok : StartsOnly m v c (.step i k))
    (hleaves : leavesAnother m c (.step i k) = true) (ht : c.pool[i]? = some t)
    (he : program.move c i k t = some e) :
    (1 ≤ weight (Thread.staying m) c.pool →
      1 ≤ weight (Thread.staying m) (c.pool.set i e.next ++ e.spawned)) ∧
      (weight (Thread.counted m) c.pool <
          weight (Thread.counted m) (c.pool.set i e.next ++ e.spawned) →
        1 ≤ weight (Thread.staying m) (c.pool.set i e.next ++ e.spawned)) := by
  by_cases hm : t.macroId = m
  · subst hm
    obtain ⟨a, hs, -⟩ := step_of_program_move he
    have hstay := weight_set_append (Thread.staying t.macroId) e.next e.spawned ht
    have hcount := weight_set_append (Thread.counted t.macroId) e.next e.spawned ht
    have hmem := le_weight (Thread.staying t.macroId) (List.mem_of_getElem? ht)
    -- new threads are not counted yet
    have hspawned : weight (Thread.staying t.macroId) e.spawned = 0 ∧
        weight (Thread.counted t.macroId) e.spawned = 0 := by
      constructor
      · refine weight_eq_zero_iff.mpr fun u hu => ?_
        rcases hs.of_mem_spawned hu with rfl | rfl <;> simp [RunPc.staying]
      · refine weight_eq_zero_iff.mpr fun u hu => ?_
        rcases hs.of_mem_spawned hu with rfl | rfl <;> simp [RunPc.counted]
    rw [hspawned.1] at hstay
    rw [hspawned.2] at hcount
    generalize hu : e.next = u, e.spawned = ts, e.events = ev at hs hstay hcount ⊢
    cases hs with
    | @worker m o p p' a ev h =>
      simp only [Thread.macroId, Thread.onMacro_worker] at hstay hcount hmem ⊢
      have hthrow : (∃ rest, p = .delivering rest) → p' ≠ .uncount := by
        rintro ⟨rest, rfl⟩ rfl
        have hk : k = true := by simpa [signalReturns, ht] using hok.returns
        exact ne_uncount_of_returns hk he hu
      have hcounted := h.staying_of_counted
      rcases h.staying_le (hok.interruptor ▸ hv) hsetup hthrow with hle | ⟨rfl, hcompany⟩
      · omega
      · -- the worker that leaves is one of two that stayed
        have htwo : 2 ≤ weight (Thread.staying m) c.pool := by
          have hcompany' : ¬ toSigned (c.shared.macros m).threadCount ≤ 1 := by
            exact Int.not_le.mpr hcompany
          simpa [leavesAnother, ht, hcompany'] using hleaves
        have hone : RunPc.countTest.staying = 1 := rfl
        omega
    | reset h =>
      simp only [Thread.macroId, Thread.onMacro_reset] at hstay hcount ⊢
      omega
    | call h =>
      simp only [Thread.macroId, Thread.onMacro_call] at hstay hcount ⊢
      omega
  · rw [weight_onMacro_of_ne ht he hm, weight_onMacro_of_ne ht he hm]
    exact ⟨id, fun hlt => absurd hlt (lt_irrefl _)⟩

/-- Threads of other macros are none of `m`. -/
theorem Thread.dormant_of_ne (h : t.macroId ≠ m) : t.dormant m = true := by
  cases t with
  | worker m' o pc => exact decide_eq_true h
  | reset => rfl
  | call m' pc =>
    cases pc with
    | start p => exact decide_eq_true (.inl h)
    | _ => rfl

/-- **A macro that turns starts away gets no worker.** -/
theorem dormant_step (hv : Interrupt.interrupt.code ≤ (c.shared.macros m).interruptor.code)
    (hdormant : t.dormant m = true) (he : program.move c i k t = some e) :
    e.next.dormant m = true ∧ ∀ u ∈ e.spawned, u.dormant m = true := by
  obtain ⟨a, hs, -⟩ := step_of_program_move he
  by_cases hm : t.macroId = m
  · generalize e.next = u, e.spawned = ts, e.events = ev at hs ⊢
    cases hs with
    | worker => exact absurd hm (of_decide_eq_true hdormant)
    | reset => exact ⟨rfl, fun u hu => by cases hu⟩
    | call h =>
      obtain rfl : _ = m := hm
      cases h with
      | start h =>
        -- at `INTERRUPT` or above a start creates no worker
        obtain ⟨rfl, hnext⟩ := h.dormant hv hdormant
        exact ⟨hnext _ rfl, fun u hu => by cases hu⟩
      | started h =>
        obtain ⟨rfl, -⟩ := h.dormant hv hdormant
        exact ⟨rfl, fun u hu => by cases hu⟩
      | setInterruptor h => cases h <;> exact ⟨rfl, fun u hu => by cases hu⟩
      | setDone h =>
        cases h with
        | spawnReset => exact ⟨rfl, fun u hu => by rw [List.mem_singleton.mp hu]; rfl⟩
        | _ => exact ⟨rfl, fun u hu => by cases hu⟩
      | _ => exact ⟨rfl, fun u hu => by cases hu⟩
  · obtain ⟨hnext, hspawned⟩ := macroId_of_ne he hm
    exact ⟨Thread.dormant_of_ne hnext, fun u hu => Thread.dormant_of_ne (hspawned u hu)⟩

end Run

section

variable {m : MacroId} {v : Interrupt} {mem : Memory} {c c' : Config Memory Thread}
  {tr tr' : List Event}

/-- The setup of a macro stays when clients only start it. -/
theorem sameConfig_of_starts {allowed : Config Memory Thread → Label Thread Bool → Prop}
    (hallowed : ∀ c l, allowed c l → onlyCalls m (· = .start) false l = true)
    (h : program.Run allowed (initial mem) tr c) :
    Access.SameConfig (mem.macros m) (c.shared.macros m) := by
  have hrun := h.and_invariant (I := fun c => ∀ t ∈ c.pool, t.only m (· = .start) false = true)
    fun h => only_of_run hallowed (by simp) h
  refine Machine.Run.invariant (P := fun _ c =>
    Access.SameConfig (mem.macros m) (c.shared.macros m)) (.refl _) ?_ ?_ hrun
  · intro _ c t ev hconfig _ _
    exact hconfig
  · rintro _ c i k t e hconfig ⟨-, honly⟩ ht he
    by_cases hm : t.macroId = m
    · obtain ⟨a, hs, ha⟩ := step_of_program_move he
      subst hm
      exact hconfig.trans (hs.sameConfig ha (honly t (List.mem_of_getElem? ht)) rfl rfl rfl)
    · rw [macros_of_ne he hm]
      exact hconfig

/-- No worker is counted in a macro that turns starts away. -/
theorem threadCount_eq_zero_of_dormant (hv : Interrupt.interrupt.code ≤ v.code)
    (hinit : (mem.macros m).threadCount = 0)
    (h : program.Run (fun c l => StartsOnly m v c l ∧ leavesAnother m c l) (initial mem) tr c) :
    (c.shared.macros m).threadCount = 0 := by
  have hdormant : ∀ t ∈ c.pool, t.dormant m = true := by
    refine Machine.Run.forall_mem (by simp) ?_ ?_ h
    · rintro c t ev ⟨hstarts, -⟩ he
      rcases Thread.entry_cases he with ⟨m', rfl, -⟩ | ⟨m', rfl, -⟩ | ⟨m', pc, rfl, -, hpc⟩
      · simpa [onlyCalls, Thread.only, Thread.dormant] using hstarts.starts
      · simp [Thread.dormant]
      · cases hpc <;> rfl
    · rintro c i k t e hdormant ⟨hstarts, -⟩ - he
      exact dormant_step (by rw [hstarts.interruptor]; exact hv) hdormant he
  rw [threadCount_eq_weight (fun _ _ ok => ok.1.starts) rfl rfl hinit h, weight_eq_zero_iff]
  intro t ht
  have ht' := hdormant t ht
  cases t with
  | worker m' o pc => exact Thread.onMacro_of_ne (of_decide_eq_true ht')
  | reset | call => simp [Thread.onMacro]

/-- A sticky macro that is only started stays as it was set up. -/
theorem stickySetup_of_run (hsetup : StickySetup (mem.macros m))
    (h : program.Run (fun c l => StartsOnly m v c l ∧ leavesAnother m c l) (initial mem) tr c) :
    StickySetup (c.shared.macros m) := by
  have hconfig := sameConfig_of_starts (fun _ _ ok => ok.1.starts) h
  refine ⟨hconfig.sticky.trans hsetup.sticky, ?_⟩
  rw [hconfig.signals]
  exact hsetup.signals

/-- **While a worker is counted, one stays**: those on their way out are never all. -/
theorem staying_of_counted (hsetup : StickySetup (mem.macros m))
    (hv : v.code < Interrupt.interrupt.code)
    (h : program.Run (fun c l => StartsOnly m v c l ∧ leavesAnother m c l) (initial mem) tr c)
    (hcounted : 1 ≤ weight (Thread.counted m) c.pool) : 1 ≤ weight (Thread.staying m) c.pool := by
  refine Machine.Run.invariant (P := fun _ c => 1 ≤ weight (Thread.counted m) c.pool →
    1 ≤ weight (Thread.staying m) c.pool) (by simp) ?_ ?_
    (h.and_invariant (stickySetup_of_run hsetup)) hcounted
  · -- the thread of a call is not counted
    intro _ c t ev hinv _ he hcounted
    rw [weight_append, weight_cons, weight_nil, counted_of_entry he, Nat.zero_add] at hcounted
    rw [weight_append]
    exact Nat.le_add_right_of_le (hinv hcounted)
  · intro _ c i k t e hinv ok ht he hcounted
    obtain ⟨hkeeps, hraised⟩ := staying_step ok.2 hv ok.1.1 ok.1.2 ht he
    by_cases hbefore : 1 ≤ weight (Thread.counted m) c.pool
    · exact hkeeps (hinv hbefore)
    · exact hraised (by simp only at hcounted; omega)

/-- **A sticky macro keeps a worker**: with signals that do not throw, started only and not
interrupted, its count does not return to 0 once it has been 1, in the runs in which every worker
that finds itself surplus leaves another one behind. -/
theorem sticky_keeps_worker (hsetup : StickySetup (mem.macros m))
    (hinit : (mem.macros m).threadCount = 0)
    (h : program.Run (fun c l => StartsOnly m v c l ∧ leavesAnother m c l) (initial mem) tr c)
    (hone : 1 ≤ (c.shared.macros m).threadCount)
    (h' : program.Run (fun c l => StartsOnly m v c l ∧ leavesAnother m c l) c tr' c') :
    1 ≤ (c'.shared.macros m).threadCount := by
  have hcount : ∀ {tr c}, program.Run (fun c l => StartsOnly m v c l ∧ leavesAnother m c l)
      (initial mem) tr c → (c.shared.macros m).threadCount = weight (Thread.counted m) c.pool :=
    threadCount_eq_weight (fun _ _ ok => ok.1.starts) rfl rfl hinit
  by_cases hv : Interrupt.interrupt.code ≤ v.code
  · -- nothing is ever counted
    have hzero := threadCount_eq_zero_of_dormant hv hinit h
    omega
  · have hstays : 1 ≤ weight (Thread.staying m) c'.pool := by
      refine Machine.Run.invariant (P := fun _ c => 1 ≤ weight (Thread.staying m) c.pool)
        (staying_of_counted hsetup (Nat.not_le.mp hv) h (hcount h ▸ hone)) ?_ ?_
        (h'.and_invariant fun h' => stickySetup_of_run hsetup (h.trans h'))
      · intro _ c t ev hstays _ _
        rw [weight_append]
        exact Nat.le_add_right_of_le hstays
      · intro _ c i k t e hstays ok ht he
        exact (staying_step ok.2 (Nat.not_le.mp hv) ok.1.1 ok.1.2 ht he).1 hstays
    -- who stays is counted
    rw [hcount (h.trans h')]
    refine hstays.trans (weight_le_weight fun t _ => ?_)
    exact t.staying_le_counted

end

/-- A sticky macro with room for two workers, whose list is a null signal. -/
def stickyMacro : Macro :=
  { interruptor := .continue, sticky := true, threadMax := 2, signals := [none] }

/-- Of two counted workers the first finds itself surplus and leaves. -/
theorem sticky_keeps_worker_second : ∃ tr c tr' c',
    (program.Run (fun c l => StartsOnly 0 .continue c l ∧ leavesAnother 0 c l)
        (initial (.ofMacro stickyMacro)) tr c ∧
      program.Run (fun c l => StartsOnly 0 .continue c l ∧ leavesAnother 0 c l) c tr' c') ∧
      ((c.shared.macros 0).threadCount = 2 ∧ (c'.shared.macros 0).threadCount = 1) ∧
      1 ≤ (c'.shared.macros 0).threadCount := by
  obtain ⟨tr, c, tr', c', h, h', hcount⟩ := Machine.Run.exists_of_exec_exec
    (fun c l => decide (StartsOnly 0 .continue c l) && leavesAnother 0 c l)
    (fun c l => decide (StartsOnly 0 .continue c l) && leavesAnother 0 c l)
    (initial (.ofMacro stickyMacro)) (startTwice 12) (List.replicate 36 (.step 1 true))
    (M := program) (P := fun c c' => (c.shared.macros 0).threadCount = 2 ∧
      (c'.shared.macros 0).threadCount = 1) (by decide +kernel)
  have hok : ∀ (c : Config Memory Thread) l,
      (decide (StartsOnly 0 .continue c l) && leavesAnother 0 c l) = true →
      StartsOnly 0 .continue c l ∧ leavesAnother 0 c l = true := by
    intro c l hok
    simpa using hok
  obtain ⟨htwo, hone⟩ := of_decide_eq_true hcount
  exact ⟨tr, c, tr', c', ⟨h.mono hok, h'.mono hok⟩, ⟨htwo, hone⟩,
    sticky_keeps_worker ⟨rfl, by decide⟩ rfl (h.mono hok) (by omega) (h'.mono hok)⟩

/-- **The last two workers leave together**: each reads the count 2, and both go. -/
theorem not_sticky_keeps_worker_two : ¬ ∀ mem tr c tr' c', StickySetup (mem.macros 0) →
    (mem.macros 0).threadCount = 0 →
    program.Run (fun c l => StartsOnly 0 .continue c l) (initial mem) tr c →
    1 ≤ (c.shared.macros 0).threadCount →
    program.Run (fun c l => StartsOnly 0 .continue c l) c tr' c' →
    1 ≤ (c'.shared.macros 0).threadCount := by
  intro hall
  obtain ⟨tr, c, tr', c', h, h', hcount⟩ := Machine.Run.exists_of_exec_exec
    (fun c l => decide (StartsOnly 0 .continue c l))
    (fun c l => decide (StartsOnly 0 .continue c l))
    (initial (.ofMacro stickyMacro))
    (startTwice 12 ++ List.replicate 34 (.step 1 true) ++ List.replicate 8 (.step 3 true))
    [.step 1 true, .step 3 true, .step 1 true, .step 3 true]
    (M := program) (P := fun c c' => (c.shared.macros 0).threadCount = 2 ∧
      (c'.shared.macros 0).threadCount = 0) (by decide +kernel)
  obtain ⟨htwo, hzero⟩ := of_decide_eq_true hcount
  have hone := hall _ tr c tr' c' ⟨rfl, by decide⟩ rfl (h.mono fun _ _ => of_decide_eq_true)
    (by omega) (h'.mono fun _ _ => of_decide_eq_true)
  omega

end Libmacro
