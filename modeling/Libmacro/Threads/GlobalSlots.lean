import Libmacro.Threads.Counters

/-! # The global thread limit

`g_activeThreadCount` is raised where `trySpawnThread` reserves a slot and lowered on its failure
paths and in `onRunComplete`. A worker gives back the slot that was reserved for it; a direct call
of `run` reserves none and gives one back all the same, unless the counter is 0.
`run_accounted_iff_paired`: the runs in which the counter is right in every state are exactly the
runs in which no direct call takes a slot away. -/

namespace Libmacro

open Interleaving

/-- A spawned worker that has not executed the global decrement of `onRunComplete`. -/
def Thread.live : Thread → ℕ
  | worker _ (some _) .notifyDone | worker _ (some _) .finished => 0
  | worker _ (some _) _ => 1
  | _ => 0

/-- `start` has reserved a slot and has neither spawned a worker nor released it. -/
def StartPc.reserved : StartPc → ℕ
  | incTest | increment | incLimit _ | retTest | zeroTest | refuse | spawn | abandon => 1
  | _ => 0

/-- A thread with a reserved slot: a spawn attempt between the reservation and the creation of its
worker, or its failure. -/
def Thread.reserved : Thread → ℕ
  | call _ (.start p) => p.reserved
  | _ => 0

/-- The number of spawned workers still to give back their slot. -/
def liveWorkers (c : Config Memory Thread) : ℕ := weight Thread.live c.pool

/-- The number of spawn attempts that hold a slot for which there is no worker yet. -/
def reservedSlots (c : Config Memory Thread) : ℕ := weight Thread.reserved c.pool

/-- **Global accounting**: the counter is the number of live workers and reserved slots, and the
live workers are within the limit. -/
def Accounted (c : Config Memory Thread) : Prop :=
  c.shared.activeThreadCount = liveWorkers c + reservedSlots c ∧
    liveWorkers c ≤ c.shared.threadLimit

/-- No client calls `setGlobalThreadLimit`, the one function that changes `g_threadMax`. -/
def fixedLimit : Label Thread Bool → Bool
  | .call (.call _ (.setGlobalThreadLimit _)) => false
  | _ => true

/-- A step that is the global decrement of a direct call of `run` finds the counter at 0. -/
def pairedRelease (c : Config Memory Thread) : Label Thread Bool → Bool
  | .step i _ =>
    match c.pool[i]? with
    | some (.worker _ none .release) => c.shared.activeThreadCount = 0
    | _ => true
  | .call _ => true

/-- The calls that leave the limit alone. -/
theorem onlyCalls_of_fixedLimit {l : Label Thread Bool} (h : fixedLimit l = true) (m : MacroId) :
    onlyCalls m (· ≠ .setGlobalThreadLimit) true l = true := by
  unfold fixedLimit at h
  split at h
  · cases h
  next hl =>
    cases l with
    | step => rfl
    | call t =>
      cases t with
      | worker => simp [onlyCalls, Thread.only]
      | reset => rfl
      | call m' pc =>
        cases pc with
        | setGlobalThreadLimit => exact absurd rfl (hl _ _)
        | _ => simp [onlyCalls, Thread.only, CallPc.kind]

/-- The slots that a thread stands for, as a live worker or by its reservation. -/
def Thread.slots (t : Thread) : ℕ := t.live + t.reserved

/-- The access moves slots: a thread has `h` before and `h'` after the step, and the threads it
spawns have `s`. -/
def Access.MovesSlots (h h' s : ℕ) : Access → Prop
  | reserveSlot => h = 0 ∧ h' = 1 ∧ s = 0
  | releaseSlot => h ≤ 1 ∧ h' = 0 ∧ s = 0
  | refuseSlot | abandonSlot => h = 1 ∧ h' = 0 ∧ s = 0
  | _ => h = h' + s

section Edges

variable {mem : Memory} {m : MacroId} {i : ThreadId} {a : Access} {pool : List Thread}

/-- Inner accesses leave the slots where they are. -/
theorem Access.movesSlots_of_inner (hc : a.inner = true) (n : ℕ) : a.MovesSlots n n 0 := by
  cases a <;> first | rfl | cases hc

/-- A worker gives back the slot of the call that spawned it. -/
theorem RunPc.Step.movesSlots {p p' : RunPc} {ev : List Event} (o : Option ThreadId)
    (h : p.Step mem m i a p' ev) :
    a.MovesSlots (Thread.worker m o p).slots (Thread.worker m o p').slots 0 := by
  cases o with
  | none =>
    -- a direct call stands for no slot, at `releaseSlot` either
    cases h with
    | limit h | limited h => exact Access.movesSlots_of_inner h.inner.1 0
    | consumeSet h | consumed h => exact Access.movesSlots_of_inner h.inner.1 0
    | pauseWait h | pauseOver h => exact Access.movesSlots_of_inner h.inner.1 0
    | notInterrupted h hp => rcases hp with ⟨rfl, rfl⟩ | ⟨rfl, rfl⟩ <;> rfl
    | release => exact ⟨Nat.zero_le 1, rfl, rfl⟩
    | _ => rfl
  | some o =>
    -- a spawned worker stands for one up to `releaseSlot`
    cases h with
    | limit h | limited h => exact Access.movesSlots_of_inner h.inner.1 1
    | consumeSet h | consumed h => exact Access.movesSlots_of_inner h.inner.1 1
    | pauseWait h | pauseOver h => exact Access.movesSlots_of_inner h.inner.1 1
    | notInterrupted h hp =>
      next inLoop p =>
      rcases hp with ⟨rfl, rfl⟩ | ⟨rfl, rfl⟩ <;> cases inLoop <;> rfl
    | release => exact ⟨Nat.le_refl 1, rfl, rfl⟩
    | _ => rfl

/-- `start` reserves a slot, and hands it to the worker or gives it back. -/
theorem StartPc.Step.movesSlots {w : ThreadId} {p : StartPc} {q : Option StartPc}
    {ts : List Thread} {ev : List Event} (h : p.Step mem m i w a q ts ev) :
    a.MovesSlots p.reserved (q.elim 0 reserved) (weight Thread.slots ts) := by
  cases h with
  | incLimit h | incLimited h => exact Access.movesSlots_of_inner h.inner.1 1
  | limit h | limited h => exact Access.movesSlots_of_inner h.inner.1 0
  | reserve | refuse | abandon => exact ⟨rfl, rfl, rfl⟩
  | _ => rfl

/-- No other call moves a slot. -/
theorem CallPc.Step.movesSlots {p p' : CallPc} {ts : List Thread} {ev : List Event}
    (h : p.Step mem pool m i a p' ts ev) :
    a.MovesSlots (Thread.call m p).slots (Thread.call m p').slots (weight Thread.slots ts) := by
  cases h with
  | start h | started h => simpa [Thread.slots, Thread.live, Thread.reserved] using h.movesSlots
  | setInterruptor h => exact (by cases h <;> exact Access.movesSlots_of_inner rfl 0)
  | setDone h => exact (by cases h <;> exact Access.movesSlots_of_inner rfl 0)
  | limit h | limited h => exact Access.movesSlots_of_inner h.inner.1 0
  | copy h | copied h =>
    rcases h.inner with hin | ⟨-, rfl, -⟩
    · exact Access.movesSlots_of_inner hin 0
    · rfl
  | destroy h | destroyed h => exact Access.movesSlots_of_inner h.inner 0
  | _ => rfl

end Edges

/-- **Every edge moves the slots it counts.** -/
theorem Thread.Step.movesSlots {c : Config Memory Thread} {i : ThreadId} {t : Thread} {mv : Move}
    (h : t.Step c i mv) :
    mv.access.MovesSlots t.slots mv.next.slots (weight Thread.slots mv.spawned) := by
  cases h with
  | worker h => exact h.movesSlots _
  | reset h => exact Access.movesSlots_of_inner h.inner 0
  | call h => exact h.movesSlots

/-- Inner accesses neither reserve nor give back. -/
theorem Access.activeThreadCount_of_inner {m : MacroId} {mem mem' : Memory} {a : Access}
    (ha : a.apply m mem = some mem') (hin : a.inner = true) :
    mem'.activeThreadCount = mem.activeThreadCount := by
  rw [apply_activeThreadCount ha]
  cases a <;> first | rfl | cases hin

/-- What reserves and gives back: the counter moves with the slots. -/
theorem Access.MovesSlots.activeThreadCount {m : MacroId} {mem mem' : Memory} {a : Access}
    {h h' s : ℕ} (hs : a.MovesSlots h h' s) (ha : a.apply m mem = some mem')
    (hle : h ≤ mem.activeThreadCount)
    (hpaired : a = .releaseSlot → h = 0 → mem.activeThreadCount = 0) :
    mem'.activeThreadCount + h = mem.activeThreadCount + h' + s := by
  rw [apply_activeThreadCount ha]
  cases a with
  | reserveSlot =>
    obtain ⟨rfl, rfl, rfl⟩ := hs
    rfl
  | releaseSlot =>
    -- without a slot the step is paired: the counter is 0 and stays so
    obtain ⟨hle₁, rfl, rfl⟩ := hs
    have := hpaired rfl
    simp only
    omega
  | refuseSlot | abandonSlot =>
    obtain ⟨rfl, rfl, rfl⟩ := hs
    obtain ⟨n, hn⟩ := Nat.exists_eq_add_of_le' hle
    simp [hn]
  | _ =>
    obtain rfl : h = h' + s := hs
    exact (Nat.add_assoc _ _ _).symm

section Run

variable {c : Config Memory Thread} {i : ThreadId} {k : Bool} {t : Thread}
  {e : Effect Memory Thread Event}

/-- The slots the pool stands for are the live workers and the reserved slots. -/
theorem weight_slots (c : Config Memory Thread) :
    weight Thread.slots c.pool = liveWorkers c + reservedSlots c :=
  weight_add Thread.live Thread.reserved c.pool

/-- **One step** keeps the counter equal to the slots, if it is paired. -/
theorem activeThreadCount_step (hslots : c.shared.activeThreadCount = weight Thread.slots c.pool)
    (hpaired : pairedRelease c (.step i k) = true) (ht : c.pool[i]? = some t)
    (he : program.move c i k t = some e) :
    e.shared.activeThreadCount = weight Thread.slots (c.pool.set i e.next ++ e.spawned) := by
  obtain ⟨a, hs, ha⟩ := step_of_program_move he
  have hle : t.slots ≤ c.shared.activeThreadCount := by
    rw [hslots]
    exact le_weight _ (List.mem_of_getElem? ht)
  have hmoved := hs.movesSlots.activeThreadCount ha hle ?_
  · -- the counter and the pool move by the same amount
    have hpool := weight_set_append Thread.slots e.next e.spawned ht
    simp only at hmoved
    omega
  · -- a release by a thread without a slot is one of a direct call
    rintro rfl ht₀
    rcases hs.inner_or_outer with hin | hout
    · cases hin
    · generalize e.next = u, e.spawned = ts, e.events = ev at hout
      cases hout with
      | @release m o =>
        cases o with
        | none => simpa [pairedRelease, ht] using hpaired
        | some o => cases ht₀

/-- Without `setGlobalThreadLimit` the limit stays as it is at every step. -/
theorem threadLimit_step (honly : ∀ m, t.only m (· ≠ .setGlobalThreadLimit) true = true)
    (he : program.move c i k t = some e) : e.shared.threadLimit = c.shared.threadLimit := by
  obtain ⟨a, hs, ha⟩ := step_of_program_move he
  have hlimit := Access.apply_threadLimit ha
  rcases hs.inner_or_outer with hin | hout
  · cases a <;> first | exact hlimit | cases hin
  · generalize e.next = u, e.spawned = ts, e.events = ev at hout
    cases hout with
    | setGlobalThreadLimit => cases Thread.kind_of_only (honly _) rfl
    | _ => exact hlimit

/-- One step keeps the counter within the limit. -/
theorem activeThreadCount_le_step (hle : c.shared.activeThreadCount ≤ c.shared.threadLimit)
    (hslots : c.shared.activeThreadCount = weight Thread.slots c.pool)
    (honly : ∀ m, t.only m (· ≠ .setGlobalThreadLimit) true = true) (ht : c.pool[i]? = some t)
    (he : program.move c i k t = some e) : e.shared.activeThreadCount ≤ e.shared.threadLimit := by
  rw [threadLimit_step honly he]
  obtain ⟨a, hs, ha⟩ := step_of_program_move he
  have hcount := Access.apply_activeThreadCount ha
  have hthread := le_weight Thread.slots (List.mem_of_getElem? ht)
  rcases hs.inner_or_outer with hin | hout
  · rwa [Access.activeThreadCount_of_inner ha hin]
  · generalize e.next = u, e.spawned = ts, e.events = ev at hout
    cases hout with
    -- under the global mutex the test and the increment are one step
    | reserve h => simp only at hcount; omega
    | refuse | abandon =>
      -- the thread's own slot is counted, so the decrement does not wrap
      have hpos : 1 ≤ c.shared.activeThreadCount := hslots ▸ hthread
      obtain ⟨n, hn⟩ := Nat.exists_eq_add_of_le' hpos
      simp only [hn, uintPred_succ] at hcount
      omega
    | _ => simp only at hcount; omega

end Run

/-! ## All runs -/

section Runs

variable {mem : Memory} {c : Config Memory Thread} {tr : List Event}

/-- The limit is the one at the beginning. -/
theorem threadLimit_of_run {allowed : Config Memory Thread → Label Thread Bool → Prop}
    (hallowed : ∀ c l, allowed c l → fixedLimit l = true)
    (h : program.Run allowed (initial mem) tr c) : c.shared.threadLimit = mem.threadLimit := by
  have hrun := h.and_invariant
    (I := fun c => ∀ t ∈ c.pool, ∀ m, t.only m (· ≠ .setGlobalThreadLimit) true = true)
    fun h t ht m =>
      only_of_run (fun c l ok => onlyCalls_of_fixedLimit (hallowed c l ok) m) (by simp) h t ht
  refine Machine.Run.invariant (P := fun _ c => c.shared.threadLimit = mem.threadLimit) rfl ?_ ?_
    hrun
  · exact fun _ _ _ _ hc _ _ => hc
  · rintro _ c i k t e hc ⟨-, honly⟩ ht he
    rw [← hc]
    exact threadLimit_step (honly t (List.mem_of_getElem? ht)) he

/-- **Paired runs are accounted**: the counter is right in every state they reach. -/
theorem accounted_of_paired (hinit : mem.activeThreadCount = 0)
    (h : program.Run (fun c l => fixedLimit l ∧ pairedRelease c l) (initial mem) tr c) :
    Accounted c := by
  have honly := h.and_invariant
    (I := fun c => ∀ t ∈ c.pool, ∀ m, t.only m (· ≠ .setGlobalThreadLimit) true = true)
    fun h t ht m => only_of_run (fun _ _ ok => onlyCalls_of_fixedLimit ok.1 m) (by simp) h t ht
  have hcount : c.shared.activeThreadCount = weight Thread.slots c.pool ∧
      c.shared.activeThreadCount ≤ c.shared.threadLimit := by
    refine Machine.Run.invariant (P := fun _ c =>
      c.shared.activeThreadCount = weight Thread.slots c.pool ∧
        c.shared.activeThreadCount ≤ c.shared.threadLimit) (by simp [hinit]) ?_ ?_ honly
    · -- a new thread stands for no slot
      rintro _ c t ev ⟨hslots, hle⟩ _ he
      have hnew : t.slots = 0 := by
        rcases Thread.entry_cases he with ⟨m, rfl, -⟩ | ⟨m, rfl, -⟩ | ⟨m, pc, rfl, -, hpc⟩
        · rfl
        · rfl
        · cases hpc <;> rfl
      exact ⟨by simpa [hnew] using hslots, hle⟩
    · rintro _ c i k t e ⟨hslots, hle⟩ ⟨⟨-, hpaired⟩, honly⟩ ht he
      exact ⟨activeThreadCount_step hslots hpaired ht he,
        activeThreadCount_le_step hle hslots (honly t (List.mem_of_getElem? ht)) ht he⟩
  rw [weight_slots] at hcount
  exact ⟨hcount.1, by omega⟩

/-- An accounted step is paired: a direct call that took a slot away would leave the counter
below the slots. -/
theorem paired_of_accounted {c' : Config Memory Thread} {l : Label Thread Bool} {ev : List Event}
    (hc : Accounted c) (hc' : Accounted c') (hstep : program.step c l = some (ev, c')) :
    pairedRelease c l := by
  unfold pairedRelease
  split
  · split
    · next m hi =>
      obtain ⟨t, e, ht, he, -, rfl⟩ := Machine.step_step_iff.mp hstep
      obtain rfl := Option.some.inj (hi.symm.trans ht)
      obtain ⟨a, hs, ha⟩ := step_of_program_move he
      have hpool := weight_set_append Thread.slots e.next e.spawned ht
      have hbefore := hc.1
      have hafter : e.shared.activeThreadCount = _ := hc'.1
      rw [← weight_slots] at hbefore hafter
      refine decide_eq_true ?_
      generalize e.next = u, e.spawned = ts, e.events = ev at hs hpool hafter
      cases hs with
      | worker h =>
        cases h with
        | release =>
          have hcount := Access.apply_activeThreadCount ha
          have hfree : (Thread.worker m none .release).slots = 0 ∧
            (Thread.worker m none .notifyDone).slots = 0 := ⟨rfl, rfl⟩
          -- neither point of a direct call has a slot, so the counter was not lowered
          simp only [weight_nil] at hcount hpool hafter
          omega
    · rfl
  · rfl

/-- **The counter is right in every state of a run iff every step of it is paired**: iff no
direct call of `run` finds a slot to take away. -/
theorem run_accounted_iff_paired (hinit : mem.activeThreadCount = 0) :
    program.Run (fun c l => fixedLimit l ∧ Accounted c) (initial mem) tr c ∧ Accounted c ↔
      program.Run (fun c l => fixedLimit l ∧ pairedRelease c l) (initial mem) tr c := by
  constructor
  · rintro ⟨h, hc⟩
    induction h with
    | refl => exact .refl
    | snoc _ ok step ih => exact .snoc (ih ok.2) ⟨ok.1, paired_of_accounted ok.2 hc step⟩ step
  · intro h
    refine ⟨Machine.Run.mono ?_ (h.and_invariant (I := Accounted) (accounted_of_paired hinit)),
      accounted_of_paired hinit h⟩
    exact fun c l ok => ⟨ok.1.1, ok.2⟩

end Runs

/-- `start` on macro 0, up to its return with worker 1 created. -/
def spawnOne : List (Label Thread Bool) :=
  .call (.call 0 (.start .lock)) :: List.replicate 12 (.step 0 true)

/-- A spawned worker: one live worker, and one slot taken. -/
theorem run_accounted_iff_paired_spawn : ∃ tr c,
    (program.Run (fun c l => fixedLimit l ∧ Accounted c)
      (initial (.ofMacro { interruptor := .continue })) tr c ∧ Accounted c) ∧
      liveWorkers c = 1 := by
  obtain ⟨tr, c, h, hlive⟩ := Machine.Run.exists_of_exec
    (fun c l => fixedLimit l && pairedRelease c l)
    (initial (.ofMacro { interruptor := .continue })) spawnOne
    (M := program) (P := fun _ c => liveWorkers c = 1) (by decide)
  refine ⟨tr, c, (run_accounted_iff_paired rfl).mpr (h.mono ?_), by simpa using hlive⟩
  exact fun c l ok => by simpa using ok

/-- **A direct call takes a slot away**: while worker 1 is alive, a client calls `run` itself; the
counter falls back to 0. -/
theorem not_accounted_direct_run : ¬ ∀ mem tr c, mem.activeThreadCount = 0 →
    program.Run (fun _ l => fixedLimit l) (initial mem) tr c → Accounted c := by
  intro hall
  obtain ⟨tr, c, h, hcount⟩ := Machine.Run.exists_of_exec (fun _ l => fixedLimit l)
    (initial (.ofMacro { interruptor := .continue }))
    (spawnOne ++ .call (.worker 0 none .count) :: List.replicate 6 (.step 2 true))
    (M := program) (P := fun _ c => c.shared.activeThreadCount = 0 ∧ liveWorkers c = 1)
    (by decide)
  have hacc := (hall _ tr c rfl h).1
  simp only [decide_eq_true_eq] at hcount
  omega

end Libmacro
