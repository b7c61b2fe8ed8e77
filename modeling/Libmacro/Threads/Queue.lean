import Libmacro.Threads.ThreadLimit

/-! # One pass for each start

`start` puts an entry into `_queued`, and a worker that takes one sends the signal list. Testing
the queue (`isIdle`), testing it again and decrementing it (`decQueued`) are separate steps, and a
worker whose `decQueued` declines sends the list all the same. `passes_le_starts`: in the runs in
which no worker finds the queue empty after it has passed `isIdle`, a macro sends its list at most
as often as it was started. -/

namespace Libmacro

open Interleaving

/-- The event is the beginning of a pass of macro `m`. -/
def Event.isPass (m : MacroId) : Event → Bool
  | pass m' _ => m' = m
  | _ => false

/-- The event is a start of macro `m`. -/
def Event.isStart (m : MacroId) : Event → Bool
  | start m' => m' = m
  | _ => false

/-- The worker is on its way to a pass it has taken from the queue. -/
def RunPc.owed : RunPc → ℕ
  | countTest | limit _ | dispatchSignals => 1
  | _ => 0

/-- `start` may still put an entry into the queue. -/
def StartPc.owed : StartPc → ℕ
  | lock | switch | roomTest | reserve | incTest | increment => 1
  | _ => 0

/-- Of the calls only `start` puts an entry into the queue. -/
def CallPc.owed : CallPc → ℕ
  | start p => p.owed
  | _ => 0

/-- The pass of macro `m` a thread stands for, outside the queue. -/
abbrev Thread.owed (m : MacroId) : Thread → ℕ :=
  onMacro m (fun _ => RunPc.owed) (fun _ => 0) CallPc.owed

/-- The calls that leave `sticky()` alone. -/
def keepsSticky : CallKind → Bool
  | .setter | .copy => false
  | _ => true

/-- A worker of macro `m` in `decQueued` finds the queue not empty, at its test and at its
decrement. -/
def findsEntry (m : MacroId) (c : Config Memory Thread) : Label Thread Bool → Bool
  | .step i _ =>
    match c.pool[i]? with
    | some (.worker m' _ .decTest) | some (.worker m' _ .decrement) =>
      m' ≠ m ∨ 0 < (c.shared.macros m).queued
    | _ => true
  | .call _ => true

section Edges

variable {mem mem' : Memory} {m : MacroId} {i : ThreadId} {a : Access} {pool : List Thread}

/-- Only `incQueued` raises the queue of a macro. -/
theorem Access.toNat_queued_le (h : a.apply m mem = some mem') (ha : a ≠ .incQueued) :
    (mem'.macros m).queued.toNat ≤ (mem.macros m).queued.toNat := by
  rw [apply_queued h]
  cases a with
  | incQueued => exact absurd rfl ha
  | decQueued => simp only; omega
  | clearQueued | refuseSlot => exact Nat.zero_le _
  | storeInterruptor val => simp only; split <;> simp
  | _ => exact Nat.le_refl _

/-- **A worker passes at most what it has taken**, when the macro is not sticky and `decQueued`
does not decline. -/
theorem RunPc.Step.owed_le {p p' : RunPc} {ev : List Event} (h : p.Step mem m i a p' ev)
    (hs : (mem.macros m).sticky = false) (hq : p = .decTest → 0 < (mem.macros m).queued) :
    ev.countP (Event.isPass m) + p'.owed ≤ p.owed ∨
      p = .decrement ∧ a = .decQueued ∧ ev = [] ∧ p'.owed = 1 := by
  cases h with
  | decrement => exact .inr ⟨rfl, rfl, rfl, rfl⟩
  -- a declined `decQueued` would begin a pass that nothing pays for
  | declined h =>
    have := hq rfl
    omega
  | sticky h => simp [h] at hs
  | dispatchSignals => exact .inl (by simp [Event.isPass, owed])
  -- in the preamble and in the loop alike, no entry is taken at this point
  | notInterrupted h hp =>
    next inLoop p => cases inLoop <;> exact .inl (Nat.le_refl 0)
  | consumed | deliver => exact .inl (by simp [Event.isPass, owed])
  | _ => exact .inl (by first | exact Nat.le_refl _ | exact Nat.zero_le _)

/-- `start` puts at most one entry into the queue. -/
theorem StartPc.Step.owed_le {w : ThreadId} {p : StartPc} {q : Option StartPc}
    {ts : List Thread} {ev : List Event} (h : p.Step mem m i w a q ts ev) :
    q.elim 0 owed ≤ p.owed ∧ (a = .incQueued → q.elim 0 owed = 0 ∧ p.owed = 1) := by
  cases h with
  | incLimit h | incLimited h | limit h | limited h =>
    refine ⟨Nat.le_refl _, ?_⟩
    rintro rfl
    cases h.inner.1
  | increment => exact ⟨Nat.zero_le _, fun _ => ⟨rfl, rfl⟩⟩
  | _ => exact ⟨by first | exact Nat.le_refl _ | exact Nat.zero_le _, nofun⟩

/-- A client call puts at most one entry into the queue. -/
theorem CallPc.Step.owed_le {p p' : CallPc} {ts : List Thread} {ev : List Event}
    (h : p.Step mem pool m i a p' ts ev) :
    p'.owed ≤ p.owed ∧ (a = .incQueued → p'.owed = 0 ∧ p.owed = 1) := by
  cases h with
  | start h | started h => exact h.owed_le
  | setInterruptor h | setDone h | limit h | limited h =>
    refine ⟨Nat.le_refl _, ?_⟩
    rintro rfl
    cases h.inner.1
  | copy h | copied h =>
    refine ⟨Nat.le_refl _, ?_⟩
    rintro rfl
    rcases h.inner with hin | ⟨-, ha, -⟩
    · cases hin
    · cases ha
  | destroy h | destroyed h =>
    refine ⟨Nat.le_refl _, ?_⟩
    rintro rfl
    cases h.inner
  | _ => exact ⟨Nat.le_refl _, nofun⟩

end Edges

/-- **One step pays for its passes**: from the queue, or from what the thread has taken. -/
theorem Thread.Step.owed_le {c : Config Memory Thread} {i : ThreadId} {k : Bool} {t : Thread}
    {mv : Move} {mem : Memory} (h : t.Step c i mv)
    (ha : mv.access.apply t.macroId c.shared = some mem) (ht : c.pool[i]? = some t)
    (hs : (c.shared.macros t.macroId).sticky = false)
    (hq : findsEntry t.macroId c (.step i k) = true) :
    mv.events.countP (Event.isPass t.macroId) + (mem.macros t.macroId).queued.toNat +
        mv.next.owed t.macroId ≤ (c.shared.macros t.macroId).queued.toNat + t.owed t.macroId := by
  have hinc : mv.access = .incQueued → ∃ m, t = .call m (.start .increment) := by
    rcases h.inner_or_outer with hin | hout
    · intro he
      rw [he] at hin
      cases hin
    · cases hout <;> simp
  have hpass : t.isWorker = false → mv.events.countP (Event.isPass t.macroId) = 0 :=
    h.countP_events_of_not_worker fun ev hev => by cases ev <;> first | rfl | cases hev
  cases h with
  | @worker m o p p' a ev h =>
    have hle : (mem.macros m).queued.toNat ≤ (c.shared.macros m).queued.toNat :=
      Access.toNat_queued_le ha fun he => by simpa using hinc he
    have htest : p = .decTest → 0 < (c.shared.macros m).queued := by
      rintro rfl
      simpa [findsEntry, ht] using hq
    rcases h.owed_le hs htest with howed | ⟨rfl, rfl, rfl, hp'⟩
    · simp only [Thread.macroId, onMacro_worker]
      omega
    · -- the decrement: the entry moves from the queue to the worker
      have hpos : 0 < (c.shared.macros m).queued := by simpa [findsEntry, ht] using hq
      have hp : RunPc.decrement.owed = 0 := rfl
      have hqueued := Access.apply_queued ha
      simp only [Thread.macroId] at hqueued
      simp only [Thread.macroId, onMacro_worker, hqueued, hp', hp, List.countP_nil]
      omega
  | @reset m o p p' a ev h =>
    have hle : (mem.macros m).queued.toNat ≤ (c.shared.macros m).queued.toNat :=
      Access.toNat_queued_le ha fun he => by simpa using hinc he
    have hev : ev.countP (Event.isPass m) = 0 := hpass rfl
    simp only [Thread.macroId, onMacro_reset]
    omega
  | @call m p p' a ts ev h =>
    obtain ⟨howed, hone⟩ := h.owed_le
    have hev : ev.countP (Event.isPass m) = 0 := hpass rfl
    simp only [Thread.macroId, onMacro_call]
    by_cases he : a = .incQueued
    · -- the increment: the entry moves from the start to the queue
      obtain ⟨hp', hp⟩ := hone he
      subst he
      have hqueued := Access.apply_queued ha
      simp only [Thread.macroId] at hqueued
      simp only [hqueued, hp', hp]
      omega
    · have hle : (mem.macros m).queued.toNat ≤ (c.shared.macros m).queued.toNat :=
        Access.toNat_queued_le ha he
      omega

/-- A setter that writes `sticky()`, and `copy`, are the only ones to change it. -/
theorem Thread.Step.sticky_eq {c : Config Memory Thread} {i : ThreadId} {t : Thread} {mv : Move}
    {mem : Memory} (h : t.Step c i mv) (ha : mv.access.apply t.macroId c.shared = some mem)
    (honly : t.only t.macroId keepsSticky false = true) :
    (mem.macros t.macroId).sticky = (c.shared.macros t.macroId).sticky := by
  rcases h.inner_or_outer with hin | hout
  · exact (Access.apply_sameConfig ha (Access.configures_of_inner hin)).sticky
  · cases hout with
    | block | assign => cases Thread.kind_of_only honly rfl
    | setContext =>
      obtain rfl := Option.some.inj (Access.perform_of_apply ha)
      simp
    | _ => exact (Access.apply_sameConfig ha rfl).sticky

/-! ## Runs -/

section Runs

variable {mem : Memory} {m : MacroId} {c : Config Memory Thread} {tr : List Event}

/-- Without a setter and without `copy` a macro stays as sticky as it is. -/
theorem sticky_of_run {allowed : Config Memory Thread → Label Thread Bool → Prop}
    (hallowed : ∀ c l, allowed c l → onlyCalls m keepsSticky false l = true)
    (h : program.Run allowed (initial mem) tr c) :
    (c.shared.macros m).sticky = (mem.macros m).sticky := by
  have hrun := h.and_invariant (I := fun c => ∀ t ∈ c.pool, t.only m keepsSticky false = true)
    fun h => only_of_run hallowed (by simp) h
  refine Machine.Run.invariant
    (P := fun _ c => (c.shared.macros m).sticky = (mem.macros m).sticky) rfl ?_ ?_ hrun
  · exact fun _ _ _ _ hc _ _ => hc
  · rintro _ c i k t e hc ⟨-, honly⟩ ht he
    by_cases hm : t.macroId = m
    · subst hm
      obtain ⟨a, hs, ha⟩ := step_of_program_move he
      rw [← hc]
      exact hs.sticky_eq ha (honly t (List.mem_of_getElem? ht))
    · simp only [macros_of_ne he hm, hc]

/-- **Passes are paid for**: every entry a start put into the queue is there still, or taken by a
worker on its way to a pass, or spent. -/
theorem passes_add_le (hinit : (mem.macros m).queued ≤ 0) (hsticky : (mem.macros m).sticky = false)
    (h : program.Run (fun c l => onlyCalls m keepsSticky false l ∧ findsEntry m c l)
      (initial mem) tr c) :
    tr.countP (Event.isPass m) + (c.shared.macros m).queued.toNat +
      weight (Thread.owed m) c.pool ≤ tr.countP (Event.isStart m) := by
  have hrun := h.and_invariant (I := fun c => (c.shared.macros m).sticky = false)
    fun h => (sticky_of_run (fun _ _ ok => ok.1) h).trans hsticky
  refine Machine.Run.invariant (P := fun tr c => tr.countP (Event.isPass m) +
    (c.shared.macros m).queued.toNat + weight (Thread.owed m) c.pool ≤
      tr.countP (Event.isStart m)) (by simpa using hinit) ?_ ?_ hrun
  · -- a call: only `start` owes an entry, and it is counted as a start
    rintro tr c t ev hle - he
    have hnew : ev.countP (Event.isPass m) + t.owed m ≤ ev.countP (Event.isStart m) := by
      rcases Thread.entry_cases he with ⟨m', rfl, rfl⟩ | ⟨m', rfl, rfl⟩ | ⟨m', pc, rfl, rfl, hpc⟩
      · simp [Thread.onMacro, RunPc.owed]
      · by_cases hm : m' = m <;>
          simp [Thread.onMacro, hm, CallPc.owed, StartPc.owed, Event.isPass, Event.isStart]
      · have hnone : pc.owed = 0 := by cases hpc <;> rfl
        simp [Thread.onMacro, hnone]
    simp only [List.countP_append, weight_append, weight_cons, weight_nil]
    omega
  · rintro tr c i k t e hle ⟨⟨-, hfinds⟩, hsticky⟩ ht he
    obtain ⟨a, hs, ha⟩ := step_of_program_move he
    have hpool := weight_set_append (Thread.owed m) e.next e.spawned ht
    have hspawned : weight (Thread.owed m) e.spawned = 0 :=
      hs.weight_spawned (fun _ => rfl) rfl
    simp only [List.countP_append]
    by_cases hm : t.macroId = m
    · -- the macro's own thread pays for what it emits
      subst hm
      have hpaid := hs.owed_le ha ht hsticky hfinds
      simp only at hpaid
      omega
    · -- another macro's thread moves neither side
      have hevents := hs.countP_events_of_ne (p := Event.isPass m)
        (fun ev hev => by cases ev <;> simp_all [Event.isPass, Event.macroId?]) hm
      have hweight : weight (Thread.owed m) (c.pool.set i e.next ++ e.spawned) =
          weight (Thread.owed m) c.pool := weight_onMacro_of_ne ht he hm
      simp only at hevents
      rw [macros_of_ne he hm]
      omega

/-- **A macro sends its list at most as often as it was started**, in the runs in which
`decQueued` always finds the entry that `isIdle` saw: a macro that is not sticky, whose queue is
empty at the beginning, and that no client runs directly. -/
theorem passes_le_starts (hinit : (mem.macros m).queued ≤ 0)
    (hsticky : (mem.macros m).sticky = false)
    (h : program.Run (fun c l => onlyCalls m keepsSticky false l ∧ findsEntry m c l)
      (initial mem) tr c) :
    tr.countP (Event.isPass m) ≤ tr.countP (Event.isStart m) := by
  have := passes_add_le hinit hsticky h
  omega

end Runs

/-- A started macro, and the first pass of its worker. -/
theorem passes_le_starts_one : ∃ tr c,
    program.Run (fun c l => onlyCalls 0 keepsSticky false l ∧ findsEntry 0 c l)
      (initial (.ofMacro { interruptor := .continue, signals := [some 0] })) tr c ∧
      tr.countP (Event.isPass 0) = 1 ∧
      tr.countP (Event.isPass 0) ≤ tr.countP (Event.isStart 0) := by
  obtain ⟨tr, c, h, hpass⟩ := Machine.Run.exists_of_exec
    (fun c l => onlyCalls 0 keepsSticky false l && findsEntry 0 c l)
    (initial (.ofMacro { interruptor := .continue, signals := [some 0] }))
    (spawnOne ++ List.replicate 13 (.step 1 true))
    (M := program) (P := fun tr _ => tr.countP (Event.isPass 0) = 1) (by decide +kernel)
  have hrun := h.and_of_bool
  exact ⟨tr, c, hrun, by simpa using hpass, passes_le_starts (by decide) rfl hrun⟩

/-- **Three passes for two starts**: both workers find the one entry that is left, worker 1 takes
it, and worker 3 sends the list although `decQueued` declined. -/
theorem not_passes_le_starts_two : ¬ ∀ mem tr c, (mem.macros 0).interruptor = .continue →
    (mem.macros 0).threadCount = 0 → (mem.macros 0).queued = 0 → (mem.macros 0).sticky = false →
    (mem.macros 0).signals ≠ [] → 1 ≤ (mem.macros 0).threadMax →
    (mem.macros 0).threadMax ≤ mem.threadLimit →
    program.Run (fun _ l => onlyCalls 0 (· = .start) false l) (initial mem) tr c →
    tr.countP (Event.isPass 0) ≤ tr.countP (Event.isStart 0) := by
  intro hall
  obtain ⟨tr, c, h, hcount⟩ := Machine.Run.exists_of_exec
    (fun _ l => onlyCalls 0 (· = .start) false l)
    (initial (.ofMacro { interruptor := .continue, threadMax := 2, signals := [some 0] }))
    (startTwice 12 ++ List.replicate 21 (.step 1 true) ++ List.replicate 7 (.step 3 true) ++
      List.replicate 5 (.step 1 true) ++ List.replicate 2 (.step 3 true))
    (M := program) (P := fun tr _ => tr.countP (Event.isPass 0) = 3 ∧
      tr.countP (Event.isStart 0) = 2) (by decide +kernel)
  have hle := hall _ tr c rfl rfl rfl rfl (by decide) (by decide) (by decide) h
  simp only [decide_eq_true_eq] at hcount
  omega

end Libmacro
