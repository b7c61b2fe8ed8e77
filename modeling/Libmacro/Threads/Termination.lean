import Libmacro.Threads.Ranks

/-! # The program comes to rest

Left to itself the program stops: without new calls there is no endless sequence of steps of its
threads in which nobody wakes without a notification and no sticky run stays on with nothing queued
(`not_forall_proceeds`). So whatever the state, each call returns after finitely many steps of the
threads or waits for good, and every state has a run to one in which no step is left
(`exists_at_rest`). What a receiver of a delivered signal calls is a new call as well.

An edge uses up budget, an entry of the queue, or rank (`Access.Uses`). -/

namespace Libmacro

open Interleaving

/-- What an edge uses up that goes from budget `b` and rank `r` to `b'` and `r'`. -/
inductive Access.Uses (n : ℕ) (mac : Macro) (a : Access) (b b' r r' : ℕ) : Prop
  | budget (h : b' < b)
  | queued (ha : a = .decQueued) (hq : 0 < mac.queued) (hb : b' ≤ b)
  | rank (ha : a.calm = true) (hb : b' ≤ b) (h : r' + a.noise n < r)

section Edges

variable {mac : Macro} {mem : Memory} {m : MacroId} {i : ThreadId} {a : Access}
  {pool : List Thread} {n : ℕ}

/-- A step of `limitMaxThreads` lowers its rank, and notifies nobody. -/
theorem LimitPc.Step.rank_lt {p : LimitPc} {q : Option LimitPc} (h : p.Step mac a q) :
    q.elim 0 rank + a.noise n < p.rank := by
  cases h <;> simp [rank, Access.noise]

/-- A step of `dequeue` lowers its rank by more than its one notification counts. -/
theorem DequeuePc.Step.rank_lt {val : Interrupt} {p : DequeuePc} {q : Option DequeuePc}
    (h : p.Step val a q) : q.elim 0 (rank n) + a.noise n < p.rank n := by
  cases h <;> simp [rank, Access.noise]

/-- A wait goes round once for a notification. -/
theorem WaitPc.Step.rank_lt {b : Bool} {p : WaitPc} {q : Option WaitPc} (h : p.Step mac b a q)
    (hd : p.dozes mac = false) : q.elim 0 (rank mac) + a.noise n < p.rank mac := by
  cases h with
  | wake =>
    next notified =>
    have hne : notified ≠ mac.notified := by simpa [dozes] using hd
    simp [rank, Access.noise, hne]
  | _ => simp [rank, Access.noise]

/-- `setInterruptor` notifies in its guarded block. -/
theorem SetPc.Step.rank_lt {val : Interrupt} {p : SetPc val} {q : Option (SetPc val)}
    {ts : List Thread} {ev : List Event} (h : p.Step m mac i a q ts ev) :
    q.elim 0 (rank n) + a.noise n < p.rank n := by
  cases h <;> simp only [Option.elim, rank, Access.noise] <;> omega

/-- `setInterruptor` creates a thread in its last step only, and only for `INTERRUPT_ALL`. -/
theorem SetPc.Step.spawned_cases {val : Interrupt} {p : SetPc val} {q : Option (SetPc val)}
    {ts : List Thread} {ev : List Event} (h : p.Step m mac i a q ts ev) :
    ts = [] ∨ val = .interruptAll ∧ q = none ∧ ts = [.reset m i .readPrev] := by
  cases h with
  | spawnReset =>
    next hval => exact .inr ⟨hval, rfl, rfl⟩
  | _ => exact .inl rfl

/-- `run`: a round is paid for with an entry of the queue. -/
theorem RunPc.Step.uses {p p' : RunPc} {ev : List Event} (h : p.Step mem m i a p' ev)
    (hd : p.dozes (mem.macros m) = false)
    (hon : p = .stickyTest → (mem.macros m).sticky = false) :
    a.Uses n (mem.macros m) p.budget p'.budget (p.rank n (mem.macros m))
      (p'.rank n (mem.macros m)) := by
  cases h with
  | count | uncount => exact .budget (by decide)
  | sticky h => rw [hon rfl] at h; cases h
  -- a worker that takes an entry does not look at its rank
  | decrement =>
    by_cases hq : 0 < (mem.macros m).queued
    · exact .queued rfl hq (by decide)
    · refine .rank rfl (by decide) ?_
      simp only [rank, if_neg hq, LimitPc.rank, Access.noise]
      omega
  | accepted h =>
    have hq : 0 < (mem.macros m).queued := not_le.mp h
    exact .rank rfl (by decide) (by simp [rank, Access.noise, hq])
  | notIdle h =>
    have hq : 0 < (mem.macros m).queued := not_le.mp h
    exact .rank rfl (by decide) (by simp [rank, Access.noise, hq])
  | declined h =>
    have hq : ¬ 0 < (mem.macros m).queued := not_lt.mpr h
    exact .rank rfl (by decide) (by simp [rank, Access.noise, hq])
  | limit h | limited h =>
    have := h.rank_lt (n := n)
    refine .rank (Access.calm_of_inner h.inner.1) (Nat.le_refl _) ?_
    simp only [Option.elim] at this
    simp only [rank]
    omega
  | pauseWait h | pauseOver h =>
    have := h.rank_lt (n := n) hd
    refine .rank (Access.calm_of_inner h.inner.1) (Nat.le_refl _) ?_
    simp only [Option.elim] at this
    simp only [rank, ConsumePc.rank]
    omega
  | @consumeSet inLoop | @consumed inLoop =>
    next h =>
    have := h.rank_lt (n := n)
    refine .rank (Access.calm_of_inner h.inner.1) (Nat.le_refl _) ?_
    simp only [Option.elim] at this
    cases inLoop <;> simp only [rank, ConsumePc.rank] <;> omega
  | @notInterrupted inLoop p _ _ hp =>
    obtain ⟨ha, hrank⟩ : a.inner = true ∧ ∀ no yes, no + a.noise n < p.rank n no yes := by
      rcases hp with ⟨rfl, rfl⟩ | ⟨rfl, rfl⟩ <;> exact ⟨rfl, by simp [ConsumePc.rank, Access.noise]⟩
    refine .rank (Access.calm_of_inner ha) (by cases inLoop <;> exact Nat.le_refl _) ?_
    cases inLoop with
    | false => exact hrank (2 * n + 16) (n + 3)
    | true =>
      have := hrank (2 * n + 8) (n + 3)
      simp only [rank, if_true]
      omega
  | @consumeTest inLoop | @interrupted inLoop =>
    cases inLoop <;> refine .rank rfl (Nat.le_refl _) ?_ <;>
      simp only [rank, ConsumePc.rank, SetPc.rank, Access.noise] <;> omega
  | _ =>
    refine .rank rfl (by simp [budget]) ?_
    simp only [rank, ConsumePc.rank, WaitPc.rank, Access.noise, List.length_cons,
      List.length_nil]
    omega

/-- A step of `start` uses up rank, an entry of the queue or, where it creates a worker, budget. -/
theorem StartPc.Step.uses {w : ThreadId} {p : StartPc} {q : Option StartPc} {ts : List Thread}
    {ev : List Event} (h : p.Step mem m i w a q ts ev) :
    q.elim 0 budget + weight Thread.budget ts < p.budget ∨ ts = [] ∧
      a.Uses n (mem.macros m) p.budget (q.elim 0 budget) (p.rank n) (q.elim 0 (rank n)) := by
  cases h with
  | increment | spawn => exact .inl (by simp [budget, Thread.budget, RunPc.budget])
  | incLimit h | incLimited h | limit h | limited h =>
    have := h.rank_lt (n := n)
    refine .inr ⟨rfl, .rank (Access.calm_of_inner h.inner.1) (Nat.le_refl _) ?_⟩
    simp only [Option.elim] at this
    simp only [Option.elim, rank]
    omega
  | _ =>
    refine .inr ⟨rfl, .rank rfl (by decide) ?_⟩
    simp only [Option.elim, rank, LimitPc.rank, Access.noise]
    omega

/-- A step of `clearThreadsSticky` that is no wake-up out of nothing lowers its rank. -/
theorem StickyPc.Step.rank_lt {clearType : Interrupt} {p : StickyPc} {q : Option StickyPc}
    (h : p.Step mac clearType a q) (hd : p.dozes mac = false) :
    q.elim 0 (rank n mac) + a.noise n < p.rank n mac := by
  cases h with
  | dequeue h | dequeued h =>
    have := h.rank_lt (n := n)
    simp only [Option.elim] at this
    simp only [Option.elim, rank, WaitPc.rank]
    omega
  | wait h =>
    have := h.rank_lt (n := n) hd
    simp only [Option.elim] at this
    simp only [Option.elim, rank]
    omega
  | waited h =>
    -- the predicate of the wait is the test that follows
    have := h.rank_lt (n := n) hd
    cases h with
    | holds hr =>
      simp only [Option.elim] at this
      simp only [Option.elim, rank, WaitPc.rank, (Bool.not_eq_true' _).mp hr]
      simp only [Access.noise, Bool.false_eq_true, if_false]
      omega
  | running hr hp =>
    rcases hp with rfl | rfl <;> simp [rank, DequeuePc.rank, Access.noise, hr] <;> omega
  | notRunning hr hp =>
    rcases hp with rfl | ⟨rfl, rfl⟩ <;> simp [rank, Access.noise, hr]
    omega
  | _ => simp [rank, Access.noise]

/-- So does a step of `clearThreads`, which has one handle less to join each time. -/
theorem ClearPc.Step.rank_lt {clearType : Interrupt} {stickyInterrupt : Bool}
    {p : ClearPc stickyInterrupt} {q : Option (ClearPc stickyInterrupt)}
    (h : p.Step pool mac i clearType a q) (hd : p.dozes mac = false) :
    q.elim 0 (rank n mac) + a.noise n < p.rank n mac := by
  cases h with
  | dequeue h | dequeued h | dequeuedSticky h =>
    have := h.rank_lt (n := n)
    simp only [Option.elim] at this
    simp only [Option.elim, rank, WaitPc.rank, StickyPc.rank]
    omega
  | wait h | waited h =>
    have := h.rank_lt (n := n) hd
    simp only [Option.elim] at this
    simp only [Option.elim, rank]
    omega
  | sticky h | cleared h =>
    have := h.rank_lt (n := n) hd
    simp only [Option.elim] at this
    simp only [Option.elim, rank]
    omega
  | _ => simp [rank, Access.noise]

/-- So does a step of `disableEverything`. -/
theorem DisablePc.Step.rank_lt {p : DisablePc} {q : Option DisablePc} (h : p.Step pool mac i a q)
    (hd : p.dozes mac = false) : q.elim 0 (rank n mac) + a.noise n < p.rank n mac := by
  cases h with
  | dequeue h | dequeued h =>
    have := h.rank_lt (n := n)
    simp only [Option.elim] at this
    simp only [Option.elim, rank]
    omega
  | clear h | cleared h => exact h.rank_lt hd
  | remove =>
    simp only [Option.elim, rank, ClearPc.rank, DequeuePc.rank, Access.noise]
    omega

/-- So does a step of `resetThread`. -/
theorem ResetPc.Step.rank_lt {origin : ThreadId} {p p' : ResetPc} {ev : List Event}
    (h : p.Step pool mac m i origin a p' ev) (hd : p.dozes mac = false) :
    p'.rank n mac + a.noise n < p.rank n mac := by
  cases h with
  | dequeue h | dequeued h =>
    have := h.rank_lt (n := n)
    simp only [Option.elim] at this
    simp only [rank]
    omega
  | clear h | cleared h =>
    have := h.rank_lt (n := n) hd
    simp only [Option.elim] at this
    simp only [rank]
    omega
  | set h | setDone h => exact h.rank_lt
  | _ =>
    simp only [rank, ClearPc.rank, DequeuePc.rank, SetPc.rank, Access.noise]
    omega

/-- A step of `copy` uses up rank, or the budget for its assignment. -/
theorem CopyPc.Step.uses {other : MacroId} {p : CopyPc} {q : Option CopyPc}
    (h : p.Step pool mac m other i a q) (hd : p.dozes mac = false) :
    a.Uses n mac p.budget (q.elim 0 budget) (p.rank n mac) (q.elim 0 (rank n mac)) := by
  cases h with
  | assign => exact .budget (by decide)
  | disable h | disabled h =>
    have := h.rank_lt (n := n) hd
    refine .rank (Access.calm_of_inner h.inner) (Nat.le_refl _) ?_
    simp only [Option.elim] at this
    simp only [Option.elim, rank]
    omega
  | limit h | limited h =>
    have := h.rank_lt (n := n)
    refine .rank (Access.calm_of_inner h.inner.1) (Nat.le_refl _) ?_
    simp only [Option.elim] at this
    simp only [Option.elim, rank]
    omega
  | _ =>
    refine .rank rfl (by decide) ?_
    simp only [Option.elim, rank, DisablePc.rank, DequeuePc.rank, Access.noise]
    omega

/-- A step of a client call uses up budget, an entry of the queue or rank. -/
theorem CallPc.Step.uses {p p' : CallPc} {ts : List Thread} {ev : List Event}
    (h : p.Step mem pool m i a p' ts ev) (hd : p.dozes (mem.macros m) = false) :
    p'.budget + weight Thread.budget ts < p.budget ∨ ts = [] ∧
      a.Uses n (mem.macros m) p.budget p'.budget (p.rank n (mem.macros m))
        (p'.rank n (mem.macros m)) := by
  cases h with
  | start h | started h => exact h.uses
  | copy h | copied h => exact .inr ⟨rfl, h.uses hd⟩
  | setInterruptor h =>
    rcases h.spawned_cases with rfl | ⟨-, hq, -⟩
    · exact .inr ⟨rfl, .rank (Access.calm_of_inner h.inner.1) (Nat.le_refl _) h.rank_lt⟩
    · cases hq
  -- the reset thread takes over what is left of the budget
  | setDone h =>
    rcases h.spawned_cases with rfl | ⟨rfl, -, rfl⟩
    · exact .inr ⟨rfl, .rank (Access.calm_of_inner h.inner.1) (Nat.zero_le _) h.rank_lt⟩
    · exact .inl (by simp [budget, Thread.budget])
  | inRange =>
    -- the check of the argument fixes how many steps the call has left
    refine .inr ⟨rfl, .rank rfl ?_ ?_⟩
    · rw [budget, budget]
      split_ifs <;> decide
    · simp [rank, SetPc.rank, Access.noise]
  | block => exact .inl (by simp [budget])
  | limit h | limited h =>
    refine .inr ⟨rfl, .rank (Access.calm_of_inner h.inner.1) (Nat.le_refl _) h.rank_lt⟩
  | destroy h | destroyed h =>
    exact .inr ⟨rfl, .rank (Access.calm_of_inner h.inner) (Nat.le_refl _) (h.rank_lt hd)⟩
  | _ =>
    refine .inr ⟨rfl, .rank rfl (by simp [budget]) ?_⟩
    simp only [rank, LimitPc.rank, Access.noise]
    omega

end Edges

/-- **Every edge uses something up**, unless the thread dozes or stays on. -/
theorem Thread.Step.uses {c : Config Memory Thread} {i : ThreadId} {t : Thread} {mv : Move}
    (h : t.Step c i mv) (hd : t.dozes c.shared = false) (hon : t.staysOn c.shared = false)
    (n : ℕ) :
    mv.next.budget + weight budget mv.spawned < t.budget ∨ mv.spawned = [] ∧
      mv.access.Uses n (c.shared.macros t.macroId) t.budget mv.next.budget (t.rank n c.shared)
        (mv.next.rank n c.shared) := by
  cases h with
  | worker h =>
    refine .inr ⟨rfl, h.uses hd ?_⟩
    rintro rfl
    exact hon
  | reset h => exact .inr ⟨rfl, .rank (Access.calm_of_inner h.inner) (Nat.le_refl _) (h.rank_lt hd)⟩
  | call h => exact h.uses hd

/-- **Every step descends**, unless the thread dozes or stays on. -/
theorem Thread.descends {c : Config Memory Thread} {i : ThreadId} {k : Bool} {t : Thread}
    {e : Effect Memory Thread Event} (ht : t ∈ c.pool) (h : program.move c i k t = some e)
    (hd : t.dozes c.shared = false) (hon : t.staysOn c.shared = false) :
    potential.Descends c t e := by
  obtain ⟨a, hs, ha⟩ := step_of_program_move h
  rcases hs.uses hd hon (4 * c.pool.length + 4) with hless | ⟨hspawned, huses⟩
  · exact .budget hless
  have hmacro : e.next.macroId = t.macroId := hs.macroId
  dsimp only at hspawned huses
  have hspends (hcalm : a.calm = true) (hb : e.next.budget ≤ t.budget) :
      potential.Spends c t e := by
    refine ⟨hspawned, hb, fun u _ => (a.calmer ha hcalm u.macroId).queued, ?_⟩
    simp only [potential, hmacro, Nat.le_refl]
  cases huses with
  | budget hless =>
    refine .budget ?_
    rw [hspawned]
    exact hless
  | queued hdec hq hb =>
    subst hdec
    refine .stock (hspends rfl hb) ?_
    simp only [potential]
    rw [Access.apply_queued ha]
    dsimp only
    omega
  | rank hcalm hb hless =>
    -- a notification counts 4 for each thread of the pool, and 4 for the one that moves
    refine .rank (hspends hcalm hb) (a.noise 4) fun hstock => ?_
    have hnoise : a.noise (4 * c.pool.length + 4) = a.noise 4 * c.pool.length + a.noise 4 := by
      cases a <;> simp [Access.noise]
    have hnext : potential.stock e.shared e.next = potential.stock c.shared e.next := by
      have := hstock t ht
      simpa only [potential, hmacro] using this
    refine ⟨fun u hu => u.rank_le (a.calmer ha hcalm u.macroId) (hstock u hu), ?_⟩
    have := e.next.rank_le (n := 4 * c.pool.length + 4) (a.calmer ha hcalm e.next.macroId) hnext
    simp only [potential]
    omega

/-- Thread `i` moves without a wake-up out of nothing, and without staying on. -/
def Proceeds (c : Config Memory Thread) (i : ThreadId) (_ : Bool) : Prop :=
  ∀ t, c.pool[i]? = some t → t.dozes c.shared = false ∧ t.staysOn c.shared = false

/-- The threads use up a potential, so that no step can be followed by another one for ever. -/
theorem wellFounded_proceeds : WellFounded fun c' c => program.Advances Proceeds c c' :=
  Thread.potential.wellFounded fun _ _ _ _ _ hok ht he =>
    Thread.descends (List.mem_of_getElem? ht) he (hok _ ht).1 (hok _ ht).2

/-- **Nothing goes on for ever by itself**: without new calls, those of the receivers of delivered
signals included, no sequence of steps is endless in which nobody wakes without a notification and
no sticky run stays on with nothing queued. -/
theorem not_forall_proceeds (f : ℕ → Config Memory Thread) :
    ¬ ∀ n, program.Advances Proceeds (f n) (f (n + 1)) :=
  Machine.not_forall_advances wellFounded_proceeds f

/-- **Every state can come to rest**: its threads have a run to a state in which none of them can
proceed. -/
theorem exists_at_rest (c : Config Memory Thread) :
    ∃ tr c', program.Run (Machine.Unattended Proceeds) c tr c' ∧
      ∀ c'', ¬ program.Advances Proceeds c' c'' :=
  Machine.exists_halted wellFounded_proceeds c

end Libmacro
