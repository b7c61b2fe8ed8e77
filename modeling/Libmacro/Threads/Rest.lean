import Libmacro.PublicCalls
import Libmacro.Threads.Joins
import Libmacro.Threads.Termination
import Libmacro.Threads.WakeUps

/-! # What is left when the program has come to rest

`ended_or_lingers_of_rest`: when no thread can proceed any more, every thread has ended, or a worker
of its macro sleeps in `pauseLoop` or stays on in a sticky run. So nobody waits for a mutex, for a
count or for a join that will not come: the waits of the program are for its workers only, and the
workers sleep in `pauseLoop` only, where one that has missed its notification sleeps on after the
pause. With `exists_at_rest` this makes every call return that has no such worker to wait for. -/

namespace Libmacro

open Interleaving

/-- The thread is the call of a client that gives a macro a null context. -/
def Thread.dropsContext : Thread → Bool
  | call _ (.setContext none) => true
  | _ => false

/-- No client gives a macro a null context; the steps of threads are not restricted. -/
def givesContext : Label Thread Bool → Bool
  | .call t => !t.dropsContext
  | .step _ _ => true

/-- **Every forced reset finds its count at 0**, so that it changes nothing but the notifications.
-/
def resetsFindZero (c : Config Memory Thread) : Label Thread Bool → Bool
  | .call _ => true
  | .step i _ => (c.pool[i]?).all fun t =>
      !t.forcesReset t.macroId || (c.shared.macros t.macroId).threadCount == 0

/-- **The thread lingers**: it is a worker that sleeps in `pauseLoop`, whatever the interruptor is
by now, or that stays on in a sticky run with nothing queued. -/
def Thread.lingers (mem : Memory) (t : Thread) : Bool :=
  t.isWorker && (t.dozes mem || t.staysOn mem)

/-- A macro that nothing has been done to, but that it was given a context. -/
structure Unused (mac : Macro) : Prop where
  context : mac.context ≠ none
  locked : mac.locked = false
  threadCount : mac.threadCount = 0
  threads : mac.threads = []

/-! ## Who can move -/

section Moves

variable {mac : Macro} {mem : Memory} {m : MacroId} {i : ThreadId} {done : Access → Move}
  {pool : List Thread}

/-- A wait has no move only while it is asleep and nobody has notified. -/
theorem WaitPc.dozes_of_move {b : Bool} {goto : WaitPc → Access → Move} {p : WaitPc}
    (h : p.move mac true b goto done = none) : p.dozes mac = true := by
  cases p with
  | asleep n =>
    rw [move] at h
    split at h
    next hn => exact decide_eq_true hn.2.symm
    next => cases h
  | _ => cases h

/-- `run` stops at its end, or to sleep in `pauseLoop`. -/
theorem RunPc.dozes_of_move {goto : RunPc → Access → Move} {p : RunPc}
    (h : p.move mem m i true goto = none) : p = .finished ∨ p.dozes (mem.macros m) = true := by
  cases p with
  | finished => exact .inl rfl
  | pause p =>
    cases p with
    | test => cases h
    | loop p =>
      rw [move, PausePc.move] at h
      exact .inr (WaitPc.dozes_of_move h)
  | breakTest rest => cases rest <;> cases h
  | deliver s rest => cases s <;> cases h
  | _ => cases h

/-- `clearThreadsSticky` has no move only where it sleeps. -/
theorem StickyPc.dozes_of_move {clearType : Interrupt} {goto : StickyPc → Access → Move}
    {p : StickyPc} (h : p.move mac true clearType goto done = none) : p.dozes mac = true := by
  cases p with
  | wait p =>
    rw [move] at h
    exact WaitPc.dozes_of_move h
  | _ => cases h

/-- The next handle to join is that of another thread, which has not ended. -/
def BlockedJoin (pool : List Thread) (i : ThreadId) (joins : Option (List ThreadId)) : Prop :=
  ∃ w rest, joins = some (w :: rest) ∧ ¬ (w = i ∨ pool[w]?.all Thread.ended = true)

/-- `clearThreads` stops for two reasons only: it sleeps, or it joins a thread that has not ended.
-/
theorem ClearPc.blocked_of_move {clearType : Interrupt} {stickyInterrupt : Bool}
    {goto : ClearPc stickyInterrupt → Access → Move} {p : ClearPc stickyInterrupt}
    (h : p.move pool mac i true clearType goto done = none) :
    p.dozes mac = true ∨ BlockedJoin pool i p.joins := by
  cases p with
  | wait hs p =>
    rw [move] at h
    exact .inl (WaitPc.dozes_of_move h)
  | sticky hs p =>
    rw [move] at h
    exact .inl (StickyPc.dozes_of_move h)
  | join rest =>
    cases rest with
    | nil => cases h
    | cons w rest =>
      rw [move] at h
      split at h
      next => cases h
      next hw => exact .inr ⟨w, rest, rfl, hw⟩
  | _ => cases h

/-- `disableEverything` stops in `clearThreads`, asleep or at a join. -/
theorem DisablePc.blocked_of_move {goto : DisablePc → Access → Move} {p : DisablePc}
    (h : p.move pool mac i true goto done = none) :
    p.dozes mac = true ∨ BlockedJoin pool i p.joins := by
  cases p with
  | clear p =>
    rw [move] at h
    exact ClearPc.blocked_of_move h
  | _ => cases h

/-- A reset thread stops at its end, or in `clearThreads`. -/
theorem ResetPc.blocked_of_move {origin : ThreadId} {goto : ResetPc → Access → Move} {p : ResetPc}
    (h : p.move pool mac m i origin true goto = none) :
    p = .finished ∨ p.dozes mac = true ∨ BlockedJoin pool i p.joins := by
  cases p with
  | finished => exact .inl rfl
  | clear prev p =>
    rw [move] at h
    exact .inr (ClearPc.blocked_of_move h)
  | _ => cases h

/-- `copy` stops in `disableEverything`, asleep or at a join. -/
theorem CopyPc.blocked_of_move {other : MacroId} {goto : CopyPc → Access → Move} {p : CopyPc}
    (h : p.move pool mac m other i true goto done = none) :
    p.dozes mac = true ∨ BlockedJoin pool i p.joins := by
  cases p with
  | disable p =>
    rw [move] at h
    exact DisablePc.blocked_of_move h
  | _ => cases h

/-- A call stops when it has returned, or in `disableEverything`. -/
theorem CallPc.blocked_of_move {goto : CallPc → Access → Move} {p : CallPc}
    (h : p.move mem pool m i true goto = none) :
    p = .returned ∨ p.dozes (mem.macros m) = true ∨ BlockedJoin pool i p.joins := by
  cases p with
  | returned => exact .inl rfl
  | copy other p =>
    rw [move] at h
    exact .inr (CopyPc.blocked_of_move h)
  | destroy p =>
    rw [move] at h
    exact .inr (DisablePc.blocked_of_move h)
  | checkName val => cases val <;> cases h
  | _ => cases h

/-- **Where a thread stops**, the mutex and null contexts apart. -/
theorem Thread.blocked_of_move {c : Config Memory Thread} {t : Thread}
    (h : t.move c i true = none) :
    t.ended = true ∨ t.dozes c.shared = true ∨ BlockedJoin c.pool i t.joins := by
  cases t with
  | worker m o p =>
    rw [move] at h
    rcases RunPc.dozes_of_move h with rfl | hdozes
    · exact .inl rfl
    · exact .inr (.inl hdozes)
  | reset m o p =>
    rw [move] at h
    rcases ResetPc.blocked_of_move h with rfl | hblocked
    · exact .inl rfl
    · exact .inr hblocked
  | call m p =>
    rw [move] at h
    rcases CallPc.blocked_of_move h with rfl | hblocked
    · exact .inl rfl
    · exact .inr hblocked

end Moves

/-! ## Who holds the mutex -/

section Holders

variable {mac : Macro} {mem : Memory} {m : MacroId} {i : ThreadId} {a : Access}
  {pool : List Thread}

/-- `limitMaxThreads` takes no mutex, and so waits for none. -/
theorem LimitPc.Step.unguarded {p : LimitPc} {q : Option LimitPc} (h : p.Step mac a q) :
    a.guarded = false := by
  cases h <;> rfl

/-- A wait that holds the mutex does not take it again. -/
theorem WaitPc.Step.unguarded {b : Bool} {p : WaitPc} {q : Option WaitPc} (h : p.Step mac b a q)
    (hp : p.holds = 1) : a.guarded = false := by
  cases h <;> first | rfl | cases hp

/-- `run`, where it holds the mutex in `pauseLoop`, takes no other. -/
theorem RunPc.Step.unguarded {p p' : RunPc} {ev : List Event} (h : p.Step mem m i a p' ev)
    (hp : p.holds = 1) : a.guarded = false := by
  cases h with
  | pauseWait h | pauseOver h => exact h.unguarded hp
  | _ => cases hp

/-- `start`, where it holds the mutex, takes no other. -/
theorem StartPc.Step.unguarded {w : ThreadId} {p : StartPc} {q : Option StartPc}
    {ts : List Thread} {ev : List Event} (h : p.Step mem m i w a q ts ev) (hp : p.holds = 1) :
    a.guarded = false := by
  cases h with
  | lock => cases hp
  | incLimit h | incLimited h | limit h | limited h => exact h.unguarded
  | _ => rfl

/-- `clearThreadsSticky`, where it holds the mutex in its wait, takes no other. -/
theorem StickyPc.Step.unguarded {clearType : Interrupt} {p : StickyPc} {q : Option StickyPc}
    (h : p.Step mac clearType a q) (hp : p.holds = 1) : a.guarded = false := by
  cases h with
  | wait h | waited h => exact h.unguarded hp
  | running _ hp' => rcases hp' with rfl | rfl <;> cases hp
  | notRunning _ hp' => rcases hp' with rfl | ⟨rfl, -⟩ <;> cases hp
  | _ => cases hp

/-- `clearThreads`, where it holds the mutex in its wait, takes no other. -/
theorem ClearPc.Step.unguarded {clearType : Interrupt} {stickyInterrupt : Bool}
    {p : ClearPc stickyInterrupt} {q : Option (ClearPc stickyInterrupt)}
    (h : p.Step pool mac i clearType a q) (hp : p.holds = 1) : a.guarded = false := by
  cases h with
  | wait h | waited h => exact h.unguarded hp
  | sticky h | cleared h => exact h.unguarded hp
  | _ => cases hp

/-- `disableEverything`, where it holds the mutex in `clearThreads`, takes no other. -/
theorem DisablePc.Step.unguarded {p : DisablePc} {q : Option DisablePc}
    (h : p.Step pool mac i a q) (hp : p.holds = 1) : a.guarded = false := by
  cases h with
  | clear h | cleared h => exact h.unguarded hp
  | _ => cases hp

/-- **A thread that holds the mutex does not wait for it.** -/
theorem Thread.Step.unguarded {c : Config Memory Thread} {t : Thread} {mv : Move}
    (h : t.Step c i mv) (ht : t.holds t.macroId = 1) : mv.access.guarded = false := by
  cases h with
  | worker h => exact h.unguarded (by simpa [holds] using ht)
  | reset h =>
    rw [holds, Thread.macroId, onMacro_reset] at ht
    cases h with
    | clear h | cleared h => exact h.unguarded ht
    | _ => cases ht
  | call h =>
    rw [holds, Thread.macroId, onMacro_call] at ht
    cases h with
    | start h | started h => exact h.unguarded ht
    | copy h =>
      cases h with
      | disable h | disabled h => exact h.unguarded ht
      | _ => cases ht
    | copied h => cases h <;> cases ht
    | destroy h | destroyed h => exact h.unguarded ht
    | _ => cases ht

/-- A sleeper does not hold the mutex, which it released as it fell asleep. -/
theorem WaitPc.holds_of_dozes {p : WaitPc} (h : p.dozes mac = true) : p.holds = 0 := by
  cases p with
  | asleep => rfl
  | _ => cases h

/-- Nor does `clearThreads` while it sleeps. -/
theorem ClearPc.holds_of_dozes {stickyInterrupt : Bool} {p : ClearPc stickyInterrupt}
    (h : p.dozes mac = true) : p.holds = 0 := by
  cases p with
  | wait hs p => exact p.holds_of_dozes h
  | sticky hs p =>
    cases p with
    | wait p => exact p.holds_of_dozes h
    | _ => cases h
  | _ => cases h

/-- Nor does `disableEverything` hold the mutex while it sleeps. -/
theorem DisablePc.holds_of_dozes {p : DisablePc} (h : p.dozes mac = true) : p.holds = 0 := by
  cases p with
  | clear p => exact p.holds_of_dozes h
  | _ => cases h

/-- Nor does `clearThreads` while it joins. -/
theorem ClearPc.holds_of_joins {stickyInterrupt : Bool} {p : ClearPc stickyInterrupt}
    {l : List ThreadId} (h : p.joins = some l) : p.holds = 0 := by
  cases p with
  | join => rfl
  | _ => cases h

/-- Whoever joins the workers in `disableEverything` does not hold the mutex. -/
theorem DisablePc.holds_of_joins {p : DisablePc} {l : List ThreadId} (h : p.joins = some l) :
    p.holds = 0 := by
  cases p with
  | clear p => exact p.holds_of_joins h
  | _ => cases h

/-- **A thread that has stopped holds no mutex**: it has ended, sleeps, stays on, or joins. -/
theorem Thread.holds_of_stopped {t : Thread} (h : t.ended = true ∨ t.dozes mem = true ∨
    t.staysOn mem = true ∨ ∃ l, t.joins = some l) : t.holds t.macroId = 0 := by
  cases t with
  -- a sleeper has given the mutex up, and nobody joins under it
  | worker m o p =>
    rw [holds, macroId, onMacro_worker]
    cases p with
    | pause p =>
      cases p with
      | test => rfl
      | loop p =>
        rcases h with h | h | h | ⟨l, h⟩
        · cases h
        · exact p.holds_of_dozes h
        · cases h
        · cases h
    | _ => rfl
  | reset m o p =>
    rw [holds, macroId, onMacro_reset]
    cases p with
    | clear prev p =>
      rcases h with h | h | h | ⟨l, h⟩
      · cases h
      · exact p.holds_of_dozes h
      · cases h
      · exact p.holds_of_joins h
    | _ => rfl
  | call m p =>
    rw [holds, macroId, onMacro_call]
    cases p with
    | start p => rcases h with h | h | h | ⟨l, h⟩ <;> cases h
    | copy other p =>
      cases p with
      | disable p =>
        rcases h with h | h | h | ⟨l, h⟩
        · cases h
        · exact p.holds_of_dozes h
        · cases h
        · exact p.holds_of_joins h
      | _ => rfl
    | destroy p =>
      rcases h with h | h | h | ⟨l, h⟩
      · cases h
      · exact p.holds_of_dozes h
      · cases h
      · exact p.holds_of_joins h
    | _ => rfl

end Holders

/-! ## Contexts -/

/-- Who writes the context of a macro: `setContext` and the assignment of `copy`. -/
theorem Access.apply_context {m : MacroId} {mem mem' : Memory} {a : Access} :
    a.apply m mem = some mem' → (mem'.macros m).context = match a with
      | setContext ctx => ctx
      | assign other => (mem.macros other).context
      | _ => (mem.macros m).context := by
  intro h
  cases a with
  | setContext | assign =>
    obtain rfl := Option.some.inj (perform_of_apply h)
    simp [Memory.copyFrom]
  | block b => exact Block.context_apply (perform_of_apply h)
  | _ => exact (apply_sameConfig h rfl).context

/-- No call comes to `setContext` but as the client makes it. -/
theorem Thread.Step.dropsContext {c : Config Memory Thread} {i : ThreadId} {t : Thread} {mv : Move}
    (h : t.Step c i mv) : mv.next.dropsContext = false := by
  cases h with
  | worker | reset => rfl
  | call h => cases h <;> rfl

/-- A step leaves its macro with a context, unless it is a `setContext` to null. -/
theorem Thread.Step.context {c : Config Memory Thread} {i : ThreadId} {t : Thread} {mv : Move}
    {mem : Memory} (h : t.Step c i mv) (ha : mv.access.apply t.macroId c.shared = some mem)
    (hdrops : t.dropsContext = false) (hctx : ∀ m, (c.shared.macros m).context ≠ none) :
    (mem.macros t.macroId).context ≠ none := by
  have hafter := Access.apply_context ha
  rcases h.inner_or_outer with hin | hout
  · generalize mv.access = a at hin hafter
    cases a with
    | setContext | assign => cases hin
    | _ => exact hafter ▸ hctx _
  · cases hout with
    | @setContext m ctx =>
      cases ctx with
      | none => cases hdrops
      | some ctx =>
        rw [hafter]
        nofun
    | assign => exact hafter ▸ hctx _
    | _ => exact hafter ▸ hctx _

/-- **Macros keep a context**, when clients give them no null context. -/
theorem context_of_run {allowed : Config Memory Thread → Label Thread Bool → Prop} {mem : Memory}
    {c : Config Memory Thread} {tr : List Event}
    (hallowed : ∀ c l, allowed c l → givesContext l = true)
    (hinit : ∀ m, (mem.macros m).context ≠ none) (h : program.Run allowed (initial mem) tr c) :
    ∀ m, (c.shared.macros m).context ≠ none := by
  suffices hinv : (∀ m, (c.shared.macros m).context ≠ none) ∧
      ∀ t ∈ c.pool, t.dropsContext = false from hinv.1
  refine Machine.Run.invariant (P := fun _ c => (∀ m, (c.shared.macros m).context ≠ none) ∧
    ∀ t ∈ c.pool, t.dropsContext = false) ⟨hinit, by simp⟩ ?_ ?_ h
  · rintro _ c t ev ⟨hctx, hpool⟩ ok _
    refine ⟨hctx, forall_mem_concat hpool ?_⟩
    simpa [givesContext] using hallowed c _ ok
  · rintro _ c i k t e ⟨hctx, hpool⟩ _ ht he
    obtain ⟨a, hs, ha⟩ := step_of_program_move he
    refine ⟨fun m => ?_, forall_mem_set_append hpool hs.dropsContext fun u hu => ?_⟩
    · by_cases hm : t.macroId = m
      · subst hm
        exact hs.context ha (hpool t (List.mem_of_getElem? ht)) hctx
      · rw [macros_of_ne he hm]
        exact hctx m
    · rcases hs.of_mem_spawned hu with rfl | rfl <;> rfl

/-- A forced reset is one of the macro of its thread. -/
theorem resetFindsZero_of_resetsFindZero {c : Config Memory Thread} {l : Label Thread Bool}
    (h : resetsFindZero c l = true) (m : MacroId) : resetFindsZero m c l = true := by
  cases l with
  | call t => rfl
  | step i k =>
    rw [resetsFindZero] at h
    rw [resetFindsZero]
    cases ht : c.pool[i]? with
    | none => rfl
    | some t =>
      rw [ht, Option.all_some] at h
      rw [Option.any_some]
      cases hreset : t.forcesReset m with
      | false => rfl
      | true =>
        cases t with
        | worker | reset => cases hreset
        | call m' pc =>
          obtain ⟨rfl, hresets⟩ := Thread.forcesReset_call.mp hreset
          rw [Thread.macroId, hreset] at h
          exact h

/-! ## At rest -/

section Rest

variable {c : Config Memory Thread} {i : ThreadId} {t : Thread} {m : MacroId}

/-- With a context an access waits for the mutex only. -/
theorem Access.exists_apply {mem : Memory} {a : Access} (hctx : (mem.macros m).context ≠ none)
    (hfree : a.guarded = true → (mem.macros m).locked = false) :
    ∃ mem', a.apply m mem = some mem' := by
  rw [apply, if_neg fun h => by rw [hfree h.1] at h; cases h.2]
  cases a with
  | block b => exact b.exists_apply hctx
  | removeDispatch => exact Block.exists_apply hctx .removeDispatch
  | _ => exact ⟨_, rfl⟩

/-- **A thread that does not move at rest** has stopped, or it would take the mutex, and does not
hold it. -/
theorem stopped_of_rest (hctx : ∀ m, (c.shared.macros m).context ≠ none)
    (hrest : ∀ c', ¬ program.Advances Proceeds c c') (ht : c.pool[i]? = some t)
    (hfree : t.holds t.macroId = 1 ∨ (c.shared.macros t.macroId).locked = false) :
    t.ended = true ∨ t.dozes c.shared = true ∨ t.staysOn c.shared = true ∨
      BlockedJoin c.pool i t.joins := by
  cases hmove : t.move c i true with
  | none =>
    rcases Thread.blocked_of_move hmove with hended | hdozes | hjoin
    · exact .inl hended
    · exact .inr (.inl hdozes)
    · exact .inr (.inr (.inr hjoin))
  | some mv =>
    -- the move can be made, so it is one that nobody counts
    obtain ⟨mem', ha⟩ : ∃ mem', mv.access.apply t.macroId c.shared = some mem' := by
      refine Access.exists_apply (hctx _) fun hg => hfree.resolve_left fun hholds => ?_
      rw [(Thread.step_of_move hmove).unguarded hholds] at hg
      cases hg
    by_cases hcounts : t.dozes c.shared = false ∧ t.staysOn c.shared = false
    · refine absurd ⟨i, true, mv.events, ?_, Machine.step_step_iff.mpr
        ⟨t, ⟨mem', mv.next, mv.spawned, mv.events⟩, ht, ?_, rfl, rfl⟩⟩ (hrest _)
      · intro u hu
        rw [← Option.some.inj (ht.symm.trans hu)]
        exact hcounts
      · simp only [program, hmove, Option.bind_some, ha, Option.map_some]
    · rcases not_and_or.mp hcounts with hdozes | hstays
      · exact .inr (.inl (Bool.not_eq_false _ ▸ hdozes))
      · exact .inr (.inr (.inl (Bool.not_eq_false _ ▸ hstays)))

/-- **At rest every mutex is free**: who holds one can go on. -/
theorem unlocked_of_rest (hctx : ∀ m, (c.shared.macros m).context ≠ none)
    (hrest : ∀ c', ¬ program.Advances Proceeds c c')
    (hlocked : (c.shared.macros m).locked.toNat = weight (Thread.holds m) c.pool) :
    (c.shared.macros m).locked = false := by
  have hnone : weight (Thread.holds m) c.pool = 0 := by
    rw [weight_eq_zero_iff]
    intro t ht
    by_cases hm : t.macroId = m
    · subst hm
      obtain ⟨i, hi⟩ := List.mem_iff_getElem?.mp ht
      have hle := le_weight (Thread.holds t.macroId) ht
      have hbit := Bool.toNat_le (c.shared.macros t.macroId).locked
      by_contra hne
      -- the owner of the mutex could go on, unless it has stopped without it
      have hstopped := stopped_of_rest hctx hrest hi (.inl (by omega))
      have hstill : t.ended = true ∨ t.dozes c.shared = true ∨ t.staysOn c.shared = true ∨
          ∃ l, t.joins = some l := by
        rcases hstopped with h | h | h | ⟨w, rest, h, -⟩
        · exact .inl h
        · exact .inr (.inl h)
        · exact .inr (.inr (.inl h))
        · exact .inr (.inr (.inr ⟨_, h⟩))
      exact hne (Thread.holds_of_stopped hstill)
    · exact Thread.onMacro_of_ne hm
  rw [hnone] at hlocked
  exact Bool.toNat_eq_zero.mp hlocked

/-- At rest with free mutexes a worker has ended or lingers. -/
theorem lingers_of_worker (hctx : ∀ m, (c.shared.macros m).context ≠ none)
    (hrest : ∀ c', ¬ program.Advances Proceeds c c')
    (hfree : (c.shared.macros t.macroId).locked = false) (ht : t ∈ c.pool)
    (hworker : t.isWorker = true) : t.ended = true ∨ t.lingers c.shared = true := by
  obtain ⟨i, hi⟩ := List.mem_iff_getElem?.mp ht
  rcases stopped_of_rest hctx hrest hi (.inr hfree) with
    hended | hdozes | hstays | ⟨w, rest, hjoin, -⟩
  · exact .inl hended
  · exact .inr (by rw [Thread.lingers, hworker, hdozes]; rfl)
  · exact .inr (by rw [Thread.lingers, hworker, hstays, Bool.or_true]; rfl)
  · cases t with
    | worker => cases hjoin
    | _ => cases hworker

/-- A wait that dozes has been asleep since the last notification. -/
theorem WaitPc.eq_asleep_of_dozes {mac : Macro} {p : WaitPc} (h : p.dozes mac = true) :
    p = .asleep mac.notified := by
  cases p with
  | asleep n => rw [of_decide_eq_true h]
  | _ => cases h

/-- `disableEverything` sleeps in `waitThreadsChanged`, since the last notification. -/
theorem DisablePc.waits_of_dozes {mac : Macro} {p : DisablePc} (h : p.dozes mac = true) :
    p.waits = some (.asleep mac.notified) := by
  cases p with
  | clear p =>
    cases p with
    | wait hs => cases hs
    | sticky hs p =>
      cases p with
      | wait p =>
        rw [WaitPc.eq_asleep_of_dozes h]
        rfl
      | _ => cases h
    | _ => cases h
  | _ => cases h

/-- **A thread that is no worker** sleeps in `waitThreadsChanged`. -/
theorem Thread.waits_of_dozes {mem : Memory} (h : t.dozes mem = true)
    (hworker : t.isWorker = false) : t.waits = some (.asleep (mem.macros t.macroId).notified) := by
  cases t with
  | worker => cases hworker
  | reset m o p =>
    cases p with
    | clear prev p =>
      cases p with
      | wait hs p =>
        rw [WaitPc.eq_asleep_of_dozes h]
        rfl
      | sticky hs => cases hs
      | _ => cases h
    | _ => cases h
  | call m p =>
    cases p with
    | copy other p =>
      cases p with
      | disable p => exact DisablePc.waits_of_dozes h
      | _ => cases h
    | destroy p => exact DisablePc.waits_of_dozes h
    | _ => cases h

/-- A worker that is counted has not ended. -/
theorem Thread.counted_of_ended (h : t.ended = true) : t.counted m = 0 := by
  cases t with
  | worker m' o p =>
    cases p with
    | finished => simp [onMacro, RunPc.counted]
    | _ => cases h
  | reset | call => simp [onMacro]

/-- A thread that has yet to notify has not stopped. -/
theorem Thread.not_stopped_of_tells (h : t.tells m = true) (mem : Memory) :
    t.ended = false ∧ t.dozes mem = false ∧ t.staysOn mem = false ∧ t.joins = none := by
  cases t with
  | worker m' o p =>
    have hleaving := (Bool.and_eq_true_iff.mp h).2
    cases p with
    -- between the decrement of the count and the notification nothing blocks
    | release | notifyDone => exact ⟨rfl, rfl, rfl, rfl⟩
    | _ => cases hleaving
  | reset => cases h
  | call m' p =>
    have htells := (Bool.and_eq_true_iff.mp h).2
    have hp : ∀ q : DisablePc, q.tells = true →
        q.dozes (mem.macros m') = false ∧ q.joins = none := by
      intro q hq
      unfold DisablePc.tells at hq
      split at hq
      · exact ⟨rfl, rfl⟩
      · cases hq
    cases p with
    | copy other p =>
      cases p with
      | disable p => exact ⟨rfl, (hp p htells).1, rfl, (hp p htells).2⟩
      | _ => cases htells
    | destroy p => exact ⟨rfl, (hp p htells).1, rfl, (hp p htells).2⟩
    | _ => cases htells

/-- Where the workers of a macro have ended, nobody sleeps until they do. -/
theorem not_waits_of_workers_ended (hctx : ∀ m, (c.shared.macros m).context ≠ none)
    (hrest : ∀ c', ¬ program.Advances Proceeds c c')
    (hfree : ∀ m, (c.shared.macros m).locked = false)
    (hcount : (c.shared.macros m).threadCount = weight (Thread.counted m) c.pool)
    (hworkers : ∀ u ∈ c.pool, u.macroId = m → u.isWorker = true → u.ended = true)
    (hwaiting : Waiting m c t) : t.waits ≠ some (.asleep (c.shared.macros m).notified) := by
  intro hw
  rcases (hwaiting.asleep _ hw).2 rfl with hne | ⟨u, hu, htells⟩
  · -- nothing is counted
    refine hne ?_
    rw [hcount, weight_eq_zero_iff]
    intro u hu
    by_cases hm : u.macroId = m
    · cases hu' : u.isWorker with
      | true => exact Thread.counted_of_ended (hworkers u hu hm hu')
      | false =>
        cases u with
        | worker => cases hu'
        | reset | call => simp [Thread.onMacro]
    · exact Thread.onMacro_of_ne hm
  · -- who lowered the count would notify
    obtain ⟨hended, hdozes, hstays, hjoins⟩ := Thread.not_stopped_of_tells htells c.shared
    obtain ⟨j, hj⟩ := List.mem_iff_getElem?.mp hu
    rcases stopped_of_rest hctx hrest hj (.inr (hfree _)) with h | h | h | ⟨w, rest, h, -⟩
    · cases hended.symm.trans h
    · cases hdozes.symm.trans h
    · cases hstays.symm.trans h
    · cases hjoins.symm.trans h

/-- **What is left at rest**: every thread has ended, or a worker of its macro lingers. Clients
give macros no null context, and forced resets find the count at 0. -/
theorem ended_or_lingers_of_rest {mem : Memory} {tr : List Event}
    (hinit : ∀ m, Unused (mem.macros m))
    (h : program.Run (fun c l => resetsFindZero c l = true ∧ givesContext l = true)
      (initial mem) tr c)
    (hrest : ∀ c', ¬ program.Advances Proceeds c c') :
    ∀ t ∈ c.pool, t.ended = true ∨
      ∃ u ∈ c.pool, u.macroId = t.macroId ∧ u.lingers c.shared = true := by
  have hctx := context_of_run (fun _ _ ok => ok.2) (fun m => (hinit m).context) h
  have hfree m : (c.shared.macros m).locked = false :=
    unlocked_of_rest hctx hrest (locked_eq_weight m (hinit m).locked h)
  have hcount m : (c.shared.macros m).threadCount = weight (Thread.counted m) c.pool :=
    threadCount_eq_weight_of_resets (fun _ _ ok => resetFindsZero_of_resetsFindZero ok.1 m)
      (hinit m).threadCount h
  intro t ht
  by_cases hlingers : ∃ u ∈ c.pool, u.macroId = t.macroId ∧ u.lingers c.shared = true
  · exact .inr hlingers
  left
  have hworkers : ∀ u ∈ c.pool, u.macroId = t.macroId → u.isWorker = true → u.ended = true := by
    intro u hu hm hworker
    refine (lingers_of_worker hctx hrest (hfree _) hu hworker).resolve_right fun hl => ?_
    exact hlingers ⟨u, hu, hm, hl⟩
  cases hw : t.isWorker with
  | true => exact hworkers t ht rfl hw
  | false =>
    obtain ⟨i, hi⟩ := List.mem_iff_getElem?.mp ht
    rcases stopped_of_rest hctx hrest hi (.inr (hfree _)) with
      hended | hdozes | hstays | ⟨w, rest, hjoins, hblocked⟩
    · exact hended
    · have hwaiting := waiting_of_run (hinit t.macroId).locked h t ht rfl
      exact absurd (Thread.waits_of_dozes hdozes hw)
        (not_waits_of_workers_ended hctx hrest hfree (hcount _) hworkers hwaiting)
    · cases t with
      | worker => cases hw
      | _ => cases hstays
    · -- the handle is that of a worker, so the join would go on
      have hhandle : Handle t.macroId c w :=
        .inr ⟨t, ht, rfl, _, hjoins, List.mem_cons_self⟩
      obtain ⟨o, p, hp⟩ := ofWorker_of_run (hinit _).threads h w hhandle
      refine absurd (.inr ?_) hblocked
      rw [hp, Option.all_some]
      exact hworkers _ (List.mem_of_getElem? hp) rfl rfl

/-- Where everybody has ended or dozes nobody can proceed: the state is at rest. -/
theorem not_advances_of_all (h : ∀ t ∈ c.pool, t.ended = true ∨ t.dozes c.shared = true)
    (c' : Config Memory Thread) : ¬ program.Advances Proceeds c c' := by
  rintro ⟨i, k, ev, hok, hstep⟩
  obtain ⟨t, e, ht, he, -, -⟩ := Machine.step_step_iff.mp hstep
  rcases h t (List.mem_of_getElem? ht) with hended | hdozes
  · rw [move_of_ended hended] at he
    cases he
  · rw [(hok t ht).1] at hdozes
    cases hdozes

end Rest

/-- A paused macro at rest: its worker sleeps, and the destructor waits for it. -/
theorem ended_or_lingers_of_rest_paused : ∃ tr c,
    program.Run (fun c l => resetsFindZero c l = true ∧ givesContext l = true)
        (initial (.ofMacro pausedMacro)) tr c ∧
      (∀ c', ¬ program.Advances Proceeds c c') ∧
      (c.pool[2]?.any fun t => !t.ended) = true ∧
      ∀ t ∈ c.pool, t.ended = true ∨
        ∃ u ∈ c.pool, u.macroId = t.macroId ∧ u.lingers c.shared = true := by
  obtain ⟨tr, c, h, hp⟩ := Machine.Run.exists_of_exec
    (fun c l => resetsFindZero c l && givesContext l) (initial (.ofMacro pausedMacro))
    (spawnOne ++ List.replicate 7 (.step 1 true) ++
      .call (.call 0 (.destroy (.dequeue .queued))) :: List.replicate 11 (.step 2 true) ++
      [.step 1 true] ++ List.replicate 3 (.step 2 true)) (M := program)
    (P := fun _ c => (∀ t ∈ c.pool, t.ended = true ∨ t.dozes c.shared = true) ∧
      (c.pool[2]?.any fun t => !t.ended) = true) (by decide +kernel)
  obtain ⟨hall, hwaits⟩ := of_decide_eq_true hp
  have hrest := not_advances_of_all hall
  exact ⟨tr, c, h.and_of_bool, hrest, hwaits,
    ended_or_lingers_of_rest (fun _ => ⟨Option.some_ne_none 0, rfl, rfl, rfl⟩) h.and_of_bool hrest⟩

end Libmacro
