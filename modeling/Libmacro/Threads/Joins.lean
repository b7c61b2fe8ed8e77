import Libmacro.Threads.Handles
import Libmacro.Threads.PausedShutdown

/-! # Joining the workers

`joinAllThreads` goes through the handles in `_threads` one by one and waits for the thread behind
each, then it drops them all. It takes no mutex, and a handle that is put into `_threads` meanwhile
is dropped unjoined.

`joined_of_run`: in the runs in which no worker is created while a `joinAllThreads` of the macro is
under way, no handle of a running worker is ever dropped, and a `joinAllThreads` that is through has
outlived every worker. `destroyed_of_returned`: so the destructor leaves no worker behind, when the
client makes no other call on the macro at that time. -/

namespace Libmacro

open Interleaving

/-- The handles that `clearThreads` has still to join, once it does. -/
def ClearPc.joins {stickyInterrupt : Bool} : ClearPc stickyInterrupt → Option (List ThreadId)
  | join rest => some rest
  | _ => none

/-- Those of `disableEverything`, which joins in `clearThreads`. -/
def DisablePc.joins : DisablePc → Option (List ThreadId)
  | clear p => p.joins
  | _ => none

/-- A reset thread joins in `clearThreads`. -/
def ResetPc.joins : ResetPc → Option (List ThreadId)
  | clear _ p => p.joins
  | _ => none

/-- Those of `copy`, which joins in `disableEverything`. -/
def CopyPc.joins : CopyPc → Option (List ThreadId)
  | disable p => p.joins
  | _ => none

/-- Those of a call: `copy` and the destructor are the calls that join. -/
def CallPc.joins : CallPc → Option (List ThreadId)
  | copy _ p => p.joins
  | destroy p => p.joins
  | _ => none

/-- The handles that a thread inside `joinAllThreads` has still to join. -/
def Thread.joins : Thread → Option (List ThreadId)
  | worker _ _ _ => none
  | reset _ _ pc => pc.joins
  | call _ pc => pc.joins

/-- No `start` of macro `m` comes to create its worker while a thread of the macro is inside
`joinAllThreads`. -/
def spawnsApart (m : MacroId) (c : Config Memory Thread) : Label Thread Bool → Bool
  | .step i _ =>
    match c.pool[i]? with
    | some (.call m' (.start .spawn)) =>
      m' ≠ m || c.pool.all fun t => t.macroId ≠ m || t.joins = none
    | _ => true
  | .call _ => true

/-- The client makes no call on macro `m`; the threads may do what they do. -/
def callsApart (m : MacroId) : Label Thread Bool → Bool
  | .call t => t.macroId ≠ m
  | .step _ _ => true

/-! ## The edges -/

/-- How a thread gets to the handles `rest`: it finds them in `_threads`, or it has one more and
that one has been joined, or is its own. -/
def JoinsNext (c : Config Memory Thread) (m : MacroId) (i : ThreadId)
    (before : Option (List ThreadId)) (rest : List ThreadId) : Prop :=
  before = none ∧ rest = (c.shared.macros m).threads ∨
    ∃ w, before = some (w :: rest) ∧ (w = i ∨ c.pool[w]?.all Thread.ended = true)

section Edges

variable {c : Config Memory Thread} {m : MacroId} {i : ThreadId} {a : Access}
  {rest : List ThreadId}

/-- `clearThreads` joins the handles it finds, one after the other. -/
theorem ClearPc.Step.joins {clearType : Interrupt} {stickyInterrupt : Bool}
    {p : ClearPc stickyInterrupt} {q : Option (ClearPc stickyInterrupt)}
    (h : p.Step c.pool (c.shared.macros m) i clearType a q)
    (hq : q.bind ClearPc.joins = some rest) : JoinsNext c m i p.joins rest := by
  cases h with
  | joinAll =>
    obtain rfl := Option.some.inj hq
    exact .inl ⟨rfl, rfl⟩
  | join hw =>
    obtain rfl := Option.some.inj hq
    exact .inr ⟨_, rfl, hw⟩
  | _ => cases hq

/-- A step of `disableEverything` reads the handles, joins the first or goes elsewhere, as
`clearThreads` does. -/
theorem DisablePc.Step.joins {p : DisablePc} {q : Option DisablePc}
    (h : p.Step c.pool (c.shared.macros m) i a q) (hq : q.bind DisablePc.joins = some rest) :
    JoinsNext c m i p.joins rest := by
  cases h with
  | clear h => exact h.joins hq
  | _ => cases hq

/-- So does a step of `resetThread`. -/
theorem ResetPc.Step.joins {origin : ThreadId} {p p' : ResetPc} {ev : List Event}
    (h : p.Step c.pool (c.shared.macros m) m i origin a p' ev) (hp' : p'.joins = some rest) :
    JoinsNext c m i p.joins rest := by
  cases h with
  | clear h => exact h.joins hp'
  | _ => cases hp'

/-- So does a step of `copy`, up to its assignment. -/
theorem CopyPc.Step.joins {other : MacroId} {p : CopyPc} {q : Option CopyPc}
    (h : p.Step c.pool (c.shared.macros m) m other i a q)
    (hq : q.bind CopyPc.joins = some rest) : JoinsNext c m i p.joins rest := by
  cases h with
  | disable h => exact h.joins hq
  | _ => cases hq

/-- So does a step of any client call. -/
theorem CallPc.Step.joins {p p' : CallPc} {ts : List Thread} {ev : List Event}
    (h : p.Step c.shared c.pool m i a p' ts ev) (hp' : p'.joins = some rest) :
    JoinsNext c m i p.joins rest := by
  cases h with
  | copy h => exact h.joins hp'
  | destroy h => exact h.joins hp'
  | _ => cases hp'

/-- **How a thread joins**: it has read the handles of its macro, or has one less to join, whose
worker has ended. -/
theorem Thread.Step.joins {t : Thread} {mv : Move} (h : t.Step c i mv)
    (hnext : mv.next.joins = some rest) : JoinsNext c t.macroId i t.joins rest := by
  cases h with
  | worker => cases hnext
  | reset h => exact h.joins hnext
  | call h => exact h.joins hnext

/-- `dequeue` drops no handles. -/
theorem DequeuePc.Step.ne_clearThreads {val : Interrupt} {p : DequeuePc} {q : Option DequeuePc}
    (h : p.Step val a q) : a ≠ .clearThreads := by
  cases h <;> nofun

/-- `clearThreadsSticky` drops no handles: the joins come after it. -/
theorem StickyPc.Step.ne_clearThreads {mac : Macro} {clearType : Interrupt} {p : StickyPc}
    {q : Option StickyPc} (h : p.Step mac clearType a q) : a ≠ .clearThreads := by
  cases h with
  | dequeue h | dequeued h => exact h.ne_clearThreads
  | wait h | waited h => exact h.ne_clearThreads
  | _ => nofun

/-- `clearThreads` drops the handles when it is through. -/
theorem ClearPc.Step.joins_of_clearThreads {pool : List Thread} {mac : Macro}
    {clearType : Interrupt} {stickyInterrupt : Bool} {p : ClearPc stickyInterrupt}
    {q : Option (ClearPc stickyInterrupt)} (h : p.Step pool mac i clearType a q)
    (ha : a = .clearThreads) : p.joins = some [] := by
  cases h with
  | joined => rfl
  | dequeue h | dequeued h | dequeuedSticky h => exact absurd ha h.ne_clearThreads
  | wait h | waited h => exact absurd ha h.ne_clearThreads
  | sticky h | cleared h => exact absurd ha h.ne_clearThreads
  | joinAll | join => cases ha

/-- `disableEverything` drops the handles when it has joined them all. -/
theorem DisablePc.Step.joins_of_clearThreads {pool : List Thread} {mac : Macro} {p : DisablePc}
    {q : Option DisablePc} (h : p.Step pool mac i a q) (ha : a = .clearThreads) :
    p.joins = some [] := by
  cases h with
  | dequeue h | dequeued h => exact absurd ha h.ne_clearThreads
  | remove => cases ha
  | clear h | cleared h => exact h.joins_of_clearThreads ha

/-- So does `copy`, whose handles are dropped in its `disableEverything`. -/
theorem CopyPc.Step.joins_of_clearThreads {pool : List Thread} {mac : Macro} {other : MacroId}
    {p : CopyPc} {q : Option CopyPc} (h : p.Step pool mac m other i a q)
    (ha : a = .clearThreads) : p.joins = some [] := by
  cases h with
  | disable h | disabled h => exact h.joins_of_clearThreads ha
  | limit h | limited h => exact absurd ha h.ne_clearThreads
  | _ => cases ha

/-- **Who drops handles**: a thread that is through with `joinAllThreads`. -/
theorem Thread.Step.joins_of_clearThreads {t : Thread} {mv : Move} (h : t.Step c i mv)
    (ha : mv.access = .clearThreads) : t.joins = some [] := by
  cases h with
  | worker h => exact absurd ha h.ne_clearThreads
  | reset h =>
    cases h with
    | dequeue h | dequeued h => exact absurd ha h.ne_clearThreads
    | clear h | cleared h => exact h.joins_of_clearThreads ha
    | set h | setDone h => exact absurd ha h.ne_clearThreads
    | _ => cases ha
  | call h =>
    cases h with
    | start h | started h => exact absurd ha h.ne_clearThreads
    | setInterruptor h | setDone h => exact absurd ha h.ne_clearThreads
    | limit h | limited h => exact absurd ha h.ne_clearThreads
    | copy h | copied h => exact h.joins_of_clearThreads ha
    | destroy h | destroyed h => exact h.joins_of_clearThreads ha
    | _ => cases ha

end Edges

/-- A client's call begins outside `joinAllThreads`. -/
theorem joins_of_entry {t : Thread} {ev : List Event} (h : t.entry = some ev) :
    t.joins = none := by
  rcases Thread.entry_cases h with ⟨m, rfl, -⟩ | ⟨m, rfl, -⟩ | ⟨m, pc, rfl, -, hpc⟩
  · rfl
  · rfl
  · cases hpc <;> rfl

/-- So does a thread that a step creates. -/
theorem Thread.Step.joins_spawned {c : Config Memory Thread} {i : ThreadId} {t u : Thread}
    {mv : Move} (h : t.Step c i mv) (hu : u ∈ mv.spawned) : u.joins = none := by
  rcases h.of_mem_spawned hu with rfl | rfl <;> rfl

/-- **What a step does to the handles**: a spawn adds that of the worker it creates, a
`joinAllThreads` that is through drops all. -/
theorem Thread.Step.threads_cases {c : Config Memory Thread} {i : ThreadId} {t : Thread}
    {mv : Move} {mem : Memory} (h : t.Step c i mv)
    (ha : mv.access.apply t.macroId c.shared = some mem) :
    (mem.macros t.macroId).threads = (c.shared.macros t.macroId).threads ∨
      (mem.macros t.macroId).threads = (c.shared.macros t.macroId).threads ++ [c.pool.length] ∧
        t = .call t.macroId (.start .spawn) ∧
        mv.spawned = [.worker t.macroId (some i) .count] ∨
      (mem.macros t.macroId).threads = [] ∧ t.joins = some [] := by
  have hthreads := Access.apply_threads ha
  rcases h.inner_or_outer with hin | hout
  · by_cases hclear : mv.access = .clearThreads
    · rw [hclear] at hthreads
      exact .inr (.inr ⟨hthreads, h.joins_of_clearThreads hclear⟩)
    · generalize mv.access = a at hin hclear hthreads
      cases a with
      | pushThread => cases hin
      | clearThreads => exact absurd rfl hclear
      | _ => exact .inl hthreads
  · cases hout with
    | spawn => exact .inr (.inl ⟨hthreads, rfl, rfl⟩)
    | _ => exact .inl hthreads

/-! ## Whose handles these are -/

/-- The handle is one of macro `m`: in `_threads`, or on the list of a thread that joins. -/
def Handle (m : MacroId) (c : Config Memory Thread) (w : ThreadId) : Prop :=
  w ∈ (c.shared.macros m).threads ∨
    ∃ t ∈ c.pool, t.macroId = m ∧ ∃ rest, t.joins = some rest ∧ w ∈ rest

/-- The thread behind the handle is a worker of macro `m`, wherever in `run` it stands. -/
def OfWorker (m : MacroId) (c : Config Memory Thread) (w : ThreadId) : Prop :=
  ∃ o p, c.pool[w]? = some (.worker m o p)

/-- A worker stays one, of the same macro and from the same `start`. -/
theorem OfWorker.step {c : Config Memory Thread} {m : MacroId} {i w : ThreadId} {t : Thread}
    {mv : Move} {mem : Memory} (hw : OfWorker m c w) (ht : c.pool[i]? = some t)
    (h : t.Step c i mv) : OfWorker m ⟨mem, c.pool.set i mv.next ++ mv.spawned⟩ w := by
  obtain ⟨o, p, hp⟩ := hw
  have hafter := getElem?_set_append mv.next mv.spawned ht hp
  by_cases hwi : w = i
  · subst hwi
    obtain rfl := Option.some.inj (ht.symm.trans hp)
    rw [if_pos rfl] at hafter
    cases h with
    | worker => exact ⟨o, _, hafter⟩
  · rw [if_neg hwi] at hafter
    exact ⟨o, p, hafter⟩

/-- A handle after a step is an old one, or that of the worker which the step creates. -/
theorem Handle.of_step {c : Config Memory Thread} {m : MacroId} {i w : ThreadId} {t : Thread}
    {mv : Move} {mem : Memory} (ht : c.pool[i]? = some t) (h : t.Step c i mv)
    (ha : mv.access.apply t.macroId c.shared = some mem)
    (hw : Handle m ⟨mem, c.pool.set i mv.next ++ mv.spawned⟩ w) :
    Handle m c w ∨ w = c.pool.length ∧ mv.spawned = [.worker m (some i) .count] := by
  rcases hw with hw | ⟨u, hu, hm, rest, hjoins, hw⟩
  · by_cases hm : t.macroId = m
    · subst hm
      dsimp only at hw
      rcases h.threads_cases ha with hsame | ⟨hpush, -, hspawned⟩ | ⟨hnone, -⟩
      · exact .inl (.inl (hsame ▸ hw))
      · rw [hpush] at hw
        rcases List.mem_append.mp hw with hold | hnew
        · exact .inl (.inl hold)
        · exact .inr ⟨List.mem_singleton.mp hnew, hspawned⟩
      · rw [hnone] at hw
        cases hw
    · dsimp only at hw
      rw [Access.apply_macros_of_ne ha (Ne.symm hm)] at hw
      exact .inl (.inl hw)
  · left
    rcases List.mem_append.mp hu with hu | hu
    · rcases List.mem_or_eq_of_mem_set hu with hold | rfl
      · exact .inr ⟨u, hold, hm, rest, hjoins, hw⟩
      · -- what is on the list was there before, or has just been read
        obtain rfl := h.macroId.symm.trans hm
        rcases h.joins hjoins with ⟨-, rfl⟩ | ⟨w', hbefore, -⟩
        · exact .inl hw
        · exact .inr ⟨t, List.mem_of_getElem? ht, rfl, _, hbefore, List.mem_cons_of_mem _ hw⟩
    · rw [h.joins_spawned hu] at hjoins
      cases hjoins

/-- **Handles are those of workers**, in every run. -/
theorem ofWorker_of_run {allowed : Config Memory Thread → Label Thread Bool → Prop} {mem : Memory}
    {m : MacroId} {c : Config Memory Thread} {tr : List Event}
    (hinit : (mem.macros m).threads = []) (h : program.Run allowed (initial mem) tr c) :
    ∀ w, Handle m c w → OfWorker m c w := by
  refine Machine.Run.invariant (P := fun _ c => ∀ w, Handle m c w → OfWorker m c w) ?_ ?_ ?_ h
  · rintro w (hw | ⟨t, ht, -⟩)
    · dsimp only [initial] at hw
      rw [hinit] at hw
      cases hw
    · cases ht
  · intro _ c t ev hinv _ he w hw
    have hold : Handle m c w := by
      rcases hw with hw | ⟨u, hu, hm, rest, hjoins, hw⟩
      · exact .inl hw
      · rcases List.mem_append.mp hu with hu | hu
        · exact .inr ⟨u, hu, hm, rest, hjoins, hw⟩
        · rw [List.mem_singleton.mp hu, joins_of_entry he] at hjoins
          cases hjoins
    obtain ⟨o, p, hp⟩ := hinv w hold
    exact ⟨o, p, getElem?_append_of_some hp⟩
  · intro _ c i k t e hinv _ ht he w hw
    obtain ⟨a, hs, ha⟩ := step_of_program_move he
    rcases Handle.of_step ht hs ha hw with hold | ⟨rfl, hspawned⟩
    · exact (hinv w hold).step ht hs
    -- the handle is new: it is of the worker that the same step has created
    · refine ⟨some i, .count, ?_⟩
      dsimp only at hspawned ⊢
      rw [hspawned, List.getElem?_append_right (by simp), List.length_set, Nat.sub_self]
      rfl

/-! ## Runs -/

/-- A worker of macro `m` that `start` has created and that has not ended. -/
def Unfinished (m : MacroId) (c : Config Memory Thread) (w : ThreadId) : Prop :=
  ∃ o p, c.pool[w]? = some (.worker m (some o) p) ∧ p ≠ .finished

/-- **Who is waited for**: an unfinished worker has its handle in `_threads`, and on the list of
every thread inside `joinAllThreads`. -/
structure Awaited (m : MacroId) (c : Config Memory Thread) (w : ThreadId) : Prop where
  handle : w ∈ (c.shared.macros m).threads
  joins : ∀ t ∈ c.pool, t.macroId = m → ∀ rest, t.joins = some rest → w ∈ rest

section Runs

variable {mem : Memory} {m : MacroId} {c : Config Memory Thread} {tr : List Event} {i : ThreadId}
  {t : Thread} {k : Bool} {e : Effect Memory Thread Event}

/-- An unfinished worker after a step was there before, or is the one that the step creates. -/
theorem Unfinished.of_step {w : ThreadId} {mv : Move} {mem' : Memory} (ht : c.pool[i]? = some t)
    (h : t.Step c i mv) (hw : Unfinished m ⟨mem', c.pool.set i mv.next ++ mv.spawned⟩ w) :
    Unfinished m c w ∨
      w = c.pool.length ∧ t = .call m (.start .spawn) ∧
        mv.access = .pushThread c.pool.length ∧ mv.next = .call m (.start .leave) := by
  obtain ⟨o, p, hp, hne⟩ := hw
  rcases Nat.lt_or_ge w c.pool.length with hlt | hge
  · left
    rw [List.getElem?_append_left (by simpa using hlt)] at hp
    by_cases hwi : w = i
    · subst hwi
      rw [List.getElem?_set_self hlt] at hp
      -- the worker itself has moved
      cases h with
      | worker h =>
        obtain ⟨rfl, rfl, rfl⟩ := Thread.worker.inj (Option.some.inj hp)
        refine ⟨o, _, ht, ?_⟩
        rintro rfl
        cases h
      | reset | call => cases hp
    · rw [List.getElem?_set_ne (Ne.symm hwi)] at hp
      exact ⟨o, p, hp, hne⟩
  · right
    rw [List.getElem?_append_right (by simpa using hge), List.length_set] at hp
    rcases h.spawned_cases with hs | ⟨m', rfl, rfl⟩ | ⟨m', val, hval, rfl, rfl⟩
    · rw [hs] at hp
      cases hp
    · obtain ⟨hlt, hget⟩ := List.getElem?_eq_some_iff.mp hp
      have hw : w - c.pool.length = 0 := Nat.lt_one_iff.mp (by simpa using hlt)
      simp only [hw, List.getElem_cons_zero, Thread.worker.injEq] at hget
      obtain ⟨rfl, -, -⟩ := hget
      exact ⟨Nat.le_antisymm (Nat.sub_eq_zero_iff_le.mp hw) hge, rfl, rfl, rfl⟩
    · cases List.mem_singleton.mp (List.mem_of_getElem? hp)

/-- While a worker is created nobody joins. -/
theorem joins_of_spawnsApart (hok : spawnsApart m c (.step i k) = true)
    (ht : c.pool[i]? = some (.call m (.start .spawn))) {u : Thread} (hu : u ∈ c.pool)
    (hm : u.macroId = m) : u.joins = none := by
  simp only [spawnsApart, ht, ne_eq, not_true, decide_false, Bool.false_or, List.all_eq_true,
    Bool.or_eq_true, decide_eq_true_eq] at hok
  exact (hok u hu).resolve_left (not_not_intro hm)

/-- **A step keeps the unfinished workers awaited.** -/
theorem Awaited.step {w : ThreadId} (hawaited : ∀ w, Unfinished m c w → Awaited m c w)
    (hok : spawnsApart m c (.step i k) = true) (ht : c.pool[i]? = some t)
    (he : program.move c i k t = some e)
    (hw : Unfinished m ⟨e.shared, c.pool.set i e.next ++ e.spawned⟩ w) :
    Awaited m ⟨e.shared, c.pool.set i e.next ++ e.spawned⟩ w := by
  obtain ⟨a, hs, ha⟩ := step_of_program_move he
  have hspawned : ∀ u ∈ e.spawned, u.macroId = m → ∀ rest, u.joins = some rest → w ∈ rest := by
    intro u hu _ rest hjoins
    rw [hs.joins_spawned hu] at hjoins
    cases hjoins
  rcases Unfinished.of_step ht hs hw with hold | ⟨rfl, rfl, hpush, hleave⟩
  · have haw := hawaited w hold
    by_cases hm : t.macroId = m
    · subst hm
      constructor
      · rcases hs.threads_cases ha with hsame | ⟨hpush, -, -⟩ | ⟨-, hjoined⟩
        · exact hsame ▸ haw.handle
        · exact hpush ▸ List.mem_append_left _ haw.handle
        · -- what is dropped has been joined
          cases haw.joins t (List.mem_of_getElem? ht) rfl [] hjoined
      · refine forall_mem_set_append haw.joins (fun _ rest hnext => ?_) hspawned
        rcases hs.joins hnext with ⟨-, rfl⟩ | ⟨w', hbefore, hended⟩
        · exact haw.handle
        · rcases List.mem_cons.mp (haw.joins t (List.mem_of_getElem? ht) rfl _ hbefore) with
            rfl | hrest
          · -- the handle just joined is that of a thread that has ended, or of no worker
            obtain ⟨o, p, hp, hne⟩ := hold
            rcases hended with rfl | hended
            · rw [Option.some.inj (ht.symm.trans hp)] at hbefore
              cases hbefore
            · rw [hp, Option.all_some] at hended
              cases p with
              | finished => exact absurd rfl hne
              | _ => cases hended
          · exact hrest
    · refine ⟨macros_of_ne he hm ▸ haw.handle, ?_⟩
      exact forall_mem_set_append haw.joins
        (fun hnext => absurd hnext (hs.macroId.trans_ne hm)) hspawned
  · -- the new worker: its handle is there, and nobody has read the handles yet
    constructor
    · obtain rfl : a = .pushThread c.pool.length := hpush
      have hthreads : (e.shared.macros m).threads = _ := Access.apply_threads ha
      exact hthreads ▸ List.mem_append_right _ (List.mem_singleton_self _)
    · refine forall_mem_set_append (fun u hu hm rest hjoins => ?_) (fun _ rest hnext => ?_)
        hspawned
      · rw [joins_of_spawnsApart hok ht hu hm] at hjoins
        cases hjoins
      · rw [show e.next = .call m (.start .leave) from hleave] at hnext
        cases hnext

/-- A call keeps the unfinished workers awaited, and adds none. -/
theorem Awaited.append {ev : List Event} {w : ThreadId}
    (hawaited : ∀ w, Unfinished m c w → Awaited m c w) (he : t.entry = some ev)
    (hw : Unfinished m ⟨c.shared, c.pool ++ [t]⟩ w) :
    Unfinished m c w ∧ Awaited m ⟨c.shared, c.pool ++ [t]⟩ w := by
  obtain ⟨o, p, hp, hne⟩ := hw
  rcases getElem?_concat_cases hp with hold | ⟨-, rfl⟩
  · have haw := hawaited w ⟨o, p, hold, hne⟩
    refine ⟨⟨o, p, hold, hne⟩, haw.handle, forall_mem_concat haw.joins fun _ rest hjoins => ?_⟩
    rw [joins_of_entry he] at hjoins
    cases hjoins
  · cases he

/-- **Every unfinished worker is awaited**, in the runs in which no worker is created during a
`joinAllThreads`. -/
theorem awaited_of_run (h : program.Run (fun c l => spawnsApart m c l = true) (initial mem) tr c) :
    ∀ w, Unfinished m c w → Awaited m c w := by
  refine Machine.Run.invariant (P := fun _ c => ∀ w, Unfinished m c w → Awaited m c w) ?_ ?_ ?_ h
  · rintro w ⟨o, p, hp, -⟩
    cases hp
  · exact fun _ c t ev hawaited _ he w hw => (Awaited.append hawaited he hw).2
  · intro _ c i k t e hawaited hok ht he w hw
    exact Awaited.step hawaited hok ht he hw

/-- **Joining outlives the workers**: in the runs in which no worker is created meanwhile, every
unfinished worker has its handle in `_threads`, and a `joinAllThreads` that has gone through its
list has left no worker unfinished. -/
theorem joined_of_run (h : program.Run (fun c l => spawnsApart m c l = true) (initial mem) tr c) :
    (∀ w, Unfinished m c w → w ∈ (c.shared.macros m).threads) ∧
      ∀ t ∈ c.pool, t.macroId = m → t.joins = some [] → ∀ w, ¬ Unfinished m c w := by
  have hawaited := awaited_of_run h
  refine ⟨fun w hw => (hawaited w hw).handle, fun t ht hm hjoins w hw => ?_⟩
  cases (hawaited w hw).joins t ht hm [] hjoins

end Runs

/-- A destructor that reaches its join while the worker, which is counted out, is still there with
its handle, and that comes to the end of its list after the worker has ended. -/
theorem joined_of_run_spawn : ∃ tr c₁ tr' c,
    program.Run (fun c l => spawnsApart 0 c l = true)
        (initial (.ofMacro { interruptor := .continue, context := some 0 })) tr c₁ ∧
      program.Run (fun c l => spawnsApart 0 c l = true) c₁ tr' c ∧
      c₁.pool[1]? = some (.worker 0 (some 0) .notifyDone) ∧
      c₁.pool[2]?.bind Thread.joins = some [1] ∧ 1 ∈ (c₁.shared.macros 0).threads ∧
      (∃ t ∈ c.pool, t.macroId = 0 ∧ t.joins = some []) ∧ ∀ w, ¬ Unfinished 0 c w := by
  obtain ⟨tr, c₁, tr', c, h, h', hp⟩ := Machine.Run.exists_of_exec_exec
    (fun c l => spawnsApart 0 c l) (fun c l => spawnsApart 0 c l)
    (initial (.ofMacro { interruptor := .continue, context := some 0 }))
    (spawnOne ++ [.step 1 true, .call (.call 0 (.destroy (.dequeue .queued)))] ++
      List.replicate 14 (.step 2 true) ++ List.replicate 5 (.step 1 true) ++
      List.replicate 6 (.step 2 true))
    [.step 1 true, .step 2 true] (M := program)
    (P := fun c₁ c => c₁.pool[1]? = some (.worker 0 (some 0) .notifyDone) ∧
      c₁.pool[2]?.bind Thread.joins = some [1] ∧
      ∃ t ∈ c.pool, t.macroId = 0 ∧ t.joins = some [])
    (by decide +kernel)
  obtain ⟨hworker, hjoins, t, ht, hmacro, hlist⟩ := of_decide_eq_true hp
  have hhandle := (joined_of_run h).1 1 ⟨_, _, hworker, RunPc.noConfusion⟩
  exact ⟨tr, c₁, tr', c, h, h', hworker, hjoins, hhandle, ⟨t, ht, hmacro, hlist⟩,
    (joined_of_run (h.trans h')).2 t ht hmacro hlist⟩

/-! ## The destructor -/

section Runs

variable {mem : Memory} {m : MacroId} {c : Config Memory Thread} {tr : List Event} {i : ThreadId}
  {t : Thread} {k : Bool} {e : Effect Memory Thread Event}

/-- The threads of macro `m` are workers, threads that have ended, and the destructor. -/
def Closing (m : MacroId) (i₀ : ThreadId) (c : Config Memory Thread) : Prop :=
  ∀ j t, c.pool[j]? = some t → t.macroId = m →
    t.isWorker = true ∨ t.ended = true ∨ j = i₀ ∧ ∃ p, t = .call m (.destroy p)

/-- A worker goes on as a worker. -/
theorem Thread.Step.isWorker {mv : Move} (h : t.Step c i mv) :
    mv.next.isWorker = t.isWorker := by
  cases h <;> rfl

/-- The destructor goes on, or returns from `joinAllThreads`. -/
theorem Thread.Step.of_destroy {p : DisablePc} {mv : Move}
    (h : Thread.Step c i (.call m (.destroy p)) mv) :
    (∃ p', mv.next = .call m (.destroy p')) ∨
      mv.next = .call m .returned ∧ (Thread.call m (.destroy p)).joins = some [] := by
  cases h with
  | call h =>
    cases h with
    | destroy => exact .inl ⟨_, rfl⟩
    | destroyed h =>
      cases h with
      | cleared h =>
        cases h with
        | joined => exact .inr ⟨rfl, rfl⟩

/-- A step leaves it at that. -/
theorem Closing.step {i₀ : ThreadId} (h : Closing m i₀ c) (ht : c.pool[i]? = some t)
    (he : program.move c i k t = some e) :
    Closing m i₀ ⟨e.shared, c.pool.set i e.next ++ e.spawned⟩ := by
  obtain ⟨a, hs, -⟩ := step_of_program_move he
  intro j u hu hm
  rcases getElem?_set_append_cases hu with ⟨rfl, rfl⟩ | ⟨-, hold⟩ | hspawned
  · have htm : t.macroId = m := hs.macroId.symm.trans hm
    rcases h j t ht htm with hworker | hended | ⟨rfl, p, rfl⟩
    · exact .inl (hs.isWorker.trans hworker)
    · rw [move_of_ended hended] at he
      cases he
    · right
      rcases hs.of_destroy with ⟨p', hnext⟩ | ⟨hnext, -⟩
      · exact .inr ⟨rfl, p', hnext⟩
      · left
        rw [show e.next = .call m .returned from hnext]
        rfl
  · exact h j u hold hm
  · -- neither a worker nor the destructor creates threads
    have htm : t.macroId = m := by
      rcases hs.of_mem_spawned hspawned with rfl | rfl <;> exact hm
    rcases hs.spawned_cases with hnone | ⟨m', rfl, -⟩ | ⟨m', val, hval, rfl, -⟩
    · rw [show e.spawned = [] from hnone] at hspawned
      cases hspawned
    all_goals
      rcases h i _ ht htm with hworker | hended | ⟨-, p, heq⟩
      · cases hworker
      · cases hended
      · cases heq

/-- So no worker of the macro is created while it is being destroyed. -/
theorem Closing.spawnsApart {i₀ : ThreadId} (h : Closing m i₀ c) :
    Libmacro.spawnsApart m c (.step i k) = true := by
  unfold Libmacro.spawnsApart
  dsimp only
  split
  next m' ht =>
    by_cases hm : m' = m
    · rcases h i _ ht hm with hworker | hended | ⟨-, p, heq⟩
      · cases hworker
      · cases hended
      · cases heq
    · simp [hm]
  next => rfl

/-- An unfinished worker after a step of a macro that is being destroyed was there before. -/
theorem Closing.unfinished_of_step {i₀ w : ThreadId} (h : Closing m i₀ c)
    (ht : c.pool[i]? = some t) (he : program.move c i k t = some e)
    (hw : Unfinished m ⟨e.shared, c.pool.set i e.next ++ e.spawned⟩ w) : Unfinished m c w := by
  obtain ⟨a, hs, -⟩ := step_of_program_move he
  rcases Unfinished.of_step ht hs hw with hold | ⟨-, rfl, -⟩
  · exact hold
  · rcases h i _ ht rfl with hworker | hended | ⟨-, p, heq⟩
    · cases hworker
    · cases hended
    · cases heq

/-- **While macro `m` is destroyed** by thread `i₀`: no other call begins, each unfinished worker is
awaited, and none is left on return. -/
structure Destroying (m : MacroId) (i₀ : ThreadId) (c : Config Memory Thread) : Prop where
  closing : Closing m i₀ c
  awaited : ∀ w, Unfinished m c w → Awaited m c w
  gone : c.pool[i₀]? = some (.call m .returned) → ∀ w, ¬ Unfinished m c w

/-- **A step** keeps this up; the destructor returns when it has joined all. -/
theorem Destroying.step {i₀ : ThreadId} (hinv : Destroying m i₀ c) (ht : c.pool[i]? = some t)
    (he : program.move c i k t = some e) :
    Destroying m i₀ ⟨e.shared, c.pool.set i e.next ++ e.spawned⟩ := by
  refine ⟨hinv.closing.step ht he,
    fun w hw => Awaited.step hinv.awaited hinv.closing.spawnsApart ht he hw, fun hnew w hw => ?_⟩
  have hold := hinv.closing.unfinished_of_step ht he hw
  obtain ⟨a, hs, -⟩ := step_of_program_move he
  rcases getElem?_set_append_cases hnew with ⟨rfl, hnext⟩ | ⟨-, hret⟩ | hspawned
  · have hm : t.macroId = m := hs.macroId.symm.trans (congrArg Thread.macroId hnext.symm)
    rcases hinv.closing _ t ht hm with hworker | hended | ⟨-, p, rfl⟩
    · have hnever := hs.isWorker.trans hworker
      rw [show e.next = .call m .returned from hnext.symm] at hnever
      cases hnever
    · rw [move_of_ended hended] at he
      cases he
    · rcases hs.of_destroy with ⟨p', hgoes⟩ | ⟨-, hjoined⟩
      · cases hnext.trans hgoes
      · cases (hinv.awaited w hold).joins _ (List.mem_of_getElem? ht) rfl [] hjoined
  · exact hinv.gone hret w hold
  · rcases hs.of_mem_spawned hspawned with heq | heq <;> cases heq

/-- **The destructor leaves no worker behind**: when it has returned, every worker that `start` has
created has ended, if the client makes no other call on the macro from then on, and if no other
call on it was under way. -/
theorem destroyed_of_returned {c₁ : Config Memory Thread} {tr' : List Event}
    (h₁ : program.Run (fun c l => Libmacro.spawnsApart m c l = true) (initial mem) tr c₁)
    (honly : ∀ t ∈ c₁.pool, t.macroId = m → t.isWorker = true ∨ t.ended = true)
    (h₂ : program.Run (fun _ l => callsApart m l = true)
      ⟨c₁.shared, c₁.pool ++ [.call m (.destroy (.dequeue .queued))]⟩ tr' c)
    (hret : c.pool[c₁.pool.length]? = some (.call m .returned)) :
    ∀ w, ¬ Unfinished m c w := by
  refine (Machine.Run.invariant (P := fun _ c => Destroying m c₁.pool.length c) ?_ ?_ ?_ h₂).gone
    hret
  -- when the destructor is called, all threads of the macro are workers, ended, or this call
  · have hcall : program.step c₁ (.call (.call m (.destroy (.dequeue .queued)))) = some ([],
        ⟨c₁.shared, c₁.pool ++ [.call m (.destroy (.dequeue .queued))]⟩) := rfl
    refine ⟨fun j t hj hm => ?_, awaited_of_run (h₁.snoc rfl hcall), fun hnew => ?_⟩
    · rcases getElem?_concat_cases hj with hold | ⟨rfl, rfl⟩
      · exact (honly t (List.mem_of_getElem? hold) hm).imp_right .inl
      · exact .inr (.inr ⟨rfl, _, rfl⟩)
    · simp at hnew
  · intro _ c t ev hinv hne he
    -- a call of another client is not on the macro
    refine ⟨fun j u hu hm => ?_, fun w hw => (Awaited.append hinv.awaited he hw).2,
      fun hnew w hw => ?_⟩
    · rcases getElem?_concat_cases hu with hold | ⟨-, rfl⟩
      · exact hinv.closing j u hold hm
      · exact absurd hm (of_decide_eq_true hne)
    · rcases getElem?_concat_cases hnew with hold | ⟨-, rfl⟩
      · exact hinv.gone hold w (Awaited.append hinv.awaited he hw).1
      · exact absurd rfl (of_decide_eq_true hne)
  · exact fun _ c i k t e hinv _ ht he => hinv.step ht he

end Runs

/-- A destructor that waits for a worker which is counted, and returns after it. -/
theorem destroyed_of_returned_worker : ∃ tr c₁ tr' c,
    program.Run (fun c l => spawnsApart 0 c l = true)
        (initial (.ofMacro { interruptor := .continue, context := some 0 })) tr c₁ ∧
      program.Run (fun _ l => callsApart 0 l = true)
        ⟨c₁.shared, c₁.pool ++ [.call 0 (.destroy (.dequeue .queued))]⟩ tr' c ∧
      c₁.pool[1]? = some (.worker 0 (some 0) .notifyCount) ∧
      c.pool[2]? = some (.call 0 .returned) ∧ ∀ w, ¬ Unfinished 0 c w := by
  obtain ⟨tr, c₁, ev, c₂, tr', c, h, hstep, h', hp⟩ := Machine.Run.exists_of_exec_step
    (fun c l => spawnsApart 0 c l)
    (fun _ l => callsApart 0 l)
    (initial (.ofMacro { interruptor := .continue, context := some 0 }))
    (spawnOne ++ [.step 1 true])
    (.call (.call 0 (.destroy (.dequeue .queued))))
    (List.replicate 14 (.step 2 true) ++ List.replicate 6 (.step 1 true) ++
      List.replicate 8 (.step 2 true))
    (M := program)
    (P := fun c₁ _ c => (∀ t ∈ c₁.pool, t.macroId = 0 → t.isWorker = true ∨ t.ended = true) ∧
      c₁.pool[1]? = some (.worker 0 (some 0) .notifyCount) ∧ c₁.pool.length = 2 ∧
      c.pool[2]? = some (.call 0 .returned))
    (by decide +kernel)
  obtain ⟨-, rfl⟩ := Machine.step_call_iff.mp hstep
  obtain ⟨honly, hworker, hlen, hret⟩ := of_decide_eq_true hp
  exact ⟨tr, c₁, tr', c, h, h', hworker, hret,
    destroyed_of_returned h honly h' (hlen ▸ hret)⟩

end Libmacro
