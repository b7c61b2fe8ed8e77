import Libmacro.Threads.PausedShutdown

/-! # Who wakes the waiting threads

`waitThreadsChanged` waits for `_threadCount` to be 0. The count is lowered under the mutex, by a
worker in `onRunComplete` and by the forced reset, and both notify later, without the mutex.

`waiting_of_run`: no wake-up is lost there. While a thread sleeps in `waitThreadsChanged` since the
last notification, something is counted, or the thread that lowered the count has yet to notify. A
wait in `pauseLoop` has no such guarantee: the interruptor is written without the mutex. -/

namespace Libmacro

open Interleaving

/-- Where in `waitThreadsChanged` a reset thread stands. -/
def ResetPc.waits : ResetPc → Option WaitPc
  | clear _ (.wait _ p) => some p
  | _ => none

/-- Where in `waitThreadsChanged` a thread stands: workers wait elsewhere, in `pauseLoop`. -/
def Thread.waits : Thread → Option WaitPc
  | worker _ _ _ => none
  | reset _ _ pc => pc.waits
  | call _ pc => pc.disabling.bind DisablePc.waits

/-- The next step is the notification after the forced reset. -/
def DisablePc.tells : DisablePc → Bool
  | clear (.sticky _ .notify) => true
  | _ => false

/-- The thread has lowered the count of macro `m` and has yet to notify. -/
def Thread.tells (m : MacroId) : Thread → Bool
  | worker m' _ pc => m' = m && pc.leaving
  | reset _ _ _ => false
  | call m' pc => m' = m && pc.disabling.any DisablePc.tells

/-! ## The edges -/

section Edges

variable {c : Config Memory Thread} {m : MacroId} {i : ThreadId} {t : Thread} {mv : Move}
  {mem : Memory} {a : Access} {pool : List Thread} {mac : Macro}

/-- A reset thread falls asleep while something is running. -/
theorem ResetPc.Step.waits_sleep {origin : ThreadId} {p p' : ResetPc} {ev : List Event}
    (h : p.Step pool mac m i origin a p' ev) (hp' : p'.waits = some .sleep) :
    mac.threadCount ≠ 0 ∧ a = .skip := by
  cases h with
  | clear h =>
    cases h with
    | wait h =>
      cases h with
      | fails h =>
        rw [Bool.not_eq_false', Macro.running_iff] at h
        exact ⟨h, rfl⟩
      | _ => cases hp'
    | _ => cases hp'
  | _ => cases hp'

/-- A reset thread sleeps after the notifications so far. -/
theorem ResetPc.Step.waits_asleep {origin : ThreadId} {p p' : ResetPc} {ev : List Event} {n : ℕ}
    (h : p.Step pool mac m i origin a p' ev) (hp' : p'.waits = some (.asleep n)) :
    p.waits = some .sleep ∧ n = mac.notified ∧ a = .unlock := by
  cases h with
  | clear h =>
    cases h with
    | wait h =>
      cases h with
      | sleep =>
        cases hp'
        exact ⟨rfl, rfl, rfl⟩
      | _ => cases hp'
    | _ => cases hp'
  | _ => cases hp'

/-- Where a waiting call comes from. -/
theorem CallPc.Step.waits {mem : Memory} {p p' : CallPc} {ts : List Thread} {ev : List Event}
    {w : WaitPc} (h : p.Step mem pool m i a p' ts ev)
    (hw : p'.disabling.bind DisablePc.waits = some w) :
    ∃ q q', p.disabling = some q ∧ q'.waits = some w ∧
      q.Step pool (mem.macros m) i a (some q') := by
  obtain ⟨q', hq', hw⟩ := Option.bind_eq_some_iff.mp hw
  rcases h.disabling hq' with ⟨q, hq, hs⟩ | rfl
  · exact ⟨q, q', hq, hw, hs⟩
  · cases hw

/-- **A thread falls asleep** while something is running. -/
theorem Thread.Step.waits_sleep (h : t.Step c i mv) (hw : mv.next.waits = some .sleep) :
    (c.shared.macros t.macroId).threadCount ≠ 0 ∧ mv.access = .skip := by
  cases h with
  | worker => cases hw
  | reset h => exact h.waits_sleep hw
  | call h =>
    obtain ⟨q, q', -, hq', hs⟩ := h.waits hw
    exact hs.waits_sleep hq'

/-- **A thread sleeps** after the notifications so far. -/
theorem Thread.Step.waits_asleep {n : ℕ} (h : t.Step c i mv)
    (hw : mv.next.waits = some (.asleep n)) :
    t.waits = some .sleep ∧ n = (c.shared.macros t.macroId).notified ∧ mv.access = .unlock := by
  cases h with
  | worker => cases hw
  | reset h => exact h.waits_asleep hw
  | call h =>
    obtain ⟨q, q', hq, hq', hs⟩ := h.waits hw
    obtain ⟨hsleep, hn, ha⟩ := hs.waits_asleep hq'
    exact ⟨by rw [waits, hq, Option.bind_some, hsleep], hn, ha⟩

/-- What counts a thread is no forced reset. -/
theorem Access.CountsThread.ne_clearCount {h h' : ℕ} (hc : a.CountsThread h h') :
    a ≠ .clearCount := by
  rintro rfl
  exact hc.elim

/-- The forced reset is followed by its notification. -/
theorem DisablePc.Step.tells {p : DisablePc} {q : Option DisablePc} (h : p.Step pool mac i a q) :
    (p.tells = true → a = .notify) ∧ (a = .clearCount → q.any DisablePc.tells = true) := by
  cases h with
  | dequeue h | dequeued h => exact ⟨nofun, fun ha => absurd ha h.inner.2⟩
  | remove => exact ⟨nofun, nofun⟩
  | clear h =>
    cases h with
    | dequeue h | dequeuedSticky h => exact ⟨nofun, fun ha => absurd ha h.inner.2⟩
    | dequeued _ hs => cases hs
    | @wait hs | @waited hs => cases hs
    | sticky h =>
      cases h with
      | dequeue h | dequeued h => exact ⟨nofun, fun ha => absurd ha h.inner.2⟩
      | wait h | waited h => exact ⟨nofun, fun ha => absurd ha h.inner.2⟩
      -- the forced reset is the one step that owes a notification
      | reset => exact ⟨nofun, fun _ => rfl⟩
      | running _ hp => rcases hp with rfl | rfl <;> exact ⟨nofun, nofun⟩
      | notRunning _ hp => rcases hp with rfl | ⟨rfl, -⟩ <;> exact ⟨nofun, nofun⟩
      | timedOut => exact ⟨nofun, nofun⟩
    | cleared h =>
      cases h with
      | notify => exact ⟨fun _ => rfl, nofun⟩
      | cleared => exact ⟨nofun, nofun⟩
    | joinAll | join => exact ⟨nofun, nofun⟩
  | cleared h =>
    cases h
    exact ⟨nofun, nofun⟩

/-- A call that has to tell of a change does so in its next step, and has to after a forced
reset. -/
theorem CallPc.Step.tells {mem : Memory} {p p' : CallPc} {ts : List Thread} {ev : List Event}
    (h : p.Step mem pool m i a p' ts ev) :
    (p.disabling.any DisablePc.tells = true → a = .notify) ∧
      (a = .clearCount → p'.disabling.any DisablePc.tells = true) := by
  cases h with
  | start h | started h => exact ⟨nofun, fun ha => absurd ha h.countsThread.ne_clearCount⟩
  | setInterruptor h | setDone h => exact ⟨nofun, fun ha => absurd ha h.inner.2⟩
  | limit h | limited h => exact ⟨nofun, fun ha => absurd ha h.inner.2⟩
  | copy h =>
    cases h with
    | disable h => exact h.tells
    | disabled h => exact ⟨h.tells.1, fun ha => absurd (h.tells.2 ha) nofun⟩
    | limit h | limited h => exact ⟨nofun, fun ha => absurd ha h.inner.2⟩
    | _ => exact ⟨nofun, nofun⟩
  | copied h => cases h <;> exact ⟨nofun, nofun⟩
  | destroy h => exact h.tells
  | destroyed h => exact ⟨h.tells.1, fun ha => absurd (h.tells.2 ha) nofun⟩
  | _ => exact ⟨nofun, nofun⟩

/-- **A thread that has lowered the count** stays on its way to a notification until it makes
it. -/
theorem Thread.Step.tells (h : t.Step c i mv) (ht : t.tells m = true) :
    mv.next.tells m = true ∨ t.macroId = m ∧ mv.access = .notify := by
  cases h with
  | worker h =>
    obtain ⟨hm, hleaving⟩ := Bool.and_eq_true_iff.mp ht
    refine (h.leaving.1 hleaving).imp (fun hp' => ?_) fun ha => ⟨of_decide_eq_true hm, ha⟩
    exact Bool.and_eq_true_iff.mpr ⟨hm, hp'⟩
  | reset => cases ht
  | call h =>
    obtain ⟨hm, htells⟩ := Bool.and_eq_true_iff.mp ht
    exact .inr ⟨of_decide_eq_true hm, h.tells.1 htells⟩

/-- **Who lowers the count to 0**: a thread that finds the mutex free and has yet to notify. -/
theorem Thread.Step.threadCount_cases (h : t.Step c i mv)
    (ha : mv.access.apply t.macroId c.shared = some mem) :
    (mem.macros t.macroId).threadCount = (c.shared.macros t.macroId).threadCount ∨
      (c.shared.macros t.macroId).locked = false ∧
        ((mem.macros t.macroId).threadCount ≠ 0 ∨ mv.next.tells t.macroId = true) := by
  cases h with
  | worker h =>
    -- a worker counts itself in or out under the mutex, and notifies after
    refine (h.threadCount_eq ha).imp_right fun ⟨hfree, hcount⟩ => ⟨hfree, hcount.imp_right ?_⟩
    exact fun hleaving => Bool.and_eq_true_iff.mpr ⟨decide_eq_true rfl, hleaving.1⟩
  | @reset m o p p' a ev h =>
    have hcount := Access.apply_threadCount ha
    have hcounts := Access.countsThread_of_inner h.inner h.ne_clearCount 0
    dsimp only at hcount
    cases a with
    | countThread => exact absurd hcounts.2 nofun
    | uncountThread => exact absurd hcounts.1 nofun
    | clearCount => exact hcounts.elim
    | _ => exact .inl hcount
  | @call m p p' a ts ev h =>
    have hcount := Access.apply_threadCount ha
    dsimp only [macroId] at hcount ha ⊢
    by_cases hclear : a = .clearCount
    · subst hclear
      -- the forced reset to 0
      refine .inr ⟨Access.unlocked_of_apply ha rfl, .inr ?_⟩
      exact Bool.and_eq_true_iff.mpr ⟨decide_eq_true rfl, h.tells.2 rfl⟩
    · have hcounts := h.countsThread hclear
      cases a with
      | countThread => exact absurd hcounts.2 nofun
      | uncountThread => exact absurd hcounts.1 nofun
      | clearCount => exact absurd rfl hclear
      | _ => exact .inl hcount

/-- A thread that is about to sleep in `waitThreadsChanged` holds the mutex. -/
theorem Thread.holds_of_waits (h : t.waits = some .sleep) : t.holds t.macroId = 1 := by
  cases t with
  | worker => cases h
  | reset m o p =>
    rw [holds, macroId, onMacro_reset]
    -- about to sleep: the predicate was tested under the mutex, which is still held
    unfold waits ResetPc.waits at h
    dsimp only at h
    split at h
    · cases h
      rfl
    · cases h
  | call m p =>
    rw [holds, macroId, onMacro_call]
    obtain ⟨q, hq, hw⟩ := Option.bind_eq_some_iff.mp h
    have hq' : q.holds = 1 := by
      unfold DisablePc.waits at hw
      split at hw
      · cases hw
        rfl
      · cases hw
    unfold CallPc.disabling at hq
    split at hq
    · cases hq
      exact hq'
    · cases hq
      exact hq'
    · cases hq

end Edges

/-! ## Runs -/

/-- **Thread `t` of macro `m` does not wait in vain** in `waitThreadsChanged`. -/
structure Waiting (m : MacroId) (c : Config Memory Thread) (t : Thread) : Prop where
  /-- It falls asleep while something is counted. -/
  sleep : t.waits = some .sleep → (c.shared.macros m).threadCount ≠ 0
  /-- While it sleeps something is counted, or the thread that lowered the count notifies. -/
  asleep : ∀ n, t.waits = some (.asleep n) → n ≤ (c.shared.macros m).notified ∧
    (n = (c.shared.macros m).notified →
      (c.shared.macros m).threadCount ≠ 0 ∨ ∃ u ∈ c.pool, u.tells m = true)

/-- What every step does for the threads that wait in `waitThreadsChanged` of macro `m`. -/
structure Notifies (m : MacroId) (c c' : Config Memory Thread) : Prop where
  notified : (c.shared.macros m).notified ≤ (c'.shared.macros m).notified
  count : (c'.shared.macros m).threadCount = (c.shared.macros m).threadCount ∨
    (c.shared.macros m).locked = false ∧
      ((c'.shared.macros m).threadCount ≠ 0 ∨ ∃ u ∈ c'.pool, u.tells m = true)
  tells : (∃ u ∈ c.pool, u.tells m = true) → (∃ u ∈ c'.pool, u.tells m = true) ∨
    (c'.shared.macros m).notified ≠ (c.shared.macros m).notified

section Runs

variable {m : MacroId} {c c' : Config Memory Thread} {i : ThreadId} {t : Thread} {k : Bool}
  {e : Effect Memory Thread Event}

/-- A thread that does not wait. -/
theorem Waiting.of_none (h : t.waits = none) : Waiting m c t := by
  constructor
  · intro hw
    cases h.symm.trans hw
  · intro n hw
    cases h.symm.trans hw

/-- A new thread does not wait. -/
theorem waits_of_entry {ev : List Event} (h : t.entry = some ev) : t.waits = none := by
  rcases Thread.entry_cases h with ⟨m, rfl, -⟩ | ⟨m, rfl, -⟩ | ⟨m, pc, rfl, -, hpc⟩
  · rfl
  · rfl
  · cases hpc <;> rfl

/-- A thread of macro `m` that has lowered its count. -/
theorem Thread.macroId_of_tells (h : t.tells m = true) : t.macroId = m := by
  cases t with
  | worker | call => exact of_decide_eq_true (Bool.and_eq_true_iff.mp h).1
  | reset => cases h

/-- **Every step** notifies once the count is lowered. -/
theorem notifies_of_step (ht : c.pool[i]? = some t) (he : program.move c i k t = some e) :
    Notifies m c ⟨e.shared, c.pool.set i e.next ++ e.spawned⟩ := by
  obtain ⟨a, hs, ha⟩ := step_of_program_move he
  have hkept {u : Thread} (hu : u ∈ c.pool) (hne : u ≠ t) := mem_set_append_of_ne e.next
    e.spawned ht hu hne
  have hself := mem_set_append_self e.next e.spawned ht
  by_cases hm : t.macroId = m
  · subst hm
    refine ⟨(Access.apply_notified ha).1, ?_, ?_⟩
    · exact (hs.threadCount_cases ha).imp_right fun ⟨hfree, hcount⟩ =>
        ⟨hfree, hcount.imp_right fun htells => ⟨_, hself, htells⟩⟩
    · rintro ⟨u, hu, htells⟩
      -- who owes a notification still owes it, or has just made it
      by_cases hut : u = t
      · subst hut
        rcases hs.tells htells with hnext | ⟨-, hnotify⟩
        · exact .inl ⟨_, hself, hnext⟩
        · right
          have hmore := (Access.apply_notified ha).2 hnotify
          dsimp only
          omega
      · exact .inl ⟨u, hkept hu hut, htells⟩
  · have hsame := macros_of_ne he hm
    refine ⟨by rw [hsame], .inl (by rw [hsame]), ?_⟩
    rintro ⟨u, hu, htells⟩
    refine .inl ⟨u, hkept hu ?_, htells⟩
    rintro rfl
    exact hm (Thread.macroId_of_tells htells)

/-- A thread that stays where it stands. -/
theorem Waiting.mono (h : Waiting m c t) (hn : Notifies m c c')
    (hlocked : t.waits = some .sleep → (c.shared.macros m).locked = true) : Waiting m c' t := by
  refine ⟨fun hw => ?_, fun n hw => ?_⟩
  · rcases hn.count with hsame | ⟨hfree, -⟩
    · rw [hsame]
      exact h.sleep hw
    · rw [hlocked hw] at hfree
      cases hfree
  · obtain ⟨hle, hwoken⟩ := h.asleep n hw
    refine ⟨hle.trans hn.notified, fun hn' => ?_⟩
    -- nobody has notified since
    have hquiet : (c'.shared.macros m).notified = (c.shared.macros m).notified :=
      Nat.le_antisymm (hn' ▸ hle) hn.notified
    rcases hn.count with hsame | ⟨-, hcount⟩
    · rw [hsame]
      rcases hwoken (hn'.trans hquiet) with hcount | htells
      · exact .inl hcount
      · exact .inr ((hn.tells htells).resolve_right (not_not_intro hquiet))
    · exact hcount

/-- A thread that moves does not come to wait in vain by its own step. -/
theorem Waiting.next (h : Waiting t.macroId c t) (he : program.move c i k t = some e) :
    Waiting t.macroId ⟨e.shared, c.pool.set i e.next ++ e.spawned⟩ e.next := by
  obtain ⟨a, hs, ha⟩ := step_of_program_move he
  have hcount := Access.apply_threadCount ha
  refine ⟨fun hw => ?_, fun n hw => ?_⟩
  · obtain ⟨hne, hskip⟩ := hs.waits_sleep hw
    obtain rfl : a = .skip := hskip
    rw [hcount]
    exact hne
  · obtain ⟨hsleep, hn, hunlock⟩ := hs.waits_asleep hw
    obtain rfl : a = .unlock := hunlock
    refine ⟨hn ▸ (Access.apply_notified ha).1, fun _ => .inl ?_⟩
    rw [hcount]
    exact h.sleep hsleep

/-- **No wake-up is lost in `waitThreadsChanged`**: in every state of every run, while a thread
sleeps there since the last notification, something is counted or the thread that lowered the count
has yet to notify. -/
theorem waiting_of_run {allowed : Config Memory Thread → Label Thread Bool → Prop} {mem : Memory}
    {tr : List Event} (hfree : (mem.macros m).locked = false)
    (h : program.Run allowed (initial mem) tr c) :
    ∀ t ∈ c.pool, t.macroId = m → Waiting m c t := by
  have hrun := h.and_invariant (I := fun c =>
    (c.shared.macros m).locked.toNat = weight (Thread.holds m) c.pool)
    fun h => locked_eq_weight m hfree h
  refine Machine.Run.invariant (P := fun _ c => ∀ t ∈ c.pool, t.macroId = m → Waiting m c t)
    (by simp) ?_ ?_ hrun
  · rintro _ c t ev hinv ⟨-, hlocked⟩ he
    -- a new thread waits for nothing and tells nobody
    have hn : Notifies m c ⟨c.shared, c.pool ++ [t]⟩ := by
      refine ⟨Nat.le_refl _, .inl rfl, ?_⟩
      rintro ⟨u, hu, htells⟩
      exact .inl ⟨u, List.mem_append_left _ hu, htells⟩
    refine forall_mem_concat (fun u hu hm => (hinv u hu hm).mono hn fun hw => ?_)
      fun _ => .of_none (waits_of_entry he)
    exact locked_of_holds hlocked hu (hm ▸ Thread.holds_of_waits hw)
  · rintro _ c i k t e hinv ⟨-, hlocked⟩ ht he
    have hn := notifies_of_step (m := m) ht he
    obtain ⟨a, hs, -⟩ := step_of_program_move he
    refine forall_mem_set_append (fun u hu hm => (hinv u hu hm).mono hn fun hw => ?_)
      (fun hm => ?_) fun u hu _ => .of_none ?_
    · exact locked_of_holds hlocked hu (hm ▸ Thread.holds_of_waits hw)
    · obtain rfl := hs.macroId.symm.trans hm
      exact (hinv t (List.mem_of_getElem? ht) rfl).next he
    · rcases hs.of_mem_spawned hu with rfl | rfl <;> rfl

end Runs

end Libmacro
