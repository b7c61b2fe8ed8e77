import Libmacro.Threads.CounterRange
import Libmacro.Threads.Rest
import Libmacro.Threads.Sessions

/-! # The memory when the program is quiet

`settled_of_ended`: once every thread of a run has ended, nothing is left of it in the counters: no
mutex is held, no run is counted, no slot is taken and no queue is out of its range, so that a
client that waits finds the memory it relies on (`Memory.Settled`). The run may interleave its
threads in any way in which each access to a counter finds a state it can be made in. -/

namespace Libmacro

open Interleaving

/-- **A steady step**: no client changes the global limit or gives a macro a null context, and each
access to a counter finds a state it can be made in. -/
structure Steady (c : Config Memory Thread) (l : Label Thread Bool) : Prop where
  fixedLimit : fixedLimit l = true
  pairedRelease : pairedRelease c l = true
  counterFits : counterFits c l = true
  resetsFindZero : resetsFindZero c l = true
  givesContext : givesContext l = true

/-! ## The limits -/

/-- The limits of the macros, and those that calls of `setThreadMax` have yet to store, are at most
`limit`. -/
structure LimitsFit (limit : ℕ) (c : Config Memory Thread) : Prop where
  threadMax : ∀ m, (c.shared.macros m).threadMax ≤ limit
  stored : ∀ m val, Thread.call m (.storeThreadMax val) ∈ c.pool → val ≤ limit

section Limits

variable {mem : Memory} {c : Config Memory Thread} {m : MacroId} {i : ThreadId} {k : Bool}
  {t : Thread} {tr : List Event} {limit : ℕ}

/-- `setThreadMax` has compared what it stores with the global limit. -/
theorem Thread.Step.le_threadLimit {mv : Move} (h : t.Step c i mv) {val : ℕ}
    (hnext : mv.next = .call m (.storeThreadMax val)) : val ≤ c.shared.threadLimit := by
  cases h with
  | worker | reset => cases hnext
  | call h =>
    cases h with
    | goodThreadMax h =>
      cases hnext
      omega
    | _ => cases hnext

/-- A limit that has been corrected is not above the global one. -/
theorem Macro.clampThreadMax_le_limit (mac : Macro) (hpos : 1 ≤ limit) :
    (mac.clampThreadMax limit).threadMax ≤ limit := by
  unfold Macro.clampThreadMax
  split_ifs with hzero habove
  · exact hpos
  · exact Nat.le_refl limit
  · omega

/-- **One step** keeps the limits within the global one. -/
theorem LimitsFit.step {e : Effect Memory Thread Event} (h : LimitsFit limit c)
    (hpos : 1 ≤ limit) (hlimit : c.shared.threadLimit = limit) (ht : c.pool[i]? = some t)
    (he : program.move c i k t = some e) :
    LimitsFit limit ⟨e.shared, c.pool.set i e.next ++ e.spawned⟩ := by
  obtain ⟨a, hs, ha⟩ := step_of_program_move he
  constructor
  · intro m
    by_cases hm : t.macroId = m
    · subst hm
      have hold := h.threadMax t.macroId
      have hmax := Access.apply_threadMax ha
      -- what `setThreadMax` stores was compared with the global limit
      have hsource : ∀ val, a = .setThreadMax val → val ≤ limit := by
        rintro val rfl
        rcases hs.inner_or_outer with hin | hout
        · cases hin
        · generalize e.next = u, e.spawned = ts, e.events = ev at hout
          cases hout with
          | setThreadMax => exact h.stored _ val (List.mem_of_getElem? ht)
      cases a with
      | clampThreadMax =>
        simp only at hmax ⊢
        rw [hmax, hlimit]
        exact Macro.clampThreadMax_le_limit _ hpos
      | setThreadMax val => exact hmax ▸ hsource val rfl
      | assign other => exact hmax ▸ h.threadMax other
      | _ => exact hmax ▸ hold
    · show (e.shared.macros m).threadMax ≤ limit
      rw [macros_of_ne he hm]
      exact h.threadMax m
  · intro m val hu
    rcases List.mem_append.mp hu with hset | hspawned
    · rcases List.mem_or_eq_of_mem_set hset with hold | hnext
      · exact h.stored m val hold
      · exact hlimit ▸ hs.le_threadLimit hnext.symm
    · rcases hs.of_mem_spawned hspawned with heq | heq <;> cases heq

/-- **The limits fit** in every state of a run in which the global limit stays. -/
theorem limitsFit_of_run {allowed : Config Memory Thread → Label Thread Bool → Prop}
    (hallowed : ∀ c l, allowed c l → Libmacro.fixedLimit l = true) (hpos : 1 ≤ mem.threadLimit)
    (hinit : ∀ m, (mem.macros m).threadMax ≤ mem.threadLimit)
    (h : program.Run allowed (initial mem) tr c) : LimitsFit mem.threadLimit c := by
  have hrun := h.and_invariant (I := fun c => c.shared.threadLimit = mem.threadLimit)
    fun h => threadLimit_of_run hallowed h
  refine Machine.Run.invariant (P := fun _ c => LimitsFit mem.threadLimit c) ⟨hinit, by simp⟩
    ?_ ?_ hrun
  · -- a call of `setThreadMax` has its comparison before it
    intro _ c t ev hfit _ he
    refine ⟨hfit.threadMax, fun m val hu => ?_⟩
    rcases List.mem_append.mp hu with hold | hnew
    · exact hfit.stored m val hold
    · obtain rfl := List.mem_singleton.mp hnew
      cases he
  · rintro _ c i k t e hfit ⟨-, hlimit⟩ ht he
    exact hfit.step hpos hlimit ht he

end Limits

/-! ## The quiet memory -/

section Quiet

variable {mem : Memory} {c : Config Memory Thread} {m : MacroId} {t : Thread} {tr : List Event}

/-- A thread that has ended holds no mutex, stands for no slot, and is not in `limitMaxThreads`. -/
theorem Thread.idle_of_ended (h : t.ended = true) :
    t.holds m = 0 ∧ t.slots = 0 ∧ t.limitPoint = none := by
  cases t with
  | worker m' o p =>
    cases p with
    | finished => cases o <;> exact ⟨by simp [holds, onMacro, RunPc.holds], rfl, rfl⟩
    | _ => cases h
  | reset m' o p =>
    cases p with
    | finished => exact ⟨by simp [holds, onMacro, ResetPc.holds], rfl, rfl⟩
    | _ => cases h
  | call m' p =>
    cases p with
    | returned => exact ⟨by simp [holds, onMacro, CallPc.holds], rfl, rfl⟩
    | _ => cases h

/-- **A quiet program leaves the memory settled**: when every thread of a steady run has ended, no
mutex is held, no run is counted, no slot is taken, and each queue is between 0 and its limit, and
that limit between 1 and the global one. -/
theorem settled_of_ended (hmem : mem.Settled) (hqueued : ∀ m, (mem.macros m).queued = 0)
    (h : program.Run Steady (initial mem) tr c) (hended : ∀ t ∈ c.pool, t.ended = true) :
    c.shared.Settled := by
  have hlimit := threadLimit_of_run (fun _ _ ok => ok.fixedLimit) h
  have hpos : 1 ≤ mem.threadLimit := by
    have h₀ := hmem.macros 0
    exact Nat.le_trans h₀.threadMax h₀.threadMax_le
  have hfit := limitsFit_of_run (fun _ _ ok => ok.fixedLimit) hpos
    (fun m => (hmem.macros m).threadMax_le) h
  have hcounter := counterInv_of_run (fun m => (hmem.macros m).threadMax) hqueued
    (fun m => (hmem.macros m).locked) (h.mono fun _ _ ok => ok.counterFits)
  have hctx := context_of_run (fun _ _ ok => ok.givesContext) (fun m => (hmem.macros m).context) h
  refine ⟨hlimit ▸ hmem.limit, ?_, fun m => ?_⟩
  · -- nobody has a slot
    have hslots := (accounted_of_paired hmem.active
      (h.mono fun _ _ ok => ⟨ok.fixedLimit, ok.pairedRelease⟩)).1
    rw [hslots, ← weight_slots, weight_eq_zero_iff]
    exact fun t ht => (Thread.idle_of_ended (m := 0) (hended t ht)).2.1
  · have hlocked : (c.shared.macros m).locked.toNat = 0 := by
      rw [locked_eq_weight m (hmem.macros m).locked h, weight_eq_zero_iff]
      exact fun t ht => (Thread.idle_of_ended (hended t ht)).1
    have hcount : (c.shared.macros m).threadCount = 0 := by
      rw [threadCount_eq_weight_of_resets (fun _ _ ok =>
        resetFindsZero_of_resetsFindZero ok.resetsFindZero m) (hmem.macros m).threadCount h,
        weight_eq_zero_iff]
      exact fun t ht => Thread.counted_of_ended (hended t ht)
    have hqueue : (c.shared.macros m).queued ≤ (c.shared.macros m).threadMax := by
      -- who would still have to correct the queue has ended
      refine (hcounter m).limited.resolve_right ?_
      rintro ⟨t, ht, -, hpoint⟩
      exact hpoint (Thread.idle_of_ended (m := 0) (hended t ht)).2.2
    refine ⟨hctx m, by simpa using hlocked, hcount, (hcounter m).nonneg, hqueue,
      (hcounter m).threadMax, ?_⟩
    rw [hlimit]
    exact hfit.threadMax m

end Quiet

/-- Two workers play one macro at the same time, up to the end of both. -/
theorem settled_of_ended_two : ∃ tr c,
    program.Run Steady (initial (.ofMacro
      { interruptor := .continue, context := some 0, threadMax := 2, signals := [some 0] })) tr c ∧
      (∀ t ∈ c.pool, t.ended = true) ∧ c.pool.length = 4 ∧ c.shared.Settled := by
  obtain ⟨tr, c, h, hp⟩ := Machine.Run.exists_of_exec
    (fun c l => fixedLimit l && (pairedRelease c l && (counterFits c l && (resetsFindZero c l &&
      givesContext l))))
    (initial (.ofMacro
      { interruptor := .continue, context := some 0, threadMax := 2, signals := [some 0] }))
    (startTwice 12 ++ List.replicate 39 (.step 1 true) ++ List.replicate 11 (.step 3 true))
    (M := program) (P := fun _ c => (∀ t ∈ c.pool, t.ended = true) ∧ c.pool.length = 4)
    (by decide +kernel)
  obtain ⟨hended, hlength⟩ := of_decide_eq_true hp
  have hrun : program.Run Steady _ tr c := h.mono fun c l ok => by
    simp only [Bool.and_eq_true] at ok
    obtain ⟨hlimit, hpaired, hfits, hzero, hctx⟩ := ok
    exact ⟨hlimit, hpaired, hfits, hzero, hctx⟩
  have hmac : Macro.Settled 0x10
      { interruptor := .continue, context := some 0, threadMax := 2, signals := [some 0] } :=
    ⟨by decide, rfl, rfl, by decide, by decide, by decide, by decide⟩
  exact ⟨tr, c, hrun, hended, hlength,
    settled_of_ended ⟨by decide, rfl, fun _ => hmac⟩ (fun _ => rfl) hrun hended⟩

end Libmacro
