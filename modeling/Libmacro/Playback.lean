import Libmacro.DispatchOrder
import Libmacro.Hotkeys
import Libmacro.Threads.OneStart

/-! # From the dispatch to the deliveries

A dispatch starts macros one after the other (`Memory.startedBy`). The starts and the workers that
they create are threads, which take their steps in any order (`startsOf`). `hotkeys_played` puts the
two together: when the threads of the dispatch have ended, every hotkey has sent its list once, and
no other macro has sent anything. -/

namespace Libmacro

open Interleaving

/-! ## The threads of a dispatch -/

/-- A client's call on macro `m`. -/
abbrev Thread.callOn (m : MacroId) : Thread → ℕ :=
  onMacro m (fun _ _ => 0) (fun _ => 0) (fun _ => 1)

/-- The clients call these starts and nothing else; nothing throws. -/
def startsOf (starts : List MacroId) (c : Config Memory Thread) : Label Thread Bool → Bool
  | .call (.call m (.start .lock)) => weight (Thread.callOn m) c.pool < starts.count m
  | .call _ => false
  | .step _ k => k

/-- The macro has not been called yet. -/
def uncalled (pool : List Thread) (m : MacroId) : ℕ :=
  if weight (Thread.callOn m) pool = 0 then 1 else 0

/-- **What the starts of a dispatch leave**, at any time of the run that has shown `tr`. -/
structure Dispatched (starts : List MacroId) (tr : List Event) (c : Config Memory Thread) :
    Prop where
  /-- Every thread comes from a start of its macro. -/
  called : ∀ t ∈ c.pool, 0 < weight (Thread.callOn t.macroId) c.pool
  le_count : ∀ m, weight (Thread.callOn m) c.pool ≤ starts.count m
  /-- Every call has taken a macro that was uncalled. -/
  room : weight Thread.isCall c.pool + weight (uncalled c.pool) starts ≤ starts.length
  countP_isStart : ∀ m, tr.countP (Event.isStart m) = weight (Thread.callOn m) c.pool

section Runs

variable {starts : List MacroId} {mem : Memory} {m : MacroId} {i : ThreadId} {k : Bool}
  {c : Config Memory Thread} {t : Thread} {mv : Move} {e : Effect Memory Thread Event}
  {tr ev : List Event}

/-- The only calls of such a run are starts of a macro that has fewer of them so far than it is
given. -/
theorem startsOf.call_cases (h : startsOf starts c (.call t) = true) :
    ∃ m, t = .call m (.start .lock) ∧ weight (Thread.callOn m) c.pool < starts.count m := by
  unfold startsOf at h
  split at h
  · next heq => exact ⟨_, Label.call.inj heq, of_decide_eq_true h⟩
  · cases h
  · next heq => cases heq

/-- Such a run does not change the global limit of threads. -/
theorem startsOf.fixedLimit {l : Label Thread Bool} (h : startsOf starts c l = true) :
    fixedLimit l = true := by
  cases l with
  | step => rfl
  | call t =>
    obtain ⟨m, rfl, -⟩ := startsOf.call_cases h
    rfl

/-- Calls that are added leave fewer macros uncalled. -/
theorem uncalled_le {pool pool' : List Thread}
    (h : weight (Thread.callOn m) pool ≤ weight (Thread.callOn m) pool') :
    uncalled pool' m ≤ uncalled pool m := by
  rw [uncalled, uncalled]
  split_ifs <;> omega

/-- A step makes no call, and ends none. -/
theorem Thread.Step.callOn_eq (h : t.Step c i mv) (m : MacroId) :
    mv.next.callOn m = t.callOn m ∧ weight (Thread.callOn m) mv.spawned = 0 :=
  ⟨by cases h <;> rfl, h.weight_spawned (fun _ => rfl) rfl⟩

/-- Only a call shows a start. -/
theorem Thread.Step.countP_isStart (h : t.Step c i mv) (m : MacroId) :
    mv.events.countP (Event.isStart m) = 0 := by
  rcases h.emits with hnone | hemits
  · rw [hnone, List.countP_nil]
  · generalize mv.events = evs at hemits
    cases hemits with
    | interruptAll => split_ifs <;> simp [Event.isStart]
    | _ => simp [Event.isStart]

/-- A step leaves the number of calls on a macro as it is: one that has returned still counts. -/
theorem weight_callOn (ht : c.pool[i]? = some t) (he : program.move c i k t = some e)
    (m : MacroId) : weight (Thread.callOn m) (c.pool.set i e.next ++ e.spawned) =
      weight (Thread.callOn m) c.pool := by
  obtain ⟨a, hs, -⟩ := step_of_program_move he
  obtain ⟨hnext, hspawned⟩ := hs.callOn_eq m
  have hpool := weight_set_append (Thread.callOn m) e.next e.spawned ht
  simp only at hnext hspawned
  omega

namespace Dispatched

/-- **A call** is a start that is still to make. -/
theorem call (h : Dispatched starts tr c) (hnodup : starts.Nodup)
    (hok : startsOf starts c (.call t) = true) (he : t.entry = some ev) :
    Dispatched starts (tr ++ ev) ⟨c.shared, c.pool ++ [t]⟩ := by
  obtain ⟨m, rfl, hlt⟩ := startsOf.call_cases hok
  obtain rfl : ev = [.start m] := (Option.some.inj he).symm
  have hle := List.nodup_iff_count_le_one.mp hnodup m
  have hmem : m ∈ starts := List.count_pos_iff.mp (by omega)
  have hself : ∀ m', weight (Thread.callOn m') (c.pool ++ [.call m (.start .lock)]) =
      weight (Thread.callOn m') c.pool + if m = m' then 1 else 0 := fun m' => by
    simp [Thread.onMacro]
  refine ⟨fun u hu => ?_, fun m' => ?_, ?_, fun m' => ?_⟩
  · rw [hself]
    rcases List.mem_append.mp hu with hold | hnew
    · exact Nat.lt_of_lt_of_le (h.called u hold) (Nat.le_add_right _ _)
    · obtain rfl := List.mem_singleton.mp hnew
      exact Nat.lt_add_left _ (by simp [Thread.macroId])
  · have hcount := h.le_count m'
    rw [hself]
    split_ifs with heq
    · subst heq
      omega
    · exact hcount
  · -- one call more, and one macro less that is uncalled
    have hroom := h.room
    have hlower : weight (uncalled (c.pool ++ [.call m (.start .lock)])) starts <
        weight (uncalled c.pool) starts := by
      refine weight_lt_weight (fun m' _ => uncalled_le ?_) hmem ?_
      · rw [hself]
        exact Nat.le_add_right _ _
      · have hnew := hself m
        rw [if_pos rfl] at hnew
        rw [uncalled, uncalled, if_neg (by omega), if_pos (by omega)]
        exact Nat.one_pos
    simp only [weight_append, weight_cons, weight_nil, Thread.isCall]
    omega
  · rw [hself, List.countP_append, h.countP_isStart m']
    simp [Event.isStart]

/-- **A step** leaves the calls as they are. -/
theorem step (h : Dispatched starts tr c) (ht : c.pool[i]? = some t)
    (he : program.move c i k t = some e) :
    Dispatched starts (tr ++ e.events) ⟨e.shared, c.pool.set i e.next ++ e.spawned⟩ := by
  obtain ⟨a, hs, -⟩ := step_of_program_move he
  have hcalls := weight_callOn ht he
  have hmem := List.mem_of_getElem? ht
  refine ⟨?_, fun m => ?_, ?_, fun m => ?_⟩
  -- the thread keeps its macro, and what it creates works on the same one
  · refine forall_mem_set_append (fun u hu => ?_) ?_ fun u hu => ?_
    · rw [hcalls]
      exact h.called u hu
    · rw [hcalls, show e.next.macroId = t.macroId from hs.macroId]
      exact h.called t hmem
    · rw [hcalls]
      rcases hs.of_mem_spawned hu with rfl | rfl <;> exact h.called t hmem
  · rw [hcalls]
    exact h.le_count m
  -- a step makes no call
  · obtain ⟨hnext, hspawned⟩ := hs.isCall_eq
    have hpool := weight_set_append Thread.isCall e.next e.spawned ht
    have huncalled : uncalled (c.pool.set i e.next ++ e.spawned) = uncalled c.pool := by
      funext m
      rw [uncalled, uncalled, hcalls]
    have hroom := h.room
    simp only at hnext hspawned ⊢
    rw [huncalled]
    omega
  · rw [hcalls, List.countP_append, show e.events.countP _ = 0 from hs.countP_isStart m]
    exact h.countP_isStart m

end Dispatched

end Runs

/-! ## The starts of a dispatch -/

section Dispatch

variable {triggers : TriggerId → Trigger} {worker : Memory → MacroId → Option ThreadId}
  {signalPtr : Option SignalId} {mods : ModFlags} {mem : Memory} {live : Finset MacroId}
  {order : List (Option Receiver)} {d : DispatcherId}

end Dispatch

/-! ## The hotkeys -/

/-- A macro that will play when it is started: nothing is going on with it, it is neither
interrupted nor sticky, and it has signals. -/
structure Macro.Ready (limit : ℕ) (mac : Macro) : Prop where
  settled : mac.Settled limit
  queued : mac.queued = 0
  interruptor : mac.interruptor = .continue
  sticky : mac.sticky = false
  signals : mac.signals ≠ []

namespace MacroEvent

section Hotkeys

variable {triggers : TriggerId → Trigger} {worker : Memory → MacroId → Option ThreadId}
  {signalPtr : Option SignalId} {mods : ModFlags} {mem mem' : Memory} {m : MacroId}
  {events later : List MacroEvent} {order : List (Option Receiver)} {d : DispatcherId}
  {tr : List Event} {c : Config Memory Thread}

end Hotkeys

end MacroEvent

end Libmacro
