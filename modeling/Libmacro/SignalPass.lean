import Libmacro.Memory

/-! # One pass of `dispatchSignals`

The loop of `MacroImpl::dispatchSignals` over the signal list, run on its own. It reads the
interruptor twice for each signal and hands the signal either to its dispatcher or, when it has
none, to `send`; the flag the dispatcher returns is thrown away. `DispatchThenSend` is the
library's contract for the pass (dispatch first, send what was not blocked), and
`dispatchThenSend_iff` says for which outcomes of the dispatchers the loop keeps it. -/

namespace Libmacro

/-- What the loop does with the signal at position `i` of the list. -/
inductive Delivery where
  /-- `dispatcher->dispatch(signalPtr, 0)` returned `blocked`. -/
  | offered (i : ℕ) (signalPtr : SignalId) (blocked : Bool)
  /-- `signalPtr->send()`. -/
  | sent (i : ℕ) (signalPtr : SignalId)
  deriving DecidableEq, Repr

/-- The position of the signal in the list. -/
def Delivery.position : Delivery → ℕ
  | offered i _ _ => i
  | sent i _ => i

/-- The delivery is an offer to a dispatcher. -/
def Delivery.isOffer : Delivery → Bool
  | offered .. => true
  | sent .. => false

/-- What a pass meets: the interruptor it reads in the two tests of each position, and the flag
the dispatcher of that position returns. -/
structure Encounter where
  /-- The interruptor read by the test for `INTERRUPT_ALL`. -/
  breakTest : ℕ → Interrupt
  /-- The interruptor read by the test for `INTERRUPT`. -/
  skipTest : ℕ → Interrupt
  /-- What `dispatch` returns. -/
  blocked : ℕ → Bool

/-- The pass is not interrupted: no test reads `INTERRUPT` or more. -/
def Encounter.Uninterrupted (env : Encounter) : Prop :=
  ∀ i, (env.breakTest i).code < Interrupt.interrupt.code ∧
    (env.skipTest i).code < Interrupt.interrupt.code

variable (dispatcherPtr : SignalId → Option DispatcherId) (env : Encounter)

/-- How one signal is delivered: the flag of `dispatch` is not looked at. -/
def deliver (i : ℕ) (signalPtr : SignalId) : Delivery :=
  match dispatcherPtr signalPtr with
  | some _ => .offered i signalPtr (env.blocked i)
  | none => .sent i signalPtr

/-- The loop of `MacroImpl::dispatchSignals` from position `i` on. -/
def dispatchSignals : ℕ → List (Option SignalId) → List Delivery
  | _, [] => []
  | i, signalPtr :: rest =>
    if Interrupt.interruptAll.code ≤ (env.breakTest i).code then []
    else if Interrupt.interrupt.code ≤ (env.skipTest i).code then dispatchSignals (i + 1) rest
    else match signalPtr with
      | none => dispatchSignals (i + 1) rest
      | some s => deliver dispatcherPtr env i s :: dispatchSignals (i + 1) rest

/-- **Dispatch then send**, the contract of the library for one pass: the signals are processed
in list order, each is offered to its dispatcher at most once, and each is sent exactly once
unless its dispatcher blocked it. -/
structure DispatchThenSend (signals : List (Option SignalId)) (trace : List Delivery) :
    Prop where
  /-- The list order. -/
  inOrder : (trace.map Delivery.position).Pairwise (· ≤ ·)
  /-- Only signals of the list are delivered. -/
  genuine : ∀ e ∈ trace, ∃ s, signals[e.position]? = some (some s) ∧
    (e = .offered e.position s (env.blocked e.position) ∧ (dispatcherPtr s).isSome ∨
      e = .sent e.position s)
  /-- No signal is offered twice. -/
  offeredOnce : ∀ i, trace.countP (fun e => e.isOffer && e.position == i) ≤ 1
  /-- A blocked signal is not sent, every other one is sent exactly once. -/
  sentOnce : ∀ i s, signals[i]? = some (some s) → trace.count (.sent i s) =
    if (dispatcherPtr s).isSome ∧ env.blocked i = true then 0 else 1

section Loop

variable {dispatcherPtr : SignalId → Option DispatcherId} {env : Encounter} {i k : ℕ}
  {signals : List (Option SignalId)}

/-- A delivery is recorded with the position of its signal in the list. -/
@[simp] theorem deliver_position (s : SignalId) :
    (deliver dispatcherPtr env i s).position = i := by
  unfold deliver
  cases dispatcherPtr s <;> rfl

/-- The first test of a position leaves the loop. -/
theorem dispatchSignals_of_break
    (hbreak : Interrupt.interruptAll.code ≤ (env.breakTest i).code) (signalPtr : Option SignalId) :
    dispatchSignals dispatcherPtr env i (signalPtr :: signals) = [] := by
  cases signalPtr <;> rw [dispatchSignals, if_pos hbreak]

/-- The second test of a position skips its signal. -/
theorem dispatchSignals_of_skip
    (hbreak : ¬ Interrupt.interruptAll.code ≤ (env.breakTest i).code)
    (hskip : Interrupt.interrupt.code ≤ (env.skipTest i).code) (signalPtr : Option SignalId) :
    dispatchSignals dispatcherPtr env i (signalPtr :: signals) =
      dispatchSignals dispatcherPtr env (i + 1) signals := by
  cases signalPtr <;> rw [dispatchSignals, if_neg hbreak, if_pos hskip]

/-- A position whose tests let the loop through. -/
theorem dispatchSignals_cons_of_not
    (hbreak : ¬ Interrupt.interruptAll.code ≤ (env.breakTest i).code)
    (hskip : ¬ Interrupt.interrupt.code ≤ (env.skipTest i).code) (signalPtr : Option SignalId) :
    dispatchSignals dispatcherPtr env i (signalPtr :: signals) =
      (signalPtr.map (deliver dispatcherPtr env i)).toList ++
        dispatchSignals dispatcherPtr env (i + 1) signals := by
  cases signalPtr with
  | none => rw [dispatchSignals, if_neg hbreak, if_neg hskip]; rfl
  | some s => rw [dispatchSignals, if_neg hbreak, if_neg hskip]; rfl

/-- An uninterrupted pass takes each signal's turn. -/
theorem dispatchSignals_cons (henv : env.Uninterrupted) (signalPtr : Option SignalId) :
    dispatchSignals dispatcherPtr env i (signalPtr :: signals) =
      (signalPtr.map (deliver dispatcherPtr env i)).toList ++
        dispatchSignals dispatcherPtr env (i + 1) signals := by
  refine dispatchSignals_cons_of_not ?_ (Nat.not_le.mpr (henv i).2) signalPtr
  exact Nat.not_le.mpr ((henv i).1.trans (by decide))

/-- The loop delivers at the positions it has still to reach. -/
theorem le_position_of_mem (henv : env.Uninterrupted) {e : Delivery}
    (he : e ∈ dispatchSignals dispatcherPtr env i signals) : i ≤ e.position := by
  induction signals generalizing i with
  | nil => simp [dispatchSignals] at he
  | cons signalPtr signals ih =>
    rw [dispatchSignals_cons henv, List.mem_append] at he
    rcases he with he | he
    · cases signalPtr with
      | none => simp at he
      | some s =>
        obtain rfl : e = deliver dispatcherPtr env i s := by simpa using he
        simp
    · exact (Nat.le_succ i).trans (ih he)

/-- **The positions increase**: each signal of the list has at most one delivery. -/
theorem positions_dispatchSignals (henv : env.Uninterrupted) :
    ((dispatchSignals dispatcherPtr env i signals).map Delivery.position).Pairwise (· < ·) := by
  induction signals generalizing i with
  | nil => simp [dispatchSignals]
  | cons signalPtr signals ih =>
    rw [dispatchSignals_cons henv]
    cases signalPtr with
    | none => simpa using ih
    | some s =>
      simp only [Option.map_some, Option.toList_some, List.singleton_append, List.map_cons,
        deliver_position, List.pairwise_cons]
      refine ⟨fun j hj => ?_, ih⟩
      -- the rest of the list is delivered further on
      obtain ⟨e, he, rfl⟩ := List.mem_map.mp hj
      exact le_position_of_mem henv he

/-- **What is delivered**: the signals of the list, each in its own way. -/
theorem mem_dispatchSignals_iff (henv : env.Uninterrupted) {e : Delivery} :
    e ∈ dispatchSignals dispatcherPtr env i signals ↔
      ∃ j s, signals[j]? = some (some s) ∧ e = deliver dispatcherPtr env (i + j) s := by
  induction signals generalizing i with
  | nil => simp [dispatchSignals]
  | cons signalPtr signals ih =>
    rw [dispatchSignals_cons henv, List.mem_append, ih]
    constructor
    · rintro (he | ⟨j, s, hj, rfl⟩)
      · cases signalPtr with
        | none => simp at he
        | some s => exact ⟨0, s, rfl, by simpa using he⟩
      · exact ⟨j + 1, s, by simpa using hj, by rw [Nat.add_assoc, Nat.add_comm 1 j]⟩
    · rintro ⟨j, s, hj, rfl⟩
      -- the first position is this signal's turn, the others are the rest's
      cases j with
      | zero =>
        obtain rfl : signalPtr = some s := by simpa using hj
        simp
      | succ j => exact .inr ⟨j, s, by simpa using hj, by rw [Nat.add_assoc, Nat.add_comm 1 j]⟩

/-- At each position there is at most one delivery, whatever its kind. -/
theorem countP_position_le_one (henv : env.Uninterrupted) (p : Delivery → Bool) :
    (dispatchSignals dispatcherPtr env i signals).countP (fun e => p e && e.position == k) ≤ 1 :=
  calc
    _ ≤ (dispatchSignals dispatcherPtr env i signals).countP (fun e => e.position == k) :=
      List.countP_mono_left fun e _ he => by simp_all
    _ = ((dispatchSignals dispatcherPtr env i signals).map Delivery.position).count k := by
      rw [List.count, List.countP_map]
      rfl
    _ ≤ 1 := List.nodup_iff_count.mp ((positions_dispatchSignals henv).imp Nat.ne_of_lt) k

/-- A signal of the list is sent once when it has no dispatcher, and never when it has one. -/
theorem count_sent (henv : env.Uninterrupted) {s : SignalId} (hs : signals[i]? = some (some s)) :
    (dispatchSignals dispatcherPtr env 0 signals).count (.sent i s) =
      if (dispatcherPtr s).isSome then 0 else 1 := by
  have hnodup : (dispatchSignals dispatcherPtr env 0 signals).Nodup :=
    .of_map Delivery.position ((positions_dispatchSignals henv).imp Nat.ne_of_lt)
  -- no delivery occurs twice, so counting is membership
  rw [hnodup.count]
  cases hd : dispatcherPtr s with
  | none =>
    have hmem : Delivery.sent i s ∈ dispatchSignals dispatcherPtr env 0 signals :=
      (mem_dispatchSignals_iff henv).mpr ⟨i, s, hs, by simp [deliver, hd]⟩
    simp [hmem]
  | some d =>
    have hmem : Delivery.sent i s ∉ dispatchSignals dispatcherPtr env 0 signals := by
      intro he
      obtain ⟨j, s', -, heq⟩ := (mem_dispatchSignals_iff henv).mp he
      unfold deliver at heq
      cases hd' : dispatcherPtr s' with
      | none =>
        rw [hd'] at heq
        cases heq
        rw [hd] at hd'
        cases hd'
      | some d' => rw [hd'] at heq; cases heq
    simp [hmem]

/-- **The loop keeps the contract iff every dispatcher it meets blocks**: in an uninterrupted
pass a signal that its dispatcher lets through is not sent. -/
theorem dispatchThenSend_iff (henv : env.Uninterrupted) :
    DispatchThenSend dispatcherPtr env signals (dispatchSignals dispatcherPtr env 0 signals) ↔
      ∀ i s, signals[i]? = some (some s) → (dispatcherPtr s).isSome → env.blocked i = true := by
  constructor
  · intro h i s hs hd
    -- a signal with a dispatcher is never sent, so the contract holds only if it is blocked
    have hcount := h.sentOnce i s hs
    rw [count_sent henv hs, if_pos hd] at hcount
    by_contra hblocked
    rw [if_neg fun hb => hblocked hb.2] at hcount
    cases hcount
  · intro hall
    refine ⟨(positions_dispatchSignals henv).imp Nat.le_of_lt, ?_, ?_, ?_⟩
    · intro e he
      obtain ⟨j, s, hj, rfl⟩ := (mem_dispatchSignals_iff henv).mp he
      rw [Nat.zero_add, deliver_position]
      refine ⟨s, hj, ?_⟩
      unfold deliver
      cases dispatcherPtr s <;> simp
    · -- an offer is a delivery at its position
      exact fun i => countP_position_le_one henv Delivery.isOffer
    · intro i s hs
      rw [count_sent henv hs]
      by_cases hd : (dispatcherPtr s).isSome
      · rw [if_pos hd, if_pos ⟨hd, hall i s hs hd⟩]
      · rw [if_neg hd, if_neg fun hb => hd hb.1]

end Loop

/-- Signal 0 has no dispatcher, signal 1 has dispatcher 0. -/
def oneDispatcher (signalPtr : SignalId) : Option DispatcherId :=
  if signalPtr = 1 then some 0 else none

/-- A pass in a paused macro whose dispatchers all return `blocked`. -/
def pausedPass (blocked : Bool) : Encounter where
  breakTest _ := .pause
  skipTest _ := .pause
  blocked _ := blocked

/-- `PAUSE` does not interrupt a pass. -/
theorem uninterrupted_pausedPass (blocked : Bool) : (pausedPass blocked).Uninterrupted :=
  fun _ => ⟨Nat.one_lt_two, Nat.one_lt_two⟩

/-- When the dispatcher blocks, the list with both signals and a null one meets the contract. -/
theorem dispatchThenSend_blocked :
    DispatchThenSend oneDispatcher (pausedPass true) [some 0, none, some 1]
      (dispatchSignals oneDispatcher (pausedPass true) 0 [some 0, none, some 1]) :=
  (dispatchThenSend_iff (uninterrupted_pausedPass true)).mpr fun _ _ _ _ => rfl

/-- **A dispatched signal is not sent**: signal 1 is offered to its dispatcher, which lets it
through, and that is all. -/
theorem not_dispatchThenSend_allowed : (pausedPass false).Uninterrupted ∧
    ¬ DispatchThenSend oneDispatcher (pausedPass false) [some 0, none, some 1]
      (dispatchSignals oneDispatcher (pausedPass false) 0 [some 0, none, some 1]) :=
  ⟨uninterrupted_pausedPass false, fun h => absurd (h.sentOnce 2 1 rfl) (by decide)⟩

end Libmacro
