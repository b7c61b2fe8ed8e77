import Libmacro.Containers.History
import Libmacro.DispatchOrder
import Mathlib.Data.Finset.Card

/-! # A dispatcher after any history of calls

Clients add and remove receivers at any time, `clear` the set, and ask for its size. `remove`
ignores a null pointer and `add` does not, so that a null pointer stays until the next `clear`:
`count` and `empty` see it, and `dispatch` does not call it. `dispatch_after` reads what a dispatch
does off the history: it calls those that the last call about them added. -/

namespace Libmacro

open Containers

namespace Dispatcher

variable {ρ σ : Type}

/-- A call of a client on a dispatcher. -/
inductive Call (ρ : Type) where
  /-- `add(signalPtr, receiverPtr)`. -/
  | add (receiverPtr : Option ρ)
  /-- `remove(removeReceiverPtr)`. -/
  | remove (removeReceiverPtr : Option ρ)
  /-- `clear()`. -/
  | clear
  /-- `trim()`. -/
  | trim
  /-- `operator=(other)`. -/
  | assign (other : Dispatcher ρ)

/-- `Dispatcher::trim()` has an empty body, and so changes nothing. -/
def trim (d : Dispatcher ρ) : Dispatcher ρ := d

/-- `Dispatcher::operator=`: the context is copied, the receivers are not. -/
def assign (d : Dispatcher ρ) (_ : Dispatcher ρ) : Dispatcher ρ := d

/-- `Dispatcher::count()`: the size of the set, a null pointer included. -/
def count (d : Dispatcher ρ) : ℕ := d.receivers.card

/-- `IDispatcher::empty()` compares the count with zero. -/
def empty (d : Dispatcher ρ) : Bool := d.count = 0

/-- `Dispatcher::modifier(signalPtr, modsPtr)` has an empty body. -/
def modifier (mods : ModFlags) : ModFlags := mods

/-- `IDispatcher::dispatchAndModify(signalPtr, modsPtr)` over the receivers in the order of the
iteration: the state after it, `*modsPtr`, and what it returns. -/
def dispatchAndModify (receive : ModFlags → σ → ρ → σ × Bool) (s : σ) (mods : ModFlags)
    (order : List (Option ρ)) : σ × ModFlags × Bool :=
  let (s', blocked) := dispatch (receive mods) s order
  if blocked then (s', mods, true) else (s', modifier mods, false)

variable [DecidableEq ρ]

/-- What a call does to the receivers of the dispatcher. -/
def Call.on (d : Dispatcher ρ) : Call ρ → Dispatcher ρ
  | add receiverPtr => d.add receiverPtr
  | remove removeReceiverPtr => d.remove removeReceiverPtr
  | clear => d.clear
  | trim => d.trim
  | assign other => d.assign other

/-- The dispatcher after the calls, from its construction; the copy constructor copies no receivers
either. -/
def after (history : List (Call ρ)) : Dispatcher ρ := history.foldl Call.on {}

/-- Whether a call leaves the pointer registered, if it touches it. -/
def Call.sets (receiverPtr : Option ρ) : Call ρ → Option Bool
  | add p => if p = receiverPtr then some true else none
  | remove p => if p = receiverPtr ∧ p.isSome then some false else none
  | clear => some false
  | trim | assign _ => none

/-- **The last call about the pointer adds it.** -/
def AddedLast (history : List (Call ρ)) (receiverPtr : Option ρ) : Prop :=
  LastSet (Call.sets receiverPtr) history true

section After

variable {receive : σ → ρ → σ × Bool} {d : Dispatcher ρ} {s : σ} {order : List (Option ρ)}
  {history : List (Call ρ)}

/-- What a call does to one pointer. -/
theorem Call.mem_on (d : Dispatcher ρ) (c : Call ρ) (p : Option ρ) :
    decide (p ∈ (c.on d).receivers) = (c.sets p).getD (decide (p ∈ d.receivers)) := by
  cases c with
  | add q =>
    show decide (p ∈ insert q d.receivers) = _
    by_cases hq : q = p
    · simp [sets, hq]
    · simp [sets, hq, Ne.symm hq]
  | remove q =>
    cases q with
    | none =>
      show decide (p ∈ d.receivers) = _
      simp [sets]
    | some r =>
      show decide (p ∈ d.receivers.erase (some r)) = _
      by_cases hr : some r = p
      · simp [sets, ← hr]
      · simp [sets, hr, Ne.symm hr]
  | clear => simp [on, Dispatcher.clear, sets]
  | trim | assign => rfl

/-- **A pointer is registered iff the last call about it adds it.** -/
theorem mem_after_iff (p : Option ρ) : p ∈ (after history).receivers ↔ AddedLast history p := by
  have hlast := observe_foldl (fun d : Dispatcher ρ => decide (p ∈ d.receivers))
    (fun d c => c.mem_on d p) {} history
  rw [AddedLast, ← lastSet_eq_some_iff, ← decide_eq_true_iff (p := p ∈ (after history).receivers)]
  refine hlast ▸ ?_
  cases lastSet (Call.sets p) history <;> simp

/-- Where nobody blocks the registered receivers are called, each once. -/
theorem Independent.length_calls (h : d.Independent receive s) (ho : d.Enumerates order)
    (hnone : ∀ r, d.Has r → (receive s r).2 = false) :
    (calls receive s order).length = (d.receivers.erase none).card := by
  have hnodup : ((calls receive s order).map some).Nodup := ho.1.sublist (sublist_calls s order)
  rw [← List.length_map (f := some), ← List.toFinset_card_of_nodup hnodup]
  congr 1
  ext p
  rw [List.mem_toFinset, List.mem_map, Finset.mem_erase]
  have hmem : ∀ r, r ∈ calls receive s order ↔ d.Has r := fun r =>
    h.mem_calls_of_others ho fun r' hr' _ => hnone r' hr'
  cases p with
  | none => simp
  | some r =>
    simp only [Option.some.injEq, exists_eq_right, ne_eq, reduceCtorEq, not_false_eq_true, true_and]
    exact hmem r

/-- **A dispatch after any history** of calls, in any order of the set: it returns true iff
somebody blocks among those that the last call about them added, and changes no modifiers. When it
returns false it has called these and nobody else, each once; and `count` is the number of the
calls, and one more for a null pointer that was added since the last `clear`. -/
theorem dispatch_after {receive : ModFlags → σ → ρ → σ × Bool} (mods : ModFlags)
    (h : (after history).Independent (receive mods) s) (ho : (after history).Enumerates order) :
    ((dispatchAndModify receive s mods order).2.2 = true ↔
        ∃ r, AddedLast history (some r) ∧ (receive mods s r).2 = true) ∧
      (dispatchAndModify receive s mods order).2.1 = mods ∧
      ((dispatchAndModify receive s mods order).2.2 = false →
        (∀ r, AddedLast history (some r) → (calls (receive mods) s order).count r = 1) ∧
        (∀ r, ¬ AddedLast history (some r) → (calls (receive mods) s order).count r = 0) ∧
        (AddedLast history none →
          (after history).count = (calls (receive mods) s order).length + 1) ∧
        (¬ AddedLast history none →
          (after history).count = (calls (receive mods) s order).length)) ∧
      ((after history).empty = true ↔ ∀ p, ¬ AddedLast history p) := by
  have hhas : ∀ r, (after history).Has r ↔ AddedLast history (some r) := fun r => mem_after_iff _
  -- the receivers are those added last, so one of them blocks
  have hblocks : (dispatch (receive mods) s order).2 = true ↔
      ∃ r, AddedLast history (some r) ∧ (receive mods s r).2 = true := by
    rw [h.dispatch_snd_iff fun r hr => (ho.2 _).mp hr]
    refine exists_congr fun r => and_congr_left fun _ => ?_
    rw [ho.2, mem_after_iff]
  have hsnd : (dispatchAndModify receive s mods order).2 =
      (mods, (dispatch (receive mods) s order).2) := by
    rw [dispatchAndModify]
    dsimp only
    split_ifs with hblocked
    · rw [hblocked]
    · rw [Bool.eq_false_of_not_eq_true hblocked, modifier]
  rw [hsnd]
  refine ⟨hblocks, rfl, fun hfalse => ?_, ?_⟩
  -- nobody blocks: the loop reaches everybody
  · have hnone : ∀ r, (after history).Has r → (receive mods s r).2 = false := fun r hr => by
      refine Bool.eq_false_of_not_eq_true fun htrue => ?_
      exact Bool.false_ne_true (hfalse.symm.trans (hblocks.mpr ⟨r, (hhas r).mp hr, htrue⟩))
    have hnodup : (calls (receive mods) s order).Nodup :=
      List.Nodup.of_map some (ho.1.sublist (sublist_calls s order))
    have hmem : ∀ r, r ∈ calls (receive mods) s order ↔ AddedLast history (some r) := fun r =>
      (h.mem_calls_of_others ho fun r' hr' _ => hnone r' hr').trans (hhas r)
    have hlen := h.length_calls ho hnone
    refine ⟨fun r hr => List.count_eq_one_of_mem hnodup ((hmem r).mpr hr),
      fun r hr => List.count_eq_zero_of_not_mem fun hcall => hr ((hmem r).mp hcall),
      fun hnull => ?_, fun hnull => ?_⟩
    · rw [hlen, count, Finset.card_erase_add_one ((mem_after_iff none).mpr hnull)]
    · rw [hlen, count, Finset.erase_eq_of_notMem fun hin => hnull ((mem_after_iff none).mp hin)]
  · rw [empty, decide_eq_true_iff, count, Finset.card_eq_zero, Finset.eq_empty_iff_forall_notMem]
    exact forall_congr' fun p => not_congr (mem_after_iff p)

end After

/-- Macro 0, which blocks, is removed again, and the null pointer is not. -/
def removedAgain : List (Call Receiver) :=
  [.add none, .add (some (.ofMacro 0)), .add (some (.ofMacro 1)), .remove (some (.ofMacro 0)),
    .remove none]

/-- Two pointers are counted, and macro 1 is called. -/
theorem dispatch_after_removedAgain :
    (dispatchAndModify (Memory.receive blockingAction (fun _ _ => none) none) oneBlocks 5
        [none, some (.ofMacro 1)]).2.1 = 5 ∧
      (after removedAgain).count =
        (calls (Memory.receive blockingAction (fun _ _ => none) none 5) oneBlocks
          [none, some (.ofMacro 1)]).length + 1 := by
  have ho : (after removedAgain).Enumerates [none, some (.ofMacro 1)] := by
    refine ⟨by decide, fun r => ?_⟩
    have hset : (after removedAgain).receivers = {none, some (.ofMacro 1)} := by decide
    rw [hset]
    simp
  obtain ⟨-, hmods, hsilent, -⟩ := dispatch_after 5
    (Memory.independent_receive blockingAction (fun _ _ => none) none 5 _ oneBlocks) ho
  refine ⟨hmods, (hsilent (by decide)).2.2.1 ?_⟩
  exact ⟨[], .add none, removedAgain.tail, rfl, rfl, by decide⟩

end Dispatcher

end Libmacro
