import Libmacro.Containers.Walk
import Libmacro.DispatchOrder

/-! # Callbacks that change the registrations

`Dispatcher::dispatch` walks the `unordered_set` with an iterator and hands control to the
receivers, who may call `add`, `remove`, `clear` and `dispatch` of the same dispatcher. An erased
node, and a rehash of the table, leave an iterator that must not be advanced.

`Dispatching` is the dispatcher with the loops that are under way on it, the innermost first; a
call of `dispatch` from a callback starts one more. A run is any sequence of what the callbacks do
and return. `survives_iff`: the runs in which all goes well are those in which a callback that does
not block leaves the node of its loop, and the table, alone. -/

namespace Libmacro

open Containers

namespace Dispatcher

/-! ## The table -/

/-- A node of the `unordered_set`, which an iterator points to: it has an identity besides its
element. -/
structure Node (ρ : Type) where
  /-- Tells all nodes apart that are ever made. -/
  id : ℕ
  /-- The pointer it holds. -/
  element : Option ρ
  deriving DecidableEq

/-- `_receivers` as an iterator sees it: the nodes in the order of the iteration, and how many nodes
and rehashes there have been. -/
structure Table (ρ : Type) where
  /-- The nodes, in the order of the iteration. -/
  nodes : List (Node ρ)
  /-- The number of nodes made so far. -/
  made : ℕ
  /-- The number of rehashes so far. -/
  rehashes : ℕ
  /-- It is a set. -/
  elements_nodup : (nodes.map Node.element).Nodup
  /-- The nodes are told apart. -/
  ids_nodup : (nodes.map Node.id).Nodup
  /-- The nodes were made. -/
  id_lt : ∀ n ∈ nodes, n.id < made

/-- What `insert` does to the table: nothing for an element that is there, else a new node, with or
without a rehash. -/
inductive Insertion (ρ : Type) where
  /-- The element is there already. -/
  | found
  /-- A new node is linked in at place `i` of the iteration, without a rehash. -/
  | linked (i : ℕ)
  /-- A new node is made, and the table is rehashed into this order. -/
  | rehashed (nodes : List (Node ρ))
  deriving DecidableEq

/-- A change of the registrations, as a call of the dispatcher makes it. -/
inductive Change (ρ : Type) where
  /-- `add(signalPtr, receiverPtr)`. -/
  | add (receiverPtr : Option ρ) (insertion : Insertion ρ)
  /-- `remove(removeReceiverPtr)`. -/
  | remove (removeReceiverPtr : Option ρ)
  /-- `clear()`. -/
  | clear
  deriving DecidableEq

namespace Table

variable {ρ : Type}

/-- The elements in the order of the iteration, null pointers included. -/
def elements (b : Table ρ) : List (Option ρ) := b.nodes.map Node.element

/-- The node that is made next. -/
def newNode (b : Table ρ) (element : Option ρ) : Node ρ := ⟨b.made, element⟩

/-- The table with a new node, in some order of the nodes. -/
def withNode (b : Table ρ) (element : Option ρ) (h : element ∉ b.elements) (nodes : List (Node ρ))
    (hperm : nodes.Perm (b.newNode element :: b.nodes)) (rehashes : ℕ) : Table ρ where
  nodes := nodes
  made := b.made + 1
  rehashes := rehashes
  elements_nodup := (hperm.map _).nodup_iff.mpr (List.nodup_cons.mpr ⟨h, b.elements_nodup⟩)
  ids_nodup := by
    refine (hperm.map _).nodup_iff.mpr (List.nodup_cons.mpr ⟨fun hmem => ?_, b.ids_nodup⟩)
    obtain ⟨n, hn, hid⟩ := List.mem_map.mp hmem
    -- the new id is the number of nodes made, which none of them has
    exact Nat.lt_irrefl _ (hid ▸ b.id_lt n hn)
  id_lt n hn := by
    rcases List.mem_cons.mp (hperm.mem_iff.mp hn) with rfl | hn
    · exact Nat.lt_succ_self _
    · exact Nat.lt_succ_of_lt (b.id_lt n hn)

/-- A node linked in at any place gives a reordering of the list with the node in front. -/
theorem perm_linked (b : Table ρ) (element : Option ρ) (i : ℕ) :
    (b.nodes.take i ++ b.newNode element :: b.nodes.drop i).Perm
      (b.newNode element :: b.nodes) := by
  refine List.perm_middle.trans ?_
  rw [List.take_append_drop]

/-- The table without some of its nodes. -/
def filter (b : Table ρ) (p : Node ρ → Bool) : Table ρ where
  nodes := b.nodes.filter p
  made := b.made
  rehashes := b.rehashes
  elements_nodup := b.elements_nodup.sublist (List.filter_sublist.map _)
  ids_nodup := b.ids_nodup.sublist (List.filter_sublist.map _)
  id_lt n hn := b.id_lt n (List.mem_of_mem_filter hn)

variable {b b' : Table ρ}

/-- A filter on the table keeps the nodes that satisfy it, and no other. -/
theorem mem_filter_nodes {p : Node ρ → Bool} {n : Node ρ} :
    n ∈ (b.filter p).nodes ↔ n ∈ b.nodes ∧ p n = true := List.mem_filter

/-- Filtering the nodes by their elements filters the elements. -/
theorem elements_filter (p : Option ρ → Bool) :
    (b.filter fun n => p n.element).elements = b.elements.filter p := by
  rw [elements, elements, List.filter_map]
  rfl

/-- After an insertion, which may rehash the table, the nodes are the old ones and the new one. -/
theorem mem_withNode_nodes {element : Option ρ} {hnew : element ∉ b.elements}
    {nodes : List (Node ρ)} {hperm : nodes.Perm (b.newNode element :: b.nodes)} {k : ℕ}
    {n : Node ρ} : n ∈ (b.withNode element hnew nodes hperm k).nodes ↔
      n = b.newNode element ∨ n ∈ b.nodes := by
  rw [← List.mem_cons]
  exact hperm.mem_iff

/-- The nodes of a table are told apart by their elements as well. -/
theorem node_ext {n n' : Node ρ} (hn : n ∈ b.nodes) (hn' : n' ∈ b.nodes)
    (h : n.element = n'.element ∨ n.id = n'.id) : n = n' := by
  rcases h with h | h
  · exact List.inj_on_of_nodup_map b.elements_nodup hn hn' h
  · exact List.inj_on_of_nodup_map b.ids_nodup hn hn' h

variable [DecidableEq ρ]

/-- `_receivers.insert(receiverPtr)`; `none` when the insertion does not fit the table. -/
def insert (b : Table ρ) (receiverPtr : Option ρ) (insertion : Insertion ρ) : Option (Table ρ) :=
  if h : receiverPtr ∈ b.elements then if insertion = .found then some b else none
  else match insertion with
    | .found => none
    | .linked i => some (b.withNode receiverPtr h _ (b.perm_linked receiverPtr i) b.rehashes)
    -- a rehash may put the nodes into any order
    | .rehashed nodes =>
      if hperm : nodes.Perm (b.newNode receiverPtr :: b.nodes) then
        some (b.withNode receiverPtr h nodes hperm (b.rehashes + 1))
      else none

/-- What `insert` does: nothing for an element that is there, and otherwise a new node, linked in
or with all nodes in a new order. -/
theorem insert_cases {receiverPtr : Option ρ} {insertion : Insertion ρ}
    (h : b.insert receiverPtr insertion = some b') :
    (receiverPtr ∈ b.elements ∧ insertion = .found ∧ b' = b) ∨
      (∃ i hnew, insertion = .linked i ∧
        b' = b.withNode receiverPtr hnew _ (b.perm_linked receiverPtr i) b.rehashes) ∨
      ∃ nodes hnew hperm, insertion = .rehashed nodes ∧
        b' = b.withNode receiverPtr hnew nodes hperm (b.rehashes + 1) := by
  rw [insert] at h
  split_ifs at h with hmem hfound
  · exact .inl ⟨hmem, hfound, (Option.some.inj h).symm⟩
  · cases insertion with
    | found => cases h
    | linked i => exact .inr (.inl ⟨i, hmem, rfl, (Option.some.inj h).symm⟩)
    | rehashed nodes =>
      dsimp only at h
      split_ifs at h with hperm
      exact .inr (.inr ⟨nodes, hmem, hperm, rfl, (Option.some.inj h).symm⟩)

/-- What a call does to the table. -/
def apply (b : Table ρ) : Change ρ → Option (Table ρ)
  | .add receiverPtr insertion => b.insert receiverPtr insertion
  -- `remove` returns at once when it is given a null pointer
  | .remove none => some b
  | .remove (some r) => some (b.filter fun n => n.element ≠ some r)
  | .clear => some (b.filter fun _ => false)

/-- **What every change leaves**: nodes are new or were there, and rehashes are counted. -/
theorem apply_frame {c : Change ρ} (h : b.apply c = some b') :
    b.made ≤ b'.made ∧ b.rehashes ≤ b'.rehashes ∧
      ∀ n ∈ b'.nodes, n ∈ b.nodes ∨ n.id = b.made := by
  cases c with
  | add receiverPtr insertion =>
    rcases insert_cases h with ⟨-, -, rfl⟩ | ⟨i, hnew, -, rfl⟩ | ⟨nodes, hnew, hperm, -, rfl⟩
    · exact ⟨le_rfl, le_rfl, fun n hn => .inl hn⟩
    · refine ⟨Nat.le_succ _, le_rfl, fun n hn => ?_⟩
      exact (mem_withNode_nodes.mp hn).symm.imp_right fun heq => by rw [heq]; rfl
    · refine ⟨Nat.le_succ _, Nat.le_succ _, fun n hn => ?_⟩
      exact (mem_withNode_nodes.mp hn).symm.imp_right fun heq => by rw [heq]; rfl
  | remove removeReceiverPtr =>
    cases removeReceiverPtr with
    | none =>
      obtain rfl := Option.some.inj h
      exact ⟨le_rfl, le_rfl, fun n hn => .inl hn⟩
    | some r =>
      obtain rfl := Option.some.inj h
      exact ⟨le_rfl, le_rfl, fun n hn => .inl (mem_filter_nodes.mp hn).1⟩
  | clear =>
    obtain rfl := Option.some.inj h
    exact ⟨le_rfl, le_rfl, fun n hn => .inl (mem_filter_nodes.mp hn).1⟩

end Table

/-! ## The set -/

section Set

variable {ρ : Type} [DecidableEq ρ]

/-- The set of the elements, without the nodes that hold them: the dispatcher of the other modules.
-/
def Table.toDispatcher (b : Table ρ) : Dispatcher ρ := ⟨b.elements.toFinset⟩

/-- What a change does to the set. -/
def Change.on (d : Dispatcher ρ) : Change ρ → Dispatcher ρ
  | .add receiverPtr _ => d.add receiverPtr
  | .remove removeReceiverPtr => d.remove removeReceiverPtr
  | .clear => d.clear

/-- The iteration has an order of the set. -/
theorem Table.enumerates (b : Table ρ) : b.toDispatcher.Enumerates b.elements :=
  ⟨b.elements_nodup, fun _ => List.mem_toFinset.symm⟩

/-- **The table is the set**: a change of it is what `add`, `remove` or `clear` makes of the set. -/
theorem Table.toDispatcher_apply {b b' : Table ρ} {c : Change ρ} (h : b.apply c = some b') :
    b'.toDispatcher = c.on b.toDispatcher := by
  rw [toDispatcher]
  congr 1
  ext a
  rw [List.mem_toFinset]
  cases c with
  | add receiverPtr insertion =>
    show _ ↔ a ∈ Insert.insert receiverPtr b.elements.toFinset
    rw [Finset.mem_insert, List.mem_toFinset]
    have hnew : ∀ {hnew nodes hperm k}, a ∈ (b.withNode receiverPtr hnew nodes hperm k).elements ↔
        a = receiverPtr ∨ a ∈ b.elements := by
      intro hnew nodes hperm k
      exact (hperm.map Node.element).mem_iff.trans List.mem_cons
    -- the element is there, or it is a new node, with or without a rehash
    rcases insert_cases h with ⟨hmem, rfl, rfl⟩ | ⟨i, _, -, rfl⟩ | ⟨nodes, _, hperm, -, rfl⟩
    · exact (or_iff_right_of_imp fun heq => heq ▸ hmem).symm
    · exact hnew
    · exact hnew
  | remove removeReceiverPtr =>
    cases removeReceiverPtr with
    | none =>
      obtain rfl := Option.some.inj h
      exact List.mem_toFinset.symm
    | some r =>
      obtain rfl := Option.some.inj h
      show _ ↔ a ∈ b.elements.toFinset.erase (some r)
      rw [elements_filter fun a => a ≠ some r, List.mem_filter, decide_eq_true_iff,
        Finset.mem_erase, List.mem_toFinset, and_comm]
  | clear =>
    obtain rfl := Option.some.inj h
    show a ∈ (b.nodes.filter _).map _ ↔ a ∈ (∅ : Finset (Option ρ))
    simp

end Set

/-! ## The loops -/

/-- The loop of a `dispatch` that waits for the receiver it called. -/
structure Loop (ρ : Type) where
  /-- The node the iterator points to. -/
  node : ℕ
  /-- The rehashes of the table when the iterator came there. -/
  rehashes : ℕ
  /-- `iter`, the receiver called. -/
  iter : ρ
  /-- The receivers called so far. -/
  called : List ρ
  /-- What was registered, from the beginning of the dispatch on. -/
  during : List (List (Option ρ))
  /-- The changes since `iter` was called. -/
  since : List (Change ρ) := []

/-- A `dispatch` that returned: whom it called, what was registered in the meantime and what it
answered. -/
structure Ended (ρ : Type) where
  /-- The receivers called. -/
  called : List ρ
  /-- What was registered, from its beginning to its end. -/
  during : List (List (Option ρ))
  /-- What it returned. -/
  blockFlag : Bool

/-- The dispatcher and what is under way on it: the loops that have begun, and those that have
ended. -/
structure Dispatching (ρ : Type) where
  /-- `_receivers`. -/
  table : Table ρ
  /-- The loops under way, the innermost first. -/
  loops : List (Loop ρ) := []
  /-- The dispatches that returned. -/
  ended : List (Ended ρ) := []
  /-- An iterator was advanced that must not be. -/
  undefined : Bool := false

/-- What a callback, or a client outside of any dispatch, does next. -/
inductive Doing (ρ : Type) where
  /-- A call that changes the registrations. -/
  | changes (change : Change ρ)
  /-- `dispatch(signalPtr, mods)`. -/
  | dispatches
  /-- The receiver called last returns. -/
  | returns (blocks : Bool)
  /-- The receiver called last throws. -/
  | throws

variable {ρ : Type}

/-- The iterator may be advanced: its node is in the table, which was not rehashed. -/
def Loop.Valid (b : Table ρ) (l : Loop ρ) : Prop :=
  l.node ∈ b.nodes.map Node.id ∧ l.rehashes = b.rehashes

/-- Whether the iterator of a loop is valid is looked up in the nodes of the table. -/
instance (b : Table ρ) (l : Loop ρ) : Decidable (l.Valid b) := inferInstanceAs (Decidable (_ ∧ _))

/-- The first node that holds no null pointer: the loop calls its receiver next. -/
def nextCall (nodes : List (Node ρ)) : Option (ℕ × ρ) :=
  nodes.findSome? fun n => n.element.map fun r => (n.id, r)

/-- A node that is called next, and the null pointers before it. -/
theorem nextCall_eq_some {nodes : List (Node ρ)} {id : ℕ} {iter : ρ}
    (h : nextCall nodes = some (id, iter)) : ∃ skipped after,
      nodes = skipped ++ ⟨id, some iter⟩ :: after ∧ ∀ n ∈ skipped, n.element = none := by
  obtain ⟨skipped, n, after, heq, hn, hskipped⟩ := List.findSome?_eq_some_iff.mp h
  obtain ⟨r, hr, hpair⟩ := Option.map_eq_some_iff.mp hn
  obtain ⟨rfl, rfl⟩ := Prod.mk.inj hpair
  refine ⟨skipped, after, ?_, fun n hn => Option.map_eq_none_iff.mp (hskipped n hn)⟩
  rw [heq, ← hr]

/-- Nothing but null pointers is left. -/
theorem nextCall_eq_none {nodes : List (Node ρ)} (h : nextCall nodes = none) :
    ∀ n ∈ nodes, n.element = none := by
  intro n hn
  exact Option.map_eq_none_iff.mp (List.findSome?_eq_none_iff.mp h n hn)

/-- The nodes after the node `id`. -/
def nodesAfter (id : ℕ) (nodes : List (Node ρ)) : List (Node ρ) :=
  (nodes.dropWhile fun n => n.id ≠ id).tail

/-- The nodes after a node of the table. -/
theorem nodesAfter_eq {b : Table ρ} {id : ℕ} {a : Option ρ} {before after : List (Node ρ)}
    (h : b.nodes = before ++ ⟨id, a⟩ :: after) : nodesAfter id b.nodes = after := by
  have hnodup := b.ids_nodup
  rw [h, List.map_append, List.map_cons] at hnodup
  have hbefore : ∀ n ∈ before, decide (n.id ≠ id) = true := by
    intro n hn
    refine decide_eq_true fun heq => ?_
    exact (List.nodup_append.mp hnodup).2.2 _ (List.mem_map_of_mem hn) id List.mem_cons_self heq
  rw [nodesAfter, h, List.dropWhile_append_of_pos hbefore, List.dropWhile_cons_of_neg (by simp)]
  rfl

/-- A loop sees a change of the registrations. -/
def Loop.see (change : Change ρ) (b : Table ρ) (l : Loop ρ) : Loop ρ :=
  { l with during := l.during ++ [b.elements], since := l.since ++ [change] }

namespace Dispatching

/-- `dispatch` begins, and calls the first receiver. -/
def begin (s : Dispatching ρ) : Dispatching ρ :=
  match nextCall s.table.nodes with
  | none => { s with ended := s.ended ++ [⟨[], [s.table.elements], false⟩] }
  | some (id, iter) =>
    { s with loops := ⟨id, s.table.rehashes, iter, [iter], [s.table.elements], []⟩ :: s.loops }

/-- The innermost `dispatch` returns to the callback, or the client, that called it. -/
def leave (s : Dispatching ρ) (l : Loop ρ) (rest : List (Loop ρ)) (blockFlag : Bool) :
    Dispatching ρ :=
  { s with loops := rest, ended := s.ended ++ [⟨l.called, l.during, blockFlag⟩] }

/-- The innermost loop advances its iterator, and calls the next receiver. -/
def advance (s : Dispatching ρ) (l : Loop ρ) (rest : List (Loop ρ)) : Dispatching ρ :=
  if l.Valid s.table then
    match nextCall (nodesAfter l.node s.table.nodes) with
    | none => s.leave l rest false
    | some (id, iter) =>
      { s with loops :=
        { l with
          node := id
          rehashes := s.table.rehashes
          iter := iter
          called := l.called ++ [iter]
          since := [] } :: rest }
  -- the increment of an iterator that is not valid any more
  else { s with undefined := true }

variable [DecidableEq ρ]

/-- **A step** of the callbacks and the loops; `none` when it cannot be made there. -/
def step (s : Dispatching ρ) (e : Doing ρ) : Option (Dispatching ρ) :=
  if s.undefined then none
  else match e, s.loops with
    | .changes change, loops => (s.table.apply change).map fun b =>
      { s with table := b, loops := loops.map (Loop.see change b) }
    | .dispatches, _ => some s.begin
    | .returns blocks, l :: rest =>
      some (if blocks then s.leave l rest true else s.advance l rest)
    -- the exception goes on to the caller of `dispatch`, which is the callback of the next loop
    | .throws, _ :: rest => some { s with loops := rest }
    | .returns _, [] | .throws, [] => none

/-- The state after a run of callbacks; none when some step is not possible. -/
def run : List (Doing ρ) → Dispatching ρ → Option (Dispatching ρ)
  | [], s => some s
  | e :: trace, s => (s.step e).bind (run trace)

end Dispatching

/-- The receivers registered all the time. -/
def throughout (during : List (List (Option ρ))) : Set (Option ρ) :=
  {a | a ≠ none ∧ ∀ elements ∈ during, a ∈ elements}

/-- What stays registered is no null pointer. -/
theorem notMem_of_throughout {nodes : List (Node ρ)} (h : ∀ n ∈ nodes, n.element = none)
    {during : List (List (Option ρ))} {a : Option ρ} (ha : a ∈ throughout during) :
    a ∉ nodes.map Node.element := by
  intro hmem
  obtain ⟨n, hn, heq⟩ := List.mem_map.mp hmem
  exact ha.1 (heq.symm.trans (h n hn))

/-! ## What disturbs a loop -/

variable [DecidableEq ρ]

/-- The change takes the node of receiver `r` away, or rehashes the table. -/
def Change.disturbs (r : ρ) : Change ρ → Bool
  | .add _ (.rehashed _) => true
  | .add _ _ => false
  | .remove removeReceiverPtr => removeReceiverPtr = some r
  | .clear => true

/-- Nothing disturbed the loop since it called `iter`: no change of the set since then touches its
element or the order of the others. -/
def Loop.Undisturbed (l : Loop ρ) : Prop := ∀ c ∈ l.since, c.disturbs l.iter = false

/-- Whether a loop has been disturbed is computed from the changes it has seen. -/
instance (l : Loop ρ) : Decidable l.Undisturbed :=
  inferInstanceAs (Decidable (∀ c ∈ l.since, c.disturbs l.iter = false))

/-- **A callback that does not block leaves its loop alone**: the one that returns false, if the
step is such a return, and whoever acted since it was called. -/
def Dispatching.ReturnsUndisturbed (s : Dispatching ρ) : Doing ρ → Prop
  | .returns false => ∀ l ∈ s.loops.head?, l.Undisturbed
  | _ => True

/-- What a callback does is judged by the innermost loop alone. -/
instance (s : Dispatching ρ) : (e : Doing ρ) → Decidable (s.ReturnsUndisturbed e)
  | .returns false => inferInstanceAs (Decidable (∀ l ∈ s.loops.head?, l.Undisturbed))
  | .returns true | .changes _ | .dispatches | .throws => isTrue trivial

/-- All callbacks of the run that do not block leave their loop alone. -/
def Dispatching.NeverDisturbed : List (Doing ρ) → Dispatching ρ → Prop
  | [], _ => True
  | e :: trace, s => s.ReturnsUndisturbed e ∧ ∀ s' ∈ s.step e, NeverDisturbed trace s'

/-- A trace of callbacks is judged step by step, in the state that each one meets. -/
instance Dispatching.decidableNeverDisturbed :
    (trace : List (Doing ρ)) → (s : Dispatching ρ) → Decidable (s.NeverDisturbed trace)
  | [], _ => isTrue trivial
  | e :: trace, s =>
    have := decidableNeverDisturbed trace
    inferInstanceAs (Decidable (s.ReturnsUndisturbed e ∧ ∀ s' ∈ s.step e, _))

/-- **Each receiver registered throughout an unblocked dispatch is called exactly once.** -/
def Ended.EachOnce (e : Ended ρ) : Prop :=
  e.blockFlag = false → ∀ r, some r ∈ throughout e.during → e.called.count r = 1

/-- **The dispatcher survives**: no iterator was advanced whose node had been erased, or whose table
had been rehashed, and the unblocked dispatches called who stayed registered exactly once. -/
def Dispatching.Survives (s : Dispatching ρ) : Prop :=
  s.undefined = false ∧ ∀ e ∈ s.ended, e.EachOnce

/-! ## One change -/

namespace Table

variable {b b' : Table ρ} {c : Change ρ} {r : ρ}

/-- **A change that does not disturb** a loop on receiver `r`: it leaves the node of `r`, and the
order of what stays. -/
theorem apply_of_not_disturbs (h : b.apply c = some b') (hc : c.disturbs r = false) :
    b'.rehashes = b.rehashes ∧ (∀ n ∈ b.nodes, n.element = some r → n ∈ b'.nodes) ∧
      ∀ x y, x ∈ b'.elements → y ∈ b'.elements → Before b.elements x y →
        Before b'.elements x y := by
  cases c with
  | add receiverPtr insertion =>
    rcases insert_cases h with ⟨-, -, rfl⟩ | ⟨i, hnew, -, rfl⟩ | ⟨nodes, hnew, hperm, rfl, -⟩
    · exact ⟨rfl, fun n hn _ => hn, fun x y _ _ hxy => hxy⟩
    · refine ⟨rfl, fun n hn _ => mem_withNode_nodes.mpr (.inr hn), fun x y _ _ hxy => ?_⟩
      -- the nodes from before keep their order around the new one
      refine hxy.mono (List.Sublist.map _ ?_)
      have hlinked := (List.sublist_cons_self (b.newNode receiverPtr) (b.nodes.drop i)).append_left
        (b.nodes.take i)
      rwa [List.take_append_drop] at hlinked
    · -- a rehash disturbs every loop
      cases hc
  | remove removeReceiverPtr =>
    cases removeReceiverPtr with
    | none =>
      obtain rfl := Option.some.inj h
      exact ⟨rfl, fun n hn _ => hn, fun x y _ _ hxy => hxy⟩
    | some r' =>
      obtain rfl := Option.some.inj h
      have hne : r' ≠ r := fun heq => of_decide_eq_false hc (congrArg some heq)
      refine ⟨rfl, fun n hn hr => mem_filter_nodes.mpr ⟨hn, ?_⟩, fun x y hx hy hxy => ?_⟩
      · rw [hr]
        exact decide_eq_true fun heq => hne (Option.some.inj heq).symm
      · -- what is left was not the receiver removed
        rw [elements_filter fun a => a ≠ some r'] at hx hy ⊢
        exact hxy.filter (List.mem_filter.mp hx).2 (List.mem_filter.mp hy).2
  | clear => cases hc

/-- **A change that disturbs** a loop on receiver `r`: its node is gone or the table rehashed. -/
theorem apply_of_disturbs (h : b.apply c = some b') (hc : c.disturbs r = true) {id : ℕ}
    (hn : ⟨id, some r⟩ ∈ b.nodes) :
    id ∉ b'.nodes.map Node.id ∨ b.rehashes < b'.rehashes := by
  cases c with
  | add receiverPtr insertion =>
    rcases insert_cases h with ⟨-, rfl, -⟩ | ⟨i, hnew, rfl, -⟩ | ⟨nodes, hnew, hperm, -, rfl⟩
    · cases hc
    · cases hc
    · exact .inr (Nat.lt_succ_self _)
  | remove removeReceiverPtr =>
    obtain rfl := of_decide_eq_true hc
    obtain rfl := Option.some.inj h
    left
    intro hmem
    obtain ⟨n, hn', hid⟩ := List.mem_map.mp hmem
    obtain ⟨hn', hother⟩ := mem_filter_nodes.mp hn'
    -- who has the id is the node removed
    obtain rfl := node_ext hn' hn (.inr hid)
    exact of_decide_eq_true hother rfl
  | clear =>
    obtain rfl := Option.some.inj h
    left
    intro hmem
    obtain ⟨n, hn', -⟩ := List.mem_map.mp hmem
    cases (mem_filter_nodes.mp hn').2

end Table

/-! ## The invariant of a loop -/

/-- The iterator of a loop points to the node of the receiver it called, and the loop has walked
the receivers that stay. -/
structure Loop.Steady (b : Table ρ) (l : Loop ρ) : Prop where
  /-- No rehash. -/
  rehashes_eq : l.rehashes = b.rehashes
  /-- The node. -/
  mem_nodes : ⟨l.node, some l.iter⟩ ∈ b.nodes
  /-- Those up to the node were called once, those after it were not. -/
  walked : Walked (throughout l.during) b.elements (some l.iter) (l.called.map some)

/-- What holds of a loop under way, whatever its callbacks have done so far. -/
structure Loop.Inv (b : Table ρ) (l : Loop ρ) : Prop where
  /-- The node was made. -/
  node_lt : l.node < b.made
  /-- Rehashes are counted. -/
  rehashes_le : l.rehashes ≤ b.rehashes
  /-- What is registered now is in `during`. -/
  now : b.elements ∈ l.during
  /-- An undisturbed loop is steady. -/
  steady : l.Undisturbed → l.Steady b
  /-- A disturbed loop has lost its iterator. -/
  lost : ¬ l.Undisturbed → ¬ l.Valid b

namespace Loop

variable {b b' : Table ρ} {l : Loop ρ} {c : Change ρ}

/-- **The iterator may be advanced iff the loop is undisturbed.** -/
theorem Inv.valid_iff (hinv : l.Inv b) : l.Valid b ↔ l.Undisturbed := by
  constructor
  · intro hvalid
    by_contra hdis
    exact hinv.lost hdis hvalid
  · intro hun
    exact ⟨List.mem_map_of_mem (hinv.steady hun).mem_nodes, (hinv.steady hun).rehashes_eq⟩

/-- A loop that sees one more change stays undisturbed iff it was so and this change spares its
iterator. -/
theorem undisturbed_see :
    (l.see c b').Undisturbed ↔ l.Undisturbed ∧ c.disturbs l.iter = false := by
  rw [Undisturbed, see, List.forall_mem_append, List.forall_mem_singleton]
  rfl

/-- **A change** keeps the invariant of a loop. -/
theorem Inv.see (hinv : l.Inv b) (h : b.apply c = some b') : (l.see c b').Inv b' := by
  obtain ⟨hmade, hrehashes, hnodes⟩ := Table.apply_frame h
  have hnow : b'.elements ∈ (l.see c b').during :=
    List.mem_append_right _ (List.mem_singleton_self _)
  refine ⟨hinv.node_lt.trans_le hmade, hinv.rehashes_le.trans hrehashes, hnow, ?_, ?_⟩
  · intro hun
    obtain ⟨hun, hc⟩ := undisturbed_see.mp hun
    obtain ⟨heq, hkeep, horder⟩ := Table.apply_of_not_disturbs h hc
    have hsteady := hinv.steady hun
    -- the node is still there, and who stayed stands before or after it as they did
    have hhere := hkeep _ hsteady.mem_nodes rfl
    refine ⟨hsteady.rehashes_eq.trans heq.symm, hhere, ?_⟩
    refine hsteady.walked.change (fun a ha => ⟨⟨ha.1, fun elements hel => ?_⟩, ?_⟩)
      (List.mem_map_of_mem hhere) horder
    · exact ha.2 elements (List.mem_append_left _ hel)
    · exact ha.2 _ hnow
  · intro hdis hvalid
    rw [undisturbed_see] at hdis
    by_cases hun : l.Undisturbed
    · -- the change disturbs it
      have hc : c.disturbs l.iter = true := by
        rw [← Bool.not_eq_false]
        exact fun hc => hdis ⟨hun, hc⟩
      rcases Table.apply_of_disturbs h hc (hinv.steady hun).mem_nodes with hgone | hlt
      · exact hgone hvalid.1
      · exact absurd hvalid.2 (hinv.rehashes_le.trans_lt hlt).ne
    · -- the iterator was lost before: no node comes back
      refine hinv.lost hun ⟨?_, ?_⟩
      · obtain ⟨n, hn, hid⟩ := List.mem_map.mp hvalid.1
        rcases hnodes n hn with hold | hnew
        · exact List.mem_map.mpr ⟨n, hold, hid⟩
        · exact absurd (hnew.symm.trans hid) hinv.node_lt.ne'
      · exact le_antisymm hinv.rehashes_le (hvalid.2 ▸ hrehashes)

/-- **The first call** of a dispatch. -/
theorem inv_start {id : ℕ} {iter : ρ} (h : nextCall b.nodes = some (id, iter)) :
    Inv b ⟨id, b.rehashes, iter, [iter], [b.elements], []⟩ := by
  obtain ⟨skipped, after, hnodes, hskipped⟩ := nextCall_eq_some h
  have hmem : (⟨id, some iter⟩ : Node ρ) ∈ b.nodes := by
    rw [hnodes]
    exact List.mem_append_right _ List.mem_cons_self
  have hun : (⟨id, b.rehashes, iter, [iter], [b.elements], []⟩ : Loop ρ).Undisturbed :=
    fun c hc => absurd hc List.not_mem_nil
  refine ⟨b.id_lt _ hmem, le_rfl, List.mem_singleton_self _, fun _ => ⟨rfl, hmem, ?_⟩,
    fun hdis => absurd hun hdis⟩
  have helements : b.elements =
      skipped.map Node.element ++ some iter :: after.map Node.element := by
    rw [Table.elements, hnodes, List.map_append, List.map_cons]
  refine walked_start helements b.elements_nodup fun a ha => ⟨?_, ?_⟩
  · exact ha.2 _ (List.mem_singleton_self _)
  · exact notMem_of_throughout hskipped ha

/-- **The next call** of an undisturbed loop. -/
theorem Steady.advance (h : l.Steady b) (hnow : b.elements ∈ l.during) {id : ℕ} {iter : ρ}
    (hnext : nextCall (nodesAfter l.node b.nodes) = some (id, iter)) :
    Inv b { l with
      node := id
      rehashes := b.rehashes
      iter := iter
      called := l.called ++ [iter]
      since := [] } := by
  obtain ⟨before, rest, hsplit⟩ := List.append_of_mem h.mem_nodes
  rw [nodesAfter_eq hsplit] at hnext
  obtain ⟨skipped, after, hrest, hskipped⟩ := nextCall_eq_some hnext
  rw [hrest] at hsplit
  have hmem : (⟨id, some iter⟩ : Node ρ) ∈ b.nodes := by
    rw [hsplit]
    simp
  refine ⟨b.id_lt _ hmem, le_rfl, hnow, fun _ => ⟨rfl, hmem, ?_⟩,
    fun hdis => absurd (fun c hc => absurd hc List.not_mem_nil) hdis⟩
  have helements : b.elements = before.map Node.element ++ some l.iter ::
      (skipped.map Node.element ++ some iter :: after.map Node.element) := by
    rw [Table.elements, hsplit]
    simp
  rw [List.map_append]
  exact h.walked.advance helements b.elements_nodup fun a ha => notMem_of_throughout hskipped ha

/-- **The end** of an undisturbed loop. -/
theorem Steady.eachOnce (h : l.Steady b)
    (hnext : nextCall (nodesAfter l.node b.nodes) = none) :
    Ended.EachOnce ⟨l.called, l.during, false⟩ := by
  obtain ⟨before, rest, hsplit⟩ := List.append_of_mem h.mem_nodes
  rw [nodesAfter_eq hsplit] at hnext
  have helements : b.elements =
      before.map Node.element ++ some l.iter :: rest.map Node.element := by
    rw [Table.elements, hsplit, List.map_append, List.map_cons]
  intro _ r hr
  have hcount := h.walked.count_eq_one helements b.elements_nodup
    (fun a ha => notMem_of_throughout (nextCall_eq_none hnext) ha) hr
  exact (List.count_map_of_injective l.called some (Option.some_injective ρ) r).symm.trans hcount

end Loop

/-! ## Runs -/

namespace Dispatching

variable {s s' : Dispatching ρ} {e : Doing ρ}

/-- The invariant of a run, of the loops under way and of the dispatches that have returned. -/
structure Inv (s : Dispatching ρ) : Prop where
  /-- Of the loops under way. -/
  loops : ∀ l ∈ s.loops, l.Inv s.table
  /-- Of the dispatches that returned. -/
  ended : ∀ e ∈ s.ended, e.EachOnce

/-- Before the first call of `dispatch`. -/
theorem inv_of_table (b : Table ρ) : Inv ⟨b, [], [], false⟩ :=
  ⟨fun _ hl => absurd hl List.not_mem_nil, fun _ he => absurd he List.not_mem_nil⟩

/-- A dispatch that returns and has called each receiver once keeps this of all that have
returned. -/
theorem ended_concat (h : ∀ e ∈ s.ended, e.EachOnce) {e : Ended ρ} (he : e.EachOnce) :
    ∀ e' ∈ s.ended ++ [e], e'.EachOnce :=
  List.forall_mem_append.mpr ⟨h, List.forall_mem_singleton.mpr he⟩

/-- The first call of a dispatch keeps the invariant, as its iterator starts at the first node. -/
theorem Inv.begin (hinv : s.Inv) : s.begin.Inv := by
  rw [Dispatching.begin]
  cases hnext : nextCall s.table.nodes with
  | none =>
    refine ⟨hinv.loops, ended_concat hinv.ended fun _ r hr => ?_⟩
    -- a receiver that is registered would have been called
    exact absurd (hr.2 _ (List.mem_singleton_self _))
      (notMem_of_throughout (nextCall_eq_none hnext) hr)
  | some p => exact ⟨List.forall_mem_cons.mpr ⟨Loop.inv_start hnext, hinv.loops⟩, hinv.ended⟩

/-- The next call keeps the invariant, and is defined iff the callback before it has left the
iterator valid. -/
theorem Inv.advance (hinv : s.Inv) {l : Loop ρ} {rest : List (Loop ρ)}
    (hloops : s.loops = l :: rest) :
    (s.advance l rest).Inv ∧
      ((s.advance l rest).undefined = false ↔ l.Undisturbed ∧ s.undefined = false) := by
  obtain ⟨hl, hrest⟩ := List.forall_mem_cons.mp (hloops ▸ hinv.loops)
  rw [Dispatching.advance, ← hl.valid_iff]
  split_ifs with hvalid
  · rw [and_iff_right hvalid]
    have hsteady := hl.steady (hl.valid_iff.mp hvalid)
    cases hnext : nextCall (nodesAfter l.node s.table.nodes) with
    | none => exact ⟨⟨hrest, ended_concat hinv.ended (hsteady.eachOnce hnext)⟩, Iff.rfl⟩
    | some p =>
      refine ⟨⟨List.forall_mem_cons.mpr ⟨?_, hrest⟩, hinv.ended⟩, Iff.rfl⟩
      exact hsteady.advance hl.now hnext
  · refine ⟨⟨hinv.loops, hinv.ended⟩, iff_of_false (fun h => ?_) fun h => hvalid h.1⟩
    cases h

/-- **A step** keeps the invariant, and nothing undefined happens iff a callback that does not
block left its loop alone. -/
theorem Inv.step (hinv : s.Inv) (h : s.step e = some s') :
    s'.Inv ∧ (s'.undefined = false ↔ s.ReturnsUndisturbed e) := by
  unfold Dispatching.step at h
  split_ifs at h with hundefined
  rw [Bool.not_eq_true] at hundefined
  cases e with
  | changes change =>
    obtain ⟨b, happly, rfl⟩ := Option.map_eq_some_iff.mp h
    refine ⟨⟨fun l hl => ?_, hinv.ended⟩, iff_of_true hundefined trivial⟩
    obtain ⟨l, hmem, rfl⟩ := List.mem_map.mp hl
    exact (hinv.loops l hmem).see happly
  | dispatches =>
    obtain rfl := Option.some.inj h
    refine ⟨hinv.begin, iff_of_true ?_ trivial⟩
    rw [Dispatching.begin]
    cases nextCall s.table.nodes <;> exact hundefined
  | returns blocks =>
    cases hloops : s.loops with
    | nil =>
      rw [hloops] at h
      cases h
    | cons l rest =>
      rw [hloops] at h
      obtain rfl := Option.some.inj h
      cases blocks with
      | true =>
        obtain ⟨-, hrest⟩ := List.forall_mem_cons.mp (hloops ▸ hinv.loops)
        exact ⟨⟨hrest, ended_concat hinv.ended fun hunblocked => by cases hunblocked⟩,
          iff_of_true hundefined trivial⟩
      | false =>
        -- the only step that advances an iterator
        obtain ⟨hinv', hiff⟩ := hinv.advance hloops
        refine ⟨hinv', hiff.trans ?_⟩
        rw [and_iff_left hundefined, ReturnsUndisturbed, hloops, List.head?_cons]
        simp
  | throws =>
    cases hloops : s.loops with
    | nil =>
      rw [hloops] at h
      cases h
    | cons l rest =>
      rw [hloops] at h
      obtain rfl := Option.some.inj h
      obtain ⟨-, hrest⟩ := List.forall_mem_cons.mp (hloops ▸ hinv.loops)
      exact ⟨⟨hrest, hinv.ended⟩, iff_of_true hundefined trivial⟩

/-- Nothing is said to happen after something undefined. -/
theorem run_of_undefined (h : s.undefined = true) {trace : List (Doing ρ)}
    (hrun : run trace s = some s') : s' = s := by
  cases trace with
  | nil => exact (Option.some.inj hrun).symm
  | cons e trace =>
    have hstep : s.step e = none := by
      unfold Dispatching.step
      rw [if_pos h]
    rw [run, hstep] at hrun
    cases hrun

/-- **A run** from a state of which the invariant holds. -/
theorem Inv.run (hinv : s.Inv) (hdefined : s.undefined = false) {trace : List (Doing ρ)}
    (hrun : run trace s = some s') :
    s'.Inv ∧ (s'.undefined = false ↔ s.NeverDisturbed trace) := by
  induction trace generalizing s with
  | nil =>
    obtain rfl := Option.some.inj hrun
    exact ⟨hinv, iff_of_true hdefined trivial⟩
  | cons e trace ih =>
    obtain ⟨s₁, hstep, hrest⟩ := Option.bind_eq_some_iff.mp hrun
    obtain ⟨hinv₁, hiff⟩ := hinv.step hstep
    rw [NeverDisturbed, ← hiff]
    cases hundefined : s₁.undefined with
    | false =>
      -- all went well so far, and the rest of the run decides
      obtain ⟨hinv', hiff'⟩ := ih hinv₁ hundefined hrest
      refine ⟨hinv', hiff'.trans ⟨fun hnever => ⟨rfl, fun s₂ hs₂ => ?_⟩, fun h => h.2 s₁ hstep⟩⟩
      obtain rfl := Option.some.inj (hstep.symm.trans hs₂)
      exact hnever
    | true =>
      obtain rfl := run_of_undefined hundefined hrest
      refine ⟨hinv₁, iff_of_false ?_ fun h => ?_⟩
      · rw [hundefined]
        exact Bool.noConfusion
      · cases h.1

/-! ## Callbacks that change nothing -/

section Quiet

variable {σ : Type} (receive : σ → ρ → σ × Bool)

/-- What the receivers return, in the order of the calls. -/
def answers (x : σ) : List (Option ρ) → List Bool
  | [] => []
  | none :: rest => answers x rest
  | some iter :: rest =>
    let (x', blockFlag) := receive x iter
    blockFlag :: if blockFlag then [] else answers x' rest

variable {receive}

omit [DecidableEq ρ] in
/-- Null pointers are passed over: they change neither the answers nor the calls of a dispatch. -/
theorem skip_null {skipped : List (Option ρ)} (h : ∀ a ∈ skipped, a = none) (x : σ)
    (order : List (Option ρ)) :
    answers receive x (skipped ++ order) = answers receive x order ∧
      calls receive x (skipped ++ order) = calls receive x order ∧
      dispatch receive x (skipped ++ order) = dispatch receive x order := by
  induction skipped with
  | nil => exact ⟨rfl, rfl, rfl⟩
  | cons a skipped ih =>
    obtain ⟨rfl, hskipped⟩ := List.forall_mem_cons.mp h
    exact ih hskipped

/-- The rest of a dispatch, from the call of `iter` on. -/
theorem run_answers {b : Table ρ} (x : σ) {id : ℕ} {iter : ρ} {before after : List (Node ρ)}
    (hnodes : b.nodes = before ++ ⟨id, some iter⟩ :: after) (called : List ρ)
    (during : List (List (Option ρ))) :
    run ((answers receive x (some iter :: after.map Node.element)).map .returns)
        ⟨b, [⟨id, b.rehashes, iter, called ++ [iter], during, []⟩], [], false⟩ =
      some ⟨b, [], [⟨called ++ calls receive x (some iter :: after.map Node.element), during,
        (dispatch receive x (some iter :: after.map Node.element)).2⟩], false⟩ := by
  induction hlength : after.length using Nat.strong_induction_on
    generalizing x id iter before after called with
  | h k ih =>
    rw [answers, calls, dispatch]
    dsimp only
    cases hblocks : (receive x iter).2 with
    -- the receiver blocks, and the loop ends with this call
    | true => rfl
    | false =>
      -- it does not block, so its node is still there and the loop goes on from it
      have hvalid : (⟨id, b.rehashes, iter, called ++ [iter], during, []⟩ : Loop ρ).Valid b := by
        refine ⟨?_, rfl⟩
        rw [hnodes]
        simp
      rw [if_neg Bool.false_ne_true, if_neg Bool.false_ne_true, if_neg Bool.false_ne_true,
        List.map_cons, run]
      unfold Dispatching.step
      rw [if_neg Bool.false_ne_true]
      dsimp only
      rw [if_neg Bool.false_ne_true, Option.bind_some, advance, if_pos hvalid,
        nodesAfter_eq hnodes]
      cases hnext : nextCall after with
      -- only null elements are left
      | none =>
        have hnull : ∀ a ∈ after.map Node.element, a = none :=
          List.forall_mem_map.mpr (nextCall_eq_none hnext)
        obtain ⟨hanswers, hcalls, hdispatch⟩ := skip_null hnull (receive x iter).1 []
        rw [List.append_nil] at hanswers hcalls hdispatch
        rw [hanswers, hcalls, hdispatch]
        rfl
      | some p =>
        obtain ⟨id', iter'⟩ := p
        obtain ⟨skipped, after', rfl, hskipped⟩ := nextCall_eq_some hnext
        have hnull : ∀ a ∈ skipped.map Node.element, a = none := List.forall_mem_map.mpr hskipped
        obtain ⟨hanswers, hcalls, hdispatch⟩ := skip_null hnull (receive x iter).1
          (some iter' :: after'.map Node.element)
        rw [List.map_append, List.map_cons, hanswers, hcalls, hdispatch]
        have hnodes' : b.nodes = (before ++ ⟨id, some iter⟩ :: skipped) ++
            ⟨id', some iter'⟩ :: after' := by
          rw [hnodes, List.append_assoc, List.cons_append]
        -- from the next receiver on there are fewer nodes
        have hshorter : after'.length < k := by
          rw [← hlength]
          simp
          omega
        rw [List.append_cons called iter (calls receive (receive x iter).1 _)]
        exact ih after'.length hshorter (receive x iter).1 hnodes' (called ++ [iter]) rfl

/-- **A dispatch during which nothing changes** calls and returns what `dispatch` in the order of
the table does. -/
theorem run_dispatch (b : Table ρ) (x : σ) :
    run (.dispatches :: (answers receive x b.elements).map .returns) ⟨b, [], [], false⟩ =
      some ⟨b, [], [⟨calls receive x b.elements, [b.elements],
        (dispatch receive x b.elements).2⟩], false⟩ := by
  rw [run]
  unfold Dispatching.step
  rw [if_neg Bool.false_ne_true]
  dsimp only
  rw [Option.bind_some, Dispatching.begin]
  dsimp only
  cases hnext : nextCall b.nodes with
  -- no receiver at all: the dispatch returns without a call
  | none =>
    have hnull : ∀ a ∈ b.elements, a = none := List.forall_mem_map.mpr (nextCall_eq_none hnext)
    obtain ⟨hanswers, hcalls, hdispatch⟩ := skip_null hnull x []
    rw [List.append_nil] at hanswers hcalls hdispatch
    rw [hanswers, hcalls, hdispatch]
    rfl
  | some p =>
    obtain ⟨id, iter⟩ := p
    obtain ⟨skipped, after, hnodes, hskipped⟩ := nextCall_eq_some hnext
    have hnull : ∀ a ∈ skipped.map Node.element, a = none := List.forall_mem_map.mpr hskipped
    have helements : b.elements =
        skipped.map Node.element ++ some iter :: after.map Node.element := by
      rw [Table.elements, hnodes, List.map_append, List.map_cons]
    obtain ⟨hanswers, hcalls, hdispatch⟩ := skip_null hnull x
      (some iter :: after.map Node.element)
    rw [← helements] at hanswers hcalls hdispatch
    rw [hanswers, hcalls, hdispatch]
    exact run_answers x hnodes [] _

end Quiet

/-- **The dispatcher survives a run iff no loop is disturbed in it**: iff every callback that does
not block has, with whatever it called, left the node of its receiver and the table alone. -/
theorem survives_iff (b : Table ρ) (trace : List (Doing ρ))
    (hrun : run trace ⟨b, [], [], false⟩ = some s) :
    s.Survives ↔ Dispatching.NeverDisturbed trace ⟨b, [], [], false⟩ := by
  obtain ⟨hinv, hiff⟩ := (inv_of_table b).run rfl hrun
  rw [← hiff, Survives, and_iff_left hinv.ended]

/-- Triggers 5 and 6 are registered. -/
def twoTriggers : Table Receiver where
  nodes := [⟨0, some (.trigger 5)⟩, ⟨1, some (.trigger 6)⟩]
  made := 2
  rehashes := 0
  elements_nodup := by decide
  ids_nodup := by decide
  id_lt := by decide

/-- Trigger 5 registers macro 0 and removes trigger 6. Macro 0 dispatches a signal of its own, which
trigger 5 blocks. -/
def busyCallbacks : List (Doing Receiver) :=
  [.dispatches, .changes (.add (some (.ofMacro 0)) (.linked 2)),
    .changes (.remove (some (.trigger 6))), .returns false, .dispatches, .returns true,
    .returns false]

/-- With these callbacks the dispatcher survives. -/
theorem survives_iff_busyCallbacks : ∃ s : Dispatching Receiver,
    run busyCallbacks ⟨twoTriggers, [], [], false⟩ = some s ∧ s.Survives := by
  obtain ⟨s, hrun⟩ := Option.isSome_iff_exists.mp
    (show (run busyCallbacks ⟨twoTriggers, [], [], false⟩).isSome = true by decide)
  exact ⟨s, hrun, (survives_iff twoTriggers busyCallbacks hrun).mpr (by decide)⟩

/-- Macro 0, which is enabled, has activator 7 and trigger 5. -/
def activatedMacro : Macro where
  interruptor := .continue
  context := some 0
  activators := [7]
  triggers := [5]

/-- Trigger 5 is registered with the dispatcher of signal 7. -/
def activated : Memory :=
  { Memory.ofMacro activatedMacro with dispatchers := fun _ => ⟨{some (.trigger 5)}⟩ }

/-- **A callback that disables its macro breaks the loop**: disabling macro 0 removes trigger 5
from the dispatcher that is calling it, while the iterator points to its node. -/
theorem not_survives_disable :
    (∃ mem, (MacroCall.config (.setInterruptor .disable)).run activated 0 = some mem ∧
        (activated.dispatchers 1).Has (.trigger 5) ∧ ¬ (mem.dispatchers 1).Has (.trigger 5)) ∧
      ¬ ∀ (b : Table Receiver) trace (s : Dispatching Receiver),
        run trace ⟨b, [], [], false⟩ = some s → s.Survives := by
  constructor
  · have hrun : ((MacroCall.config (.setInterruptor .disable)).run activated 0).map
        (fun mem => decide ((mem.dispatchers 1).Has (.trigger 5))) = some false := by decide
    obtain ⟨mem, hmem, hgone⟩ := Option.map_eq_some_iff.mp hrun
    exact ⟨mem, hmem, by decide, of_decide_eq_false hgone⟩
  · intro hall
    have hrun : (run [.dispatches, .changes (.remove (some (.trigger 5))), .returns false]
        ⟨twoTriggers, [], [], false⟩).map Dispatching.undefined = some true := by decide
    obtain ⟨s, hs, hundefined⟩ := Option.map_eq_some_iff.mp hrun
    have hdefined := (hall _ _ s hs).1
    rw [hundefined] at hdefined
    cases hdefined

end Dispatching

end Dispatcher

end Libmacro
