import Libmacro.Containers.Lifetimes
import Libmacro.Memory
import Mathlib.Data.Finset.Erase
import Mathlib.Data.Finset.Insert

/-! # The current instance

A context enters `_registryStack` and `_registrySet` in its constructor and leaves both in its
destructor, in one block under `_registryMutex` each. `instance()` is the last entry of the stack
and `hasInstance` looks into the set. Contexts may be destroyed in any order, and the address of a
destroyed one may be used again: the stack and the set hold the living contexts, and the last entry
of the stack is the newest of them (`instance_is_newest`). -/

namespace Libmacro

open Containers

/-- `_registryStack` and `_registrySet`, the static variables that every context shares. -/
structure Instances where
  /-- `_registryStack`. -/
  registryStack : List ContextId := []
  /-- `_registrySet`. -/
  registrySet : Finset ContextId := ∅

namespace Instances

/-- The registration in `LibmacroImpl()`: the context goes on top of the stack and into the set. -/
def create (instances : Instances) (this : ContextId) : Instances :=
  ⟨instances.registryStack ++ [this], insert this instances.registrySet⟩

/-- The block of `~LibmacroImpl()`: its loop erases the first entry of the stack that is `this`. -/
def destroy (instances : Instances) (this : ContextId) : Instances :=
  ⟨instances.registryStack.erase this, instances.registrySet.erase this⟩

/-- `Libmacro::instance()`: the top of the stack, or an error when there is none. -/
def instancePtr (instances : Instances) : Except Error ContextId :=
  match instances.registryStack.getLast? with
  | none => .error ⟨.efault, "No Libmacro instance exists"⟩
  | some ctx => .ok ctx

/-- `Libmacro::hasInstance(contextContainerPtr)` looks the pointer up in the set; a null pointer is
never in it. -/
def hasInstance (instances : Instances) : Option ContextId → Bool
  | none => false
  | some ctx => ctx ∈ instances.registrySet

/-- The registration of a creation, or its withdrawal by a destruction. -/
def apply (instances : Instances) : Lifetime ContextId → Instances
  | .create this => instances.create this
  | .destroy this => instances.destroy this

/-- The two containers after a history of creations and destructions, which begins with none. -/
def after (history : List (Lifetime ContextId)) : Instances := history.foldl apply {}

/-- **The stack and the set hold the same contexts**, each once. -/
structure Consistent (instances : Instances) : Prop where
  /-- Each once. -/
  nodup : instances.registryStack.Nodup
  /-- The same. -/
  mem_iff : ∀ ctx, ctx ∈ instances.registryStack ↔ ctx ∈ instances.registrySet

section After

variable {history : List (Lifetime ContextId)} {ctx : ContextId}

/-- The variables after one more constructor or destructor. -/
theorem after_concat (history : List (Lifetime ContextId)) (e : Lifetime ContextId) :
    after (history ++ [e]) = (after history).apply e := by
  rw [after, List.foldl_append, List.foldl_cons, List.foldl_nil, after]

/-- The stack is the list of the living contexts, the oldest first. -/
theorem registryStack_after (history : List (Lifetime ContextId)) :
    (after history).registryStack = Lifetime.livingAfter history := by
  induction history using List.reverseRecOn with
  | nil => rfl
  | append_singleton history e ih =>
    rw [after_concat, Lifetime.livingAfter_concat, ← ih]
    cases e with
    | create this => rfl
    | destroy this => rfl

/-- The set holds what lives, whatever the history. -/
theorem mem_registrySet_after : ctx ∈ (after history).registrySet ↔ Lifetime.Live history ctx := by
  induction history using List.reverseRecOn with
  | nil => exact iff_of_false (Finset.notMem_empty ctx) Lifetime.not_live_nil
  | append_singleton history e ih =>
    rw [after_concat]
    cases e with
    | create this =>
      rw [apply, create, Finset.mem_insert, Lifetime.live_concat_create, ih]
    | destroy this =>
      rw [apply, destroy, Finset.mem_erase, Lifetime.live_concat_destroy, ih]

/-- The variables agree with the history as long as no context is created twice or destroyed when
it does not live. -/
theorem consistent_after (h : Lifetime.Admissible history) : (after history).Consistent := by
  refine ⟨?_, fun ctx => ?_⟩
  · rw [registryStack_after]
    exact Lifetime.nodup_livingAfter h
  · rw [registryStack_after, Lifetime.mem_livingAfter_iff h, mem_registrySet_after]

/-- What `instance()` returns is the last entry. -/
theorem instancePtr_eq_ok_iff {instances : Instances} :
    instances.instancePtr = .ok ctx ↔ instances.registryStack.getLast? = some ctx := by
  rw [instancePtr]
  cases instances.registryStack.getLast? with
  | none => simp
  | some ctx' => simp

/-- `instance()` throws when the stack is empty. -/
theorem instancePtr_eq_error_iff {instances : Instances} {error : Error} :
    instances.instancePtr = .error error ↔
      instances.registryStack = [] ∧ error = ⟨.efault, "No Libmacro instance exists"⟩ := by
  rw [instancePtr, ← List.getLast?_eq_none_iff]
  cases instances.registryStack.getLast? with
  | none => simp [eq_comm]
  | some ctx' => simp

/-- **The current instance is the newest living context**, for every sequence of creations and
destructions: `instance()` returns it and throws `EFAULT` iff none lives, `hasInstance` finds the
living contexts, and the stack and the set hold the same contexts, each once. -/
theorem instance_is_newest (history : List (Lifetime ContextId))
    (h : Lifetime.Admissible history) :
    (∀ ctx, (after history).instancePtr = .ok ctx ↔ Lifetime.Newest history ctx) ∧
    (∀ error, (after history).instancePtr = .error error ↔
      (∀ ctx, ¬ Lifetime.Live history ctx) ∧
        error = ⟨.efault, "No Libmacro instance exists"⟩) ∧
    (∀ ptr, (after history).hasInstance ptr = true ↔
      ∃ ctx, ptr = some ctx ∧ Lifetime.Live history ctx) ∧
    (after history).Consistent := by
  refine ⟨fun ctx => ?_, fun error => ?_, fun ptr => ?_, consistent_after h⟩
  · rw [instancePtr_eq_ok_iff, registryStack_after, Lifetime.getLast?_livingAfter_iff h]
  · rw [instancePtr_eq_error_iff, registryStack_after, List.eq_nil_iff_forall_not_mem]
    simp only [Lifetime.mem_livingAfter_iff h]
  · cases ptr with
    | none => simp [hasInstance]
    | some ctx => simp [hasInstance, mem_registrySet_after]

/-- Three contexts, destroyed out of order; the third gets the address of the first. -/
theorem instance_is_newest_reused :
    (after [.create 0, .create 1, .destroy 0, .create 0, .destroy 1]).instancePtr = .ok 0 ∧
      (after [.create 0, .create 1, .destroy 0, .create 0, .destroy 1]).Consistent := by
  obtain ⟨hnewest, -, -, hconsistent⟩ := instance_is_newest
    [.create 0, .create 1, .destroy 0, .create 0, .destroy 1] (by decide)
  refine ⟨(hnewest 0).mpr ⟨[.create 0, .create 1, .destroy 0], [.destroy 1], rfl, ?_, ?_⟩,
    hconsistent⟩
  · decide
  · intro ctx hlive
    rw [← List.nil_append [Lifetime.destroy 1], Lifetime.live_concat_destroy] at hlive
    exact Lifetime.not_live_nil hlive.2

end After

end Instances

end Libmacro
