import Libmacro.Containers.History
import Libmacro.Memory
import Libmacro.Names

/-! # The signal and trigger registries

`SignalRegistry` and `TriggerRegistry` map names to allocators. `allocate` finds the allocator by
the name it is given, `deallocate` by the object's own `name()`. Both registries are one
definition with the texts and types of the kind as parameters.

An object is released by the allocator that made it exactly when the allocator mapped last under
the object's own name has the deallocate function of its creator (`deallocate_by_creator_iff`). -/

namespace Libmacro

open Containers

/-- Identifies a function an allocator points to. -/
abbrev FunctionPtr := ℕ

/-- `SignalAllocator`. The function pointers are not null, as `map` asserts. -/
structure SignalAllocator where
  /-- `allocate`. -/
  allocate : FunctionPtr
  /-- `deallocate`. -/
  deallocate : FunctionPtr
  /-- `dispatcherPtr`: the dispatcher of newly allocated signals. -/
  dispatcherPtr : Option DispatcherId := none
  deriving DecidableEq

/-- `TriggerAllocator`. The function pointers are not null, as `map` asserts. -/
structure TriggerAllocator where
  /-- `allocate`. -/
  allocate : FunctionPtr
  /-- `deallocate`. -/
  deallocate : FunctionPtr
  deriving DecidableEq

/-- A signal, as the registry sees it: the name that it reports, and its dispatcher. -/
structure SignalObject where
  /-- `name()`. -/
  name : CString
  /-- `dispatcherPtr`. -/
  dispatcherPtr : Option DispatcherId := none
  deriving DecidableEq

/-- A trigger, as the registry sees it: the name that it reports. -/
structure TriggerObject where
  /-- `name()`. -/
  name : CString
  deriving DecidableEq

/-- What distinguishes the two registries; `α` are the allocators, `ω` the objects. -/
structure RegistryKind (α ω : Type) where
  /-- The allocator's `allocate`. -/
  allocateFn : α → FunctionPtr
  /-- The allocator's `deallocate`. -/
  deallocateFn : α → FunctionPtr
  /-- The object's `name()`. -/
  objectName : ω → CString
  /-- What `allocate` stores in a new object. -/
  prepare : α → ω → ω
  /-- The text of the error when nothing was allocated. -/
  allocateFailed : String
  /-- The text of the error when the name is not mapped. -/
  notFound : String

/-- The signal registry: a new signal gets the dispatcher of its allocator. -/
def signalRegistry : RegistryKind SignalAllocator SignalObject where
  allocateFn := SignalAllocator.allocate
  deallocateFn := SignalAllocator.deallocate
  objectName := SignalObject.name
  prepare allo ptr := { ptr with dispatcherPtr := allo.dispatcherPtr }
  allocateFailed := "Failed to allocate signal"
  notFound := "Signal not found in registry"

/-- The trigger registry, with its objects and the texts of its errors. -/
def triggerRegistry : RegistryKind TriggerAllocator TriggerObject where
  allocateFn := TriggerAllocator.allocate
  deallocateFn := TriggerAllocator.deallocate
  objectName := TriggerObject.name
  prepare _ ptr := ptr
  allocateFailed := "Failed to allocate trigger"
  notFound := "Trigger not found in registry"

/-- `map(name, allocator)`, or `map(instance, allocator)`, which takes the name of the instance. -/
inductive MapCall (α ω : Type) where
  /-- The key is given. -/
  | byName (name : CString) (allocator : α)
  /-- The key is the instance's `name()`. -/
  | byInstance (instance' : ω) (allocator : α)

/-- The allocator a `map` call gives. -/
def MapCall.allocator {α ω : Type} : MapCall α ω → α
  | .byName _ allocator => allocator
  | .byInstance _ allocator => allocator

/-- `_mapAllocators`: the allocator of each name. -/
abbrev AllocatorMap (α : Type) := CString → Option α

namespace RegistryKind

variable {α ω : Type} (kind : RegistryKind α ω)

/-- The key that a `map` call stores its allocator under: the name given, or that of the instance
given. -/
def key : MapCall α ω → CString
  | .byName name _ => name
  | .byInstance instance' _ => kind.objectName instance'

/-- `map(...)`: the allocator replaces the one mapped before under the key. -/
def map (mapAllocators : AllocatorMap α) (call : MapCall α ω) : AllocatorMap α :=
  Function.update mapAllocators (kind.key call) (some call.allocator)

/-- A new registry after a history of `map` calls, the earliest first. -/
def after (calls : List (MapCall α ω)) : AllocatorMap α := calls.foldl kind.map fun _ => none

/-- `allocate(name)`; `run` is what the allocator's function returns, null included. -/
def allocate (mapAllocators : AllocatorMap α) (run : FunctionPtr → Option ω)
    (name : Option CString) : Except Error (Option ω) :=
  match mapAllocators (name.getD (.lit "")) with
  | none => .ok none
  | some allo =>
    match run (kind.allocateFn allo) with
    | none => .error ⟨.enomem, kind.allocateFailed⟩
    | some ptr => .ok (some (kind.prepare allo ptr))

/-- `deallocate(ptr)`: the function that is called on the object, if one is. -/
def deallocate (mapAllocators : AllocatorMap α) :
    Option ω → Except Error (Option FunctionPtr)
  | none => .ok none
  | some ptr =>
    match mapAllocators (kind.objectName ptr) with
    | none => .error ⟨.einval, kind.notFound⟩
    | some allo => .ok (some (kind.deallocateFn allo))

/-! ## Histories -/

/-- What a `map` call sets the allocator of a name to. -/
def setsAllocator (name : CString) (call : MapCall α ω) : Option α :=
  if kind.key call = name then some call.allocator else none

/-- **`p`, allocated under a key after `h`, is released by its creator after `h'`**: by the
`deallocate` function of the allocator that was mapped under the key. -/
def ReleasedByCreator (h h' : List (MapCall α ω)) (name : Option CString) (p : ω) : Prop :=
  ∃ allo, LastSet (kind.setsAllocator (name.getD (.lit ""))) h allo ∧
    kind.deallocate (kind.after (h ++ h')) (some p) = .ok (some (kind.deallocateFn allo))

/-- One `map` call sets the allocator of its key. -/
theorem map_apply (mapAllocators : AllocatorMap α) (call : MapCall α ω) (name : CString) :
    kind.map mapAllocators call name
      = (kind.setsAllocator name call).or (mapAllocators name) := by
  have hmap : kind.map mapAllocators call name
      = if name = kind.key call then some call.allocator else mapAllocators name :=
    Function.update_apply mapAllocators (kind.key call) (some call.allocator) name
  rw [hmap, setsAllocator]
  by_cases h : kind.key call = name
  · rw [if_pos h, if_pos h.symm, Option.some_or]
  · rw [if_neg h, if_neg (Ne.symm h), Option.none_or]

/-- **A name's allocator is the one mapped last.** -/
theorem after_apply (calls : List (MapCall α ω)) (name : CString) :
    kind.after calls name = lastSet (kind.setsAllocator name) calls := by
  induction calls using List.reverseRecOn with
  | nil => rfl
  | append_singleton calls call ih =>
    have hstep : kind.after (calls ++ [call]) = kind.map (kind.after calls) call := by
      rw [after, List.foldl_append]
      rfl
    rw [hstep, map_apply, ih, lastSet_concat]

/-- What `deallocate` calls after a history. -/
theorem deallocate_after_iff {calls : List (MapCall α ω)} {p : ω} {fn : FunctionPtr} :
    kind.deallocate (kind.after calls) (some p) = .ok (some fn) ↔
      ∃ allo, LastSet (kind.setsAllocator (kind.objectName p)) calls allo ∧
        kind.deallocateFn allo = fn := by
  rw [deallocate, after_apply]
  cases hlast : lastSet (kind.setsAllocator (kind.objectName p)) calls with
  | none =>
    refine iff_of_false (by simp) ?_
    rintro ⟨allo, hallo, -⟩
    rw [hallo.lastSet_eq] at hlast
    exact absurd hlast (by simp)
  | some allo =>
    simp only [Except.ok.injEq, Option.some_inj]
    constructor
    · intro h
      exact ⟨allo, lastSet_eq_some_iff.mp hlast, h⟩
    · rintro ⟨allo', hallo', h⟩
      rw [hallo'.lastSet_eq, Option.some_inj] at hlast
      rw [← hlast]
      exact h

/-- An allocated object comes from the allocator mapped last under the key. -/
theorem creator_of_allocate {calls : List (MapCall α ω)} {run : FunctionPtr → Option ω}
    {name : Option CString} {p : ω}
    (h : kind.allocate (kind.after calls) run name = .ok (some p)) :
    ∃ allo ptr, LastSet (kind.setsAllocator (name.getD (.lit ""))) calls allo ∧
      run (kind.allocateFn allo) = some ptr ∧ p = kind.prepare allo ptr := by
  rw [allocate, after_apply] at h
  cases hlast : lastSet (kind.setsAllocator (name.getD (.lit ""))) calls with
  | none =>
    rw [hlast] at h
    simp at h
  | some allo =>
    rw [hlast] at h
    cases hrun : run (kind.allocateFn allo) with
    | none =>
      simp [hrun] at h
    | some ptr =>
      simp only [hrun, Except.ok.injEq, Option.some_inj] at h
      exact ⟨allo, ptr, lastSet_eq_some_iff.mp hlast, hrun, h.symm⟩

/-- **Release by the creator.** An object that `allocate` returned was made by the allocator
mapped last under the key. A later `deallocate` calls that allocator's `deallocate` exactly when
the allocator mapped last under the object's own name has the same one. -/
theorem deallocate_by_creator_iff (h h' : List (MapCall α ω)) (run : FunctionPtr → Option ω)
    (name : Option CString) (p : ω)
    (halloc : kind.allocate (kind.after h) run name = .ok (some p)) :
    ∃ allo ptr, LastSet (kind.setsAllocator (name.getD (.lit ""))) h allo ∧
      run (kind.allocateFn allo) = some ptr ∧ p = kind.prepare allo ptr ∧
      (kind.deallocate (kind.after (h ++ h')) (some p) = .ok (some (kind.deallocateFn allo)) ↔
        ∃ allo', LastSet (kind.setsAllocator (kind.objectName p)) (h ++ h') allo' ∧
          kind.deallocateFn allo' = kind.deallocateFn allo) := by
  obtain ⟨allo, ptr, hlast, hrun, hp⟩ := kind.creator_of_allocate halloc
  exact ⟨allo, ptr, hlast, hrun, hp, kind.deallocate_after_iff⟩

end RegistryKind

/-! ## Objects released by their own and by another allocator -/

/-- Function 1 makes modifiers and triggers named as their class. -/
def runSignal : FunctionPtr → Option SignalObject
  | 1 => some { name := .lit "Modifier" }
  | _ => none

/-- Function 1 makes triggers named as their class. -/
def runTrigger : FunctionPtr → Option TriggerObject
  | 1 => some { name := .lit "Action" }
  | _ => none

/-- Mapped and allocated under its own name, a signal and a trigger are released by function 2. -/
theorem deallocate_by_creator_own_name :
    signalRegistry.ReleasedByCreator [.byName (.lit "Modifier") ⟨1, 2, none⟩] []
        (some (.lit "Modifier")) ⟨.lit "Modifier", none⟩ ∧
      triggerRegistry.ReleasedByCreator [.byName (.lit "Action") ⟨1, 2⟩] []
        (some (.lit "Action")) ⟨.lit "Action"⟩ := by
  constructor
  · obtain ⟨allo, ptr, hlast, -, -, hiff⟩ := RegistryKind.deallocate_by_creator_iff signalRegistry
      [.byName (.lit "Modifier") ⟨1, 2, none⟩] [] runSignal (some (.lit "Modifier"))
      ⟨.lit "Modifier", none⟩ (by decide)
    exact ⟨allo, hlast, hiff.mpr ⟨allo, hlast, rfl⟩⟩
  · obtain ⟨allo, ptr, hlast, -, -, hiff⟩ := RegistryKind.deallocate_by_creator_iff triggerRegistry
      [.byName (.lit "Action") ⟨1, 2⟩] [] runTrigger (some (.lit "Action")) ⟨.lit "Action"⟩
      (by decide)
    exact ⟨allo, hlast, hiff.mpr ⟨allo, hlast, rfl⟩⟩

/-- Mapped and allocated under another name than its own, an object is not found for release. -/
theorem deallocate_other_name :
    (¬ ∀ h h' run name p,
      signalRegistry.allocate (signalRegistry.after h) run name = .ok (some p) →
        signalRegistry.ReleasedByCreator h h' name p) ∧
      ¬ ∀ h h' run name p,
        triggerRegistry.allocate (triggerRegistry.after h) run name = .ok (some p) →
          triggerRegistry.ReleasedByCreator h h' name p := by
  constructor
  · intro hall
    -- mapped under a name that is not its own, a signal is not found when it comes back
    obtain ⟨allo, -, hcall⟩ := hall [.byName (.lit "mod") ⟨1, 2, none⟩] [] runSignal
      (some (.lit "mod")) ⟨.lit "Modifier", none⟩ (by decide)
    have herror : signalRegistry.deallocate
        (signalRegistry.after [.byName (.lit "mod") ⟨1, 2, none⟩])
        (some ⟨.lit "Modifier", none⟩) = .error ⟨.einval, "Signal not found in registry"⟩ := by
      decide
    rw [List.append_nil, herror] at hcall
    exact absurd hcall (by simp)
  · intro hall
    -- and so for a trigger
    obtain ⟨allo, -, hcall⟩ := hall [.byName (.lit "act") ⟨1, 2⟩] [] runTrigger
      (some (.lit "act")) ⟨.lit "Action"⟩ (by decide)
    have herror : triggerRegistry.deallocate
        (triggerRegistry.after [.byName (.lit "act") ⟨1, 2⟩]) (some ⟨.lit "Action"⟩)
          = .error ⟨.einval, "Trigger not found in registry"⟩ := by
      decide
    rw [List.append_nil, herror] at hcall
    exact absurd hcall (by simp)

end Libmacro
