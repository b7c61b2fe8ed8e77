import Libmacro.Memory
import Libmacro.Names
import Libmacro.Types

/-! # The fixed vocabularies

The names of apply values, key presses, dimensions and interrupts cannot be extended. Each has a
reader, which searches a table ignoring case, and a writer, which is a switch. Where the table and
the switch list the same names, every name is read as the value it is written for and every other
string as `-1` (`readsAsWritten_of_cases`). The key presses have a writer of their own and the
reader of the apply values: `Press` and `Release` are written and not read
(`vocabulary_readsAsWritten_iff`). -/

namespace Libmacro

/-! ## Tables and switches -/

/-- `apply_names`, the names of the ways to apply modifiers. -/
def applyNames : List NameValue := [
  ⟨.lit "Set", ApplyValue.set.code⟩,
  ⟨.lit "Unset", ApplyValue.unset.code⟩,
  ⟨.lit "Both", ApplyValue.both.code⟩,
  ⟨.lit "Toggle", ApplyValue.toggle.code⟩]

/-- `dimension_names`, the names of the dimensions. -/
def dimensionNames : List NameValue := [
  ⟨.lit "X", Dimension.x.code⟩,
  ⟨.lit "Y", Dimension.y.code⟩,
  ⟨.lit "Z", Dimension.z.code⟩,
  ⟨.lit "W", Dimension.w.code⟩]

/-- The value of an interrupt as an `int`. -/
def interruptCode (val : Interrupt) : BitVec 32 := .ofNat 32 val.code

/-- `interrupt_names`, the names of the interrupts. -/
def interruptNames : List NameValue := [
  ⟨.lit "Continue", interruptCode .continue⟩,
  ⟨.lit "Pause", interruptCode .pause⟩,
  ⟨.lit "Interrupt One", interruptCode .interrupt⟩,
  ⟨.lit "Interrupt All", interruptCode .interruptAll⟩,
  ⟨.lit "Disable", interruptCode .disable⟩]

/-- The switch of `applyValue(value)`, as a list of its cases. -/
def applyCases : List (BitVec 32 × CString) := [
  (ApplyValue.set.code, .lit "Set"),
  (ApplyValue.unset.code, .lit "Unset"),
  (ApplyValue.both.code, .lit "Both"),
  (ApplyValue.toggle.code, .lit "Toggle")]

/-- The switch of `keyPressName(value)`, as a list of its own cases. -/
def keyPressCases : List (BitVec 32 × CString) := [
  (ApplyValue.press.code, .lit "Press"),
  (ApplyValue.unpress.code, .lit "Release")]

/-- The switch of `dimension(value)`, as a list of its cases. -/
def dimensionCases : List (BitVec 32 × CString) := [
  (Dimension.x.code, .lit "X"),
  (Dimension.y.code, .lit "Y"),
  (Dimension.z.code, .lit "Z"),
  (Dimension.w.code, .lit "W")]

/-- The switch of `interruptName(value)`, as a list of its cases. -/
def interruptCases : List (BitVec 32 × CString) := [
  (interruptCode .continue, .lit "Continue"),
  (interruptCode .pause, .lit "Pause"),
  (interruptCode .interrupt, .lit "Interrupt One"),
  (interruptCode .interruptAll, .lit "Interrupt All"),
  (interruptCode .disable, .lit "Disable")]

/-! ## Reading and writing -/

/-- A name in a table; `-1` for a null pointer and for a name that is not found. -/
def fixedValue (table : List NameValue) : Option CString → BitVec 32
  | none => -1
  | some name => nameValue table name (-1)

namespace Serial

/-- `applyValue(name)`: the value that the table has for the name. -/
def applyValue : Option CString → BitVec 32 := fixedValue applyNames

/-- `applyValue(value)`: the name that the switch has for the value. -/
def applyValueName (value : BitVec 32) : Option CString := applyCases.lookup value

/-- `keyPress(name)` looks the name up as a way to apply modifiers, and so knows no name of its
own. -/
def keyPress (name : Option CString) : BitVec 32 := applyValue name

/-- `keyPressName(value)`: the names of its own, else those of the apply values. -/
def keyPressName (value : BitVec 32) : Option CString :=
  match keyPressCases.lookup value with
  | some name => some name
  | none => applyValueName value

/-- `dimension(name)`: the value that the table has for the name. -/
def dimension : Option CString → BitVec 32 := fixedValue dimensionNames

/-- `dimension(value)`: the name that the switch has for the value. -/
def dimensionName (value : BitVec 32) : Option CString := dimensionCases.lookup value

/-- `interrupt(name)`: the value that the table has for the name. -/
def interrupt : Option CString → BitVec 32 := fixedValue interruptNames

/-- `interruptName(value)`: the name that the switch has for the value. -/
def interruptName (value : BitVec 32) : Option CString := interruptCases.lookup value

end Serial

/-- The fixed vocabularies, which a client cannot extend. -/
inductive Vocabulary where
  /-- `applyValue` and `applyValue`. -/
  | applyValue
  /-- `keyPress` and `keyPressName`. -/
  | keyPress
  /-- `dimension` and `dimension`. -/
  | dimension
  /-- `interrupt` and `interruptName`. -/
  | interrupt
  deriving DecidableEq, Repr

namespace Vocabulary

/-- The value of a name, read with the function of the vocabulary. -/
def read : Vocabulary → Option CString → BitVec 32
  | applyValue => Serial.applyValue
  | keyPress => Serial.keyPress
  | dimension => Serial.dimension
  | interrupt => Serial.interrupt

/-- The name of a value, written with the function of the vocabulary. -/
def write : Vocabulary → BitVec 32 → Option CString
  | applyValue => Serial.applyValueName
  | keyPress => Serial.keyPressName
  | dimension => Serial.dimensionName
  | interrupt => Serial.interruptName

end Vocabulary

/-- **The string is read as it is written**: as a value exactly when it is the name of the value,
ignoring case, and as `-1` when it is the name of none. -/
def ReadsAsWritten (read : Option CString → BitVec 32) (write : BitVec 32 → Option CString)
    (s : CString) : Prop :=
  (∀ v name, write v = some name → (read (some s) = v ↔ SameName s name)) ∧
    ((∀ v name, write v = some name → ¬ SameName s name) → read (some s) = -1)

/-! ## A table and a switch that agree -/

/-- A switch names different values, none of them `-1`, with different names. -/
structure DistinctCases (cases : List (BitVec 32 × CString)) : Prop where
  /-- The values. -/
  values : ∀ p ∈ cases, ∀ q ∈ cases, p.1 = q.1 → p = q
  /-- The names, ignoring case. -/
  names : ∀ p ∈ cases, ∀ q ∈ cases, SameName p.2 q.2 → p = q
  /-- `-1` is no value. -/
  found : ∀ p ∈ cases, p.1 ≠ -1

section Agree

variable {cases : List (BitVec 32 × CString)} {v : BitVec 32} {name s : CString}

/-- With different values the switch names what it lists. -/
theorem DistinctCases.lookup_eq_some_iff (h : DistinctCases cases) :
    cases.lookup v = some name ↔ (v, name) ∈ cases := by
  have hmem : ∀ {name'}, cases.lookup v = some name' → (v, name') ∈ cases := by
    intro name' hlookup
    obtain ⟨before, later, heq, -⟩ := List.lookup_eq_some_iff.mp hlookup
    rw [heq]
    exact List.mem_append_right _ List.mem_cons_self
  refine ⟨hmem, fun hcase => ?_⟩
  cases hlookup : cases.lookup v with
  | none =>
    have hnone := List.lookup_eq_none_iff.mp hlookup (v, name) hcase
    simp at hnone
  | some name' =>
    have heq := h.values _ (hmem hlookup) _ hcase rfl
    rw [(Prod.mk.inj heq).2]

/-- **A table that lists what the switch names is read as the switch writes.** -/
theorem readsAsWritten_of_cases (h : DistinctCases cases) (s : CString) :
    ReadsAsWritten (fixedValue (cases.map fun p => ⟨p.2, p.1⟩)) (fun v => cases.lookup v) s := by
  -- what is read, by the first entry of the name
  have hread : fixedValue (cases.map fun p => ⟨p.2, p.1⟩) (some s) =
      ((cases.find? fun p => decide (SameName p.2 s)).map Prod.fst).getD (-1) := by
    rw [fixedValue, nameValue_eq, List.find?_map, Option.map_map]
    rfl
  rw [ReadsAsWritten, hread]
  simp only [h.lookup_eq_some_iff]
  cases hfind : cases.find? fun p => decide (SameName p.2 s) with
  | none =>
    have hnot : ∀ p ∈ cases, ¬ SameName p.2 s := by simpa using hfind
    refine ⟨fun v name hcase => iff_of_false ?_ ?_, fun _ => rfl⟩
    · exact fun hv => h.found _ hcase hv.symm
    · exact fun hs => hnot _ hcase hs.symm
  | some p =>
    have hp := List.mem_of_find?_eq_some hfind
    have hs : SameName p.2 s := by simpa using List.find?_some hfind
    refine ⟨fun v name hcase => ⟨fun hv => ?_, fun hname => ?_⟩, fun hnone => ?_⟩
    · have heq := h.values _ hp _ hcase hv
      rw [heq] at hs
      exact hs.symm
    · have heq := h.names _ hp _ hcase (hs.trans hname)
      rw [heq]
      rfl
    · exact absurd hs.symm (hnone p.1 p.2 hp)

end Agree

/-! ## The four vocabularies -/

/-- The switch for the ways to apply modifiers names different values differently, also when the
case is ignored. -/
theorem distinctCases_apply : DistinctCases applyCases := ⟨by decide, by decide, by decide⟩

/-- The switch for the dimensions does so as well. -/
theorem distinctCases_dimension : DistinctCases dimensionCases :=
  ⟨by decide, by decide, by decide⟩

/-- And so does the switch for the interrupts. -/
theorem distinctCases_interrupt : DistinctCases interruptCases :=
  ⟨by decide, by decide, by decide⟩

/-- A name of a way to apply modifiers is read as the value that is written as it. -/
theorem readsAsWritten_applyValue (s : CString) :
    ReadsAsWritten Serial.applyValue Serial.applyValueName s :=
  readsAsWritten_of_cases distinctCases_apply s

/-- A name of a dimension is read as the value that is written as it. -/
theorem readsAsWritten_dimension (s : CString) :
    ReadsAsWritten Serial.dimension Serial.dimensionName s :=
  readsAsWritten_of_cases distinctCases_dimension s

/-- A name of an interrupt is read as the value that is written as it. -/
theorem readsAsWritten_interrupt (s : CString) :
    ReadsAsWritten Serial.interrupt Serial.interruptName s :=
  readsAsWritten_of_cases distinctCases_interrupt s

/-- Other values than `MCR_PRESS` and `MCR_UNPRESS` have the names of the apply values. -/
theorem keyPressName_of_ne {v : BitVec 32} (hpress : v ≠ ApplyValue.press.code)
    (hunpress : v ≠ ApplyValue.unpress.code) :
    Serial.keyPressName v = Serial.applyValueName v := by
  have hlookup : keyPressCases.lookup v = none := by
    rw [List.lookup_eq_none_iff]
    intro p hp
    simp only [keyPressCases, List.mem_cons, List.not_mem_nil, or_false] at hp
    rcases hp with rfl | rfl
    · simpa using hpress
    · simpa using hunpress
  rw [Serial.keyPressName, hlookup]

/-- **A key press is read as it is written** unless the string is one of the names that only the
reader or only the writer has. -/
theorem readsAsWritten_keyPress_iff (s : CString) :
    ReadsAsWritten Serial.keyPress Serial.keyPressName s ↔
      ¬ SameName s (.lit "Set") ∧ ¬ SameName s (.lit "Press") ∧
        ¬ SameName s (.lit "Unset") ∧ ¬ SameName s (.lit "Release") := by
  obtain ⟨hvalue, hnone⟩ := readsAsWritten_applyValue s
  have hset := hvalue ApplyValue.press.code (.lit "Set") rfl
  have hunset := hvalue ApplyValue.unpress.code (.lit "Unset") rfl
  constructor
  · rintro ⟨hwritten, -⟩
    -- the two readings of `MCR_PRESS`, and those of `MCR_UNPRESS`, name different strings
    have hpress := hset.symm.trans (hwritten ApplyValue.press.code (.lit "Press") rfl)
    have hrelease := hunset.symm.trans (hwritten ApplyValue.unpress.code (.lit "Release") rfl)
    have hne : ¬ SameName (.lit "Set") (.lit "Press") := by decide
    have hne' : ¬ SameName (.lit "Unset") (.lit "Release") := by decide
    refine ⟨fun h => ?_, fun h => ?_, fun h => ?_, fun h => ?_⟩
    · exact hne (h.symm.trans (hpress.mp h))
    · exact hne ((hpress.mpr h).symm.trans h)
    · exact hne' (h.symm.trans (hrelease.mp h))
    · exact hne' ((hrelease.mpr h).symm.trans h)
  · rintro ⟨hs, hp, hu, hr⟩
    constructor
    · intro v name hname
      by_cases hv : v = ApplyValue.press.code
      · subst hv
        obtain rfl : CString.lit "Press" = name := Option.some.inj hname
        exact iff_of_false (mt hset.mp hs) hp
      by_cases hv' : v = ApplyValue.unpress.code
      · subst hv'
        obtain rfl : CString.lit "Release" = name := Option.some.inj hname
        exact iff_of_false (mt hunset.mp hu) hr
      rw [keyPressName_of_ne hv hv'] at hname
      exact hvalue v name hname
    · intro hother
      refine hnone fun v name hname => ?_
      by_cases hv : v = ApplyValue.press.code
      · subst hv
        obtain rfl : CString.lit "Set" = name := Option.some.inj hname
        exact hs
      by_cases hv' : v = ApplyValue.unpress.code
      · subst hv'
        obtain rfl : CString.lit "Unset" = name := Option.some.inj hname
        exact hu
      exact hother v name ((keyPressName_of_ne hv hv').trans hname)

/-- **Each fixed vocabulary is read exactly as it is written**, null and every string that is no
name as `-1`, but for the key presses and the strings `Set`, `Press`, `Unset` and `Release`. -/
theorem vocabulary_readsAsWritten_iff (vocabulary : Vocabulary) (s : CString) :
    (vocabulary.read none = -1 ∧ ReadsAsWritten vocabulary.read vocabulary.write s) ↔
      (vocabulary = .keyPress → ¬ SameName s (.lit "Set") ∧ ¬ SameName s (.lit "Press") ∧
        ¬ SameName s (.lit "Unset") ∧ ¬ SameName s (.lit "Release")) := by
  cases vocabulary with
  | applyValue => exact iff_of_true ⟨rfl, readsAsWritten_applyValue s⟩ (by simp)
  | dimension => exact iff_of_true ⟨rfl, readsAsWritten_dimension s⟩ (by simp)
  | interrupt => exact iff_of_true ⟨rfl, readsAsWritten_interrupt s⟩ (by simp)
  | keyPress =>
    rw [forall_prop_of_true rfl, ← readsAsWritten_keyPress_iff]
    exact and_iff_right rfl

/-- **`Press` is written and not read**: `keyPressName(MCR_PRESS)` is `Press`, and
`keyPress("Press")` is `-1`. -/
theorem not_readsAsWritten_press :
    Serial.keyPressName ApplyValue.press.code = some (.lit "Press") ∧
    Serial.keyPress (some (.lit "Press")) = -1 ∧
    ¬ ReadsAsWritten Vocabulary.keyPress.read Vocabulary.keyPress.write (.lit "Press") := by
  refine ⟨rfl, by decide, ?_⟩
  rintro ⟨hwritten, -⟩
  have hread := (hwritten ApplyValue.press.code (.lit "Press") rfl).mpr (.refl _)
  exact absurd hread (by decide)

end Libmacro
