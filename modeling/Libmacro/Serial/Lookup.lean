import Libmacro.Containers.History
import Libmacro.Names
import Libmacro.Types

/-! # Looking up modifier and trigger mode names

`SerialImpl`: the built-in tables, the four extension maps and the calls that edit them. Each
lookup asks its extension map first and a built-in table or switch second. After any history of
calls the answer is the one set last for that name or value, else the built-in one
(`lookup_of_history`). -/

namespace Libmacro

open Containers

/-! ## Built-in tables -/

/-- `modifier_names`, the primary names of the modifiers in the order of the source. -/
def modifierNames : List NameValue := [
  ⟨.lit "None", ModFlags.mfNone⟩,
  ⟨.lit "Any", ModFlags.mfAny⟩,
  ⟨.lit "Alt", ModFlags.alt⟩,
  ⟨.lit "AltGr", ModFlags.altGr⟩,
  ⟨.lit "Amiga", ModFlags.amiga⟩,
  ⟨.lit "Cmd", ModFlags.cmd⟩,
  ⟨.lit "Code", ModFlags.code⟩,
  ⟨.lit "Compose", ModFlags.compose⟩,
  ⟨.lit "Ctrl", ModFlags.ctrl⟩,
  ⟨.lit "Fn", ModFlags.fn⟩,
  ⟨.lit "Front", ModFlags.front⟩,
  ⟨.lit "Graph", ModFlags.graph⟩,
  ⟨.lit "Hyper", ModFlags.hyper⟩,
  ⟨.lit "Meta", ModFlags.metaKey⟩,
  ⟨.lit "Shift", ModFlags.shift⟩,
  ⟨.lit "Super", ModFlags.super⟩,
  ⟨.lit "Symbol", ModFlags.symbol⟩,
  ⟨.lit "Top", ModFlags.top⟩,
  ⟨.lit "OS", ModFlags.os⟩,
  ⟨.lit "User", ModFlags.mfUser⟩]

/-- `modifier_aliases`, which are looked at after the primary names. -/
def modifierAliases : List NameValue := [
  ⟨.lit "Option", ModFlags.alt⟩,
  ⟨.lit "Alt Gr", ModFlags.altGr⟩,
  ⟨.lit "alt_gr", ModFlags.altGr⟩,
  ⟨.lit "Command", ModFlags.cmd⟩,
  ⟨.lit "Control", ModFlags.ctrl⟩,
  ⟨.lit "Win", ModFlags.os⟩,
  ⟨.lit "Mac", ModFlags.os⟩,
  ⟨.lit "Linux", ModFlags.os⟩,
  ⟨.lit "Unix", ModFlags.os⟩,
  ⟨.lit "Windows", ModFlags.os⟩,
  ⟨.lit "Window", ModFlags.os⟩,
  ⟨.lit "Apple", ModFlags.os⟩,
  ⟨.lit "Macintosh", ModFlags.os⟩]

/-- `trigger_mode_names`, the names of the trigger modes in the order of the source. -/
def triggerModeNames : List NameValue := [
  ⟨.lit "Equal", TriggerMode.equal⟩,
  ⟨.lit "All", TriggerMode.all⟩,
  ⟨.lit "None", TriggerMode.none⟩,
  ⟨.lit "Exclusive", TriggerMode.exclusive⟩,
  ⟨.lit "Inequal", TriggerMode.inequal⟩,
  ⟨.lit "Match", TriggerMode.tmMatch⟩,
  ⟨.lit "Any", TriggerMode.any⟩,
  ⟨.lit "User", TriggerMode.user⟩]

/-- The switch of `modifiersName`, as a list of its cases. -/
def modifierCases : List (ModFlags × CString) := [
  (ModFlags.mfNone, .lit "None"),
  (ModFlags.mfAny, .lit "Any"),
  (ModFlags.alt, .lit "Alt"),
  (ModFlags.altGr, .lit "AltGr"),
  (ModFlags.amiga, .lit "Amiga"),
  (ModFlags.cmd, .lit "Cmd"),
  (ModFlags.code, .lit "Code"),
  (ModFlags.compose, .lit "Compose"),
  (ModFlags.ctrl, .lit "Ctrl"),
  (ModFlags.fn, .lit "Fn"),
  (ModFlags.front, .lit "Front"),
  (ModFlags.graph, .lit "Graph"),
  (ModFlags.hyper, .lit "Hyper"),
  (ModFlags.metaKey, .lit "Meta"),
  (ModFlags.shift, .lit "Shift"),
  (ModFlags.super, .lit "Super"),
  (ModFlags.symbol, .lit "Symbol"),
  (ModFlags.top, .lit "Top"),
  (ModFlags.os, .lit "OS"),
  (ModFlags.mfUser, .lit "User")]

/-- The switch of `triggerModeName`, as a list of its cases; `MATCH` is not among them. -/
def triggerModeCases : List (TriggerMode × CString) := [
  (TriggerMode.equal, .lit "Equal"),
  (TriggerMode.all, .lit "All"),
  (TriggerMode.none, .lit "None"),
  (TriggerMode.exclusive, .lit "Exclusive"),
  (TriggerMode.inequal, .lit "Inequal"),
  (TriggerMode.any, .lit "Any"),
  (TriggerMode.user, .lit "User"),
  (TriggerMode.tmMatch, .lit "Match")]

/-! ## `SerialImpl` -/

/-- The fields of `SerialImpl`: four maps that the client extends. -/
structure Serial where
  /-- `_modifierNameExt`. -/
  modifierNameExt : OrderedMap stringLessCi ModFlags := {}
  /-- `_modifierValueExt`. -/
  modifierValueExt : OrderedMap uintLess CString := {}
  /-- `_triggerModeNameExt`. -/
  triggerModeNameExt : OrderedMap stringLessCi TriggerMode := {}
  /-- `_triggerModeValueExt`. -/
  triggerModeValueExt : OrderedMap uintLess CString := {}

namespace Serial

/-- `setModifierName(name, value)`: the name is read as the value from now on; a null name is
ignored. -/
def setModifierName (serial : Serial) : Option CString → ModFlags → Serial
  | some name, value =>
    { serial with modifierNameExt := serial.modifierNameExt.assign name value }
  | none, _ => serial

/-- `setModifierValueName(value, name)`: the value is written as the name from now on; a null name
is ignored. -/
def setModifierValueName (serial : Serial) (value : ModFlags) : Option CString → Serial
  | some name => { serial with modifierValueExt := serial.modifierValueExt.assign value name }
  | none => serial

/-- `removeModifierName(name)` removes how the name is read, and leaves how its value is
written. -/
def removeModifierName (serial : Serial) : Option CString → Serial
  | some name => { serial with modifierNameExt := serial.modifierNameExt.erase name }
  | none => serial

/-- `setTriggerModeName(name, value)`: the name is read as the value from now on; a null name is
ignored. -/
def setTriggerModeName (serial : Serial) : Option CString → TriggerMode → Serial
  | some name, value =>
    { serial with triggerModeNameExt := serial.triggerModeNameExt.assign name value }
  | none, _ => serial

/-- `setTriggerModeValueName(value, name)`: the value is written as the name from now on; a null
name is ignored. -/
def setTriggerModeValueName (serial : Serial) (value : TriggerMode) : Option CString → Serial
  | some name =>
    { serial with triggerModeValueExt := serial.triggerModeValueExt.assign value name }
  | none => serial

/-- `removeTriggerModeName(name)` removes how the name is read, and leaves how its value is
written. -/
def removeTriggerModeName (serial : Serial) : Option CString → Serial
  | some name => { serial with triggerModeNameExt := serial.triggerModeNameExt.erase name }
  | none => serial

/-- `modifiers(name)`: the extension map, the primary table, the aliases. -/
def modifiers (serial : Serial) : Option CString → ModFlags
  | none => ModFlags.mfAny
  | some name =>
    match serial.modifierNameExt.find name with
    | some value => value
    | none =>
      let ret := nameValue modifierNames name ModFlags.mfAny
      if ret ≠ ModFlags.mfAny then ret
      else
        let ret := nameValue modifierAliases name ModFlags.mfAny
        if ret ≠ ModFlags.mfAny then ret
        else ModFlags.mfAny

/-- `modifiersName(value)`: the extension map, the switch, else null. -/
def modifiersName (serial : Serial) (value : ModFlags) : Option CString :=
  match serial.modifierValueExt.find value with
  | some name => some name
  | none => modifierCases.lookup value

/-- `triggerMode(name)`: the extension map, the table, else `-1`. -/
def triggerMode (serial : Serial) : Option CString → TriggerMode
  | none => -1
  | some name =>
    match serial.triggerModeNameExt.find name with
    | some value => value
    | none => nameValue triggerModeNames name (-1)

/-- `triggerModeName(value)`: the extension map, the switch, else null. -/
def triggerModeName (serial : Serial) (value : TriggerMode) : Option CString :=
  match serial.triggerModeValueExt.find value with
  | some name => some name
  | none => triggerModeCases.lookup value

end Serial

/-! ## Histories of calls -/

/-- A call that edits the extension maps. -/
inductive SerialCall where
  /-- `setModifierName(name, value)`. -/
  | setModifierName (name : Option CString) (value : ModFlags)
  /-- `setModifierValueName(value, name)`. -/
  | setModifierValueName (value : ModFlags) (name : Option CString)
  /-- `removeModifierName(name)`. -/
  | removeModifierName (name : Option CString)
  /-- `setTriggerModeName(name, value)`. -/
  | setTriggerModeName (name : Option CString) (value : TriggerMode)
  /-- `setTriggerModeValueName(value, name)`. -/
  | setTriggerModeValueName (value : TriggerMode) (name : Option CString)
  /-- `removeTriggerModeName(name)`. -/
  | removeTriggerModeName (name : Option CString)

namespace Serial

/-- The effect of a call of the client on the maps. -/
def call (serial : Serial) : SerialCall → Serial
  | .setModifierName name value => serial.setModifierName name value
  | .setModifierValueName value name => serial.setModifierValueName value name
  | .removeModifierName name => serial.removeModifierName name
  | .setTriggerModeName name value => serial.setTriggerModeName name value
  | .setTriggerModeValueName value name => serial.setTriggerModeValueName value name
  | .removeTriggerModeName name => serial.removeTriggerModeName name

/-- A new `SerialImpl` after a history of calls. -/
def after (calls : List SerialCall) : Serial := calls.foldl call {}

end Serial

namespace SerialCall

/-- What a call sets modifier name `s` to: a value, or none when the name is removed. A call about
no name or another name sets nothing. -/
def setsModifier (s : CString) : SerialCall → Option (Option ModFlags)
  | .setModifierName (some name) value => if SameName name s then some (some value) else none
  | .removeModifierName (some name) => if SameName name s then some none else none
  | _ => none

/-- What a call sets the name of modifier `v` to. -/
def setsModifierValue (v : ModFlags) : SerialCall → Option (Option CString)
  | .setModifierValueName value (some name) => if value = v then some (some name) else none
  | _ => none

/-- What a call sets trigger mode name `s` to. -/
def setsTriggerMode (s : CString) : SerialCall → Option (Option TriggerMode)
  | .setTriggerModeName (some name) value => if SameName name s then some (some value) else none
  | .removeTriggerModeName (some name) => if SameName name s then some none else none
  | _ => none

/-- What a call sets the name of trigger mode `v` to. -/
def setsTriggerModeValue (v : TriggerMode) : SerialCall → Option (Option CString)
  | .setTriggerModeValueName value (some name) => if value = v then some (some name) else none
  | _ => none

end SerialCall

/-! ## One call -/

section OneCall

variable (serial : Serial) (c : SerialCall)

/-- A name that is assigned is found under every spelling of it, and the other names are as
before. -/
theorem find_assign_name (map : OrderedMap stringLessCi (BitVec 32)) (name s : CString)
    (value : BitVec 32) :
    (map.assign name value).find s
      = (if SameName name s then some (some value) else none).getD (map.find s) := by
  rw [OrderedMap.find_assign]
  by_cases h : SameName name s
  · rw [if_pos (equivalent_iff.mpr h), if_pos h, Option.getD_some]
  · rw [if_neg (mt equivalent_iff.mp h), if_neg h, Option.getD_none]

/-- A name that is erased is found under no spelling of it, and the other names are as before. -/
theorem find_erase_name (map : OrderedMap stringLessCi (BitVec 32)) (name s : CString) :
    (map.erase name).find s
      = (if SameName name s then some none else none).getD (map.find s) := by
  rw [OrderedMap.find_erase]
  by_cases h : SameName name s
  · rw [if_pos (equivalent_iff.mpr h), if_pos h, Option.getD_some]
  · rw [if_neg (mt equivalent_iff.mp h), if_neg h, Option.getD_none]

/-- A value that is assigned is found, and the other values are as before. -/
theorem find_assign_value (map : OrderedMap uintLess CString) (value v : BitVec 32)
    (name : CString) :
    (map.assign value name).find v
      = (if value = v then some (some name) else none).getD (map.find v) := by
  rw [OrderedMap.find_assign]
  by_cases h : value = v
  · rw [if_pos (uint_equivalent_iff.mpr h), if_pos h, Option.getD_some]
  · rw [if_neg (mt uint_equivalent_iff.mp h), if_neg h, Option.getD_none]

/-- What a call of the client does to the names of modifiers is what it sets, and the calls about
trigger modes set none. -/
theorem find_modifierNameExt_call (s : CString) :
    (serial.call c).modifierNameExt.find s
      = (c.setsModifier s).getD (serial.modifierNameExt.find s) := by
  rcases c with ⟨_ | name, value⟩ | ⟨value, _ | name⟩ | ⟨_ | name⟩ | ⟨_ | name, value⟩
    | ⟨value, _ | name⟩ | ⟨_ | name⟩
  case setModifierName.some => exact find_assign_name serial.modifierNameExt name s value
  case removeModifierName.some => exact find_erase_name serial.modifierNameExt name s
  all_goals rfl

/-- The same for the values of modifiers. -/
theorem find_modifierValueExt_call (v : ModFlags) :
    (serial.call c).modifierValueExt.find v
      = (c.setsModifierValue v).getD (serial.modifierValueExt.find v) := by
  rcases c with ⟨_ | name, value⟩ | ⟨value, _ | name⟩ | ⟨_ | name⟩ | ⟨_ | name, value⟩
    | ⟨value, _ | name⟩ | ⟨_ | name⟩
  case setModifierValueName.some => exact find_assign_value serial.modifierValueExt value v name
  all_goals rfl

/-- The same for the names of trigger modes, which the calls about modifiers do not set. -/
theorem find_triggerModeNameExt_call (s : CString) :
    (serial.call c).triggerModeNameExt.find s
      = (c.setsTriggerMode s).getD (serial.triggerModeNameExt.find s) := by
  rcases c with ⟨_ | name, value⟩ | ⟨value, _ | name⟩ | ⟨_ | name⟩ | ⟨_ | name, value⟩
    | ⟨value, _ | name⟩ | ⟨_ | name⟩
  case setTriggerModeName.some => exact find_assign_name serial.triggerModeNameExt name s value
  case removeTriggerModeName.some => exact find_erase_name serial.triggerModeNameExt name s
  all_goals rfl

/-- The same for the values of trigger modes. -/
theorem find_triggerModeValueExt_call (v : TriggerMode) :
    (serial.call c).triggerModeValueExt.find v
      = (c.setsTriggerModeValue v).getD (serial.triggerModeValueExt.find v) := by
  rcases c with ⟨_ | name, value⟩ | ⟨value, _ | name⟩ | ⟨_ | name⟩ | ⟨_ | name, value⟩
    | ⟨value, _ | name⟩ | ⟨_ | name⟩
  case setTriggerModeValueName.some =>
    exact find_assign_value serial.triggerModeValueExt value v name
  all_goals rfl

end OneCall

/-! ## Any history -/

/-- The built-in value of a modifier name: in the primary table, else in the alias table, else
`MCR_MF_ANY`. -/
def builtinModifier (s : CString) : ModFlags :=
  match modifierNames.find? fun entry => decide (SameName entry.name s) with
  | some entry => entry.value
  | none =>
    match modifierAliases.find? fun entry => decide (SameName entry.name s) with
    | some entry => entry.value
    | none => ModFlags.mfAny

/-- The built-in value of a trigger mode name: in its table, else `-1`. -/
def builtinTriggerMode (s : CString) : TriggerMode :=
  match triggerModeNames.find? fun entry => decide (SameName entry.name s) with
  | some entry => entry.value
  | none => -1

/-- The entry of the primary table whose value also means "not found" has no alias. -/
theorem find_alias_eq_none_of_any {s : CString} {entry : NameValue}
    (h : modifierNames.find? (fun entry => decide (SameName entry.name s)) = some entry)
    (hany : entry.value = ModFlags.mfAny) :
    (modifierAliases.find? fun entry => decide (SameName entry.name s)) = none := by
  have hmem : entry ∈ modifierNames := List.mem_of_find?_eq_some h
  have hs := List.find?_some h
  rw [decide_eq_true_iff] at hs
  have hname : ∀ e ∈ modifierNames, e.value = ModFlags.mfAny → e.name = .lit "Any" := by decide
  have halias : ∀ e ∈ modifierAliases, ¬ SameName e.name (.lit "Any") := by decide
  rw [List.find?_eq_none]
  intro e he hse
  rw [decide_eq_true_iff] at hse
  rw [hname entry hmem hany] at hs
  exact halias e he (hse.trans hs.symm)

/-- `modifiers` asks the extension map, then the built-in names. -/
theorem modifiers_eq (serial : Serial) (s : CString) :
    serial.modifiers (some s) = (serial.modifierNameExt.find s).getD (builtinModifier s) := by
  rw [Serial.modifiers]
  cases serial.modifierNameExt.find s with
  | some value => rfl
  | none =>
    rw [Option.getD_none, builtinModifier]
    simp only [nameValue_eq]
    cases hp : modifierNames.find? fun entry => decide (SameName entry.name s) with
    | none =>
      cases modifierAliases.find? fun entry => decide (SameName entry.name s) with
      | none => rfl
      | some entry =>
        by_cases hany : entry.value = ModFlags.mfAny
        · simp [hany]
        · simp [hany]
    | some entry =>
      by_cases hany : entry.value = ModFlags.mfAny
      · -- the code takes the value for "not found" and asks the aliases too
        rw [find_alias_eq_none_of_any hp hany]
        simp [hany]
      · simp [hany]

/-- `triggerMode` asks the extension map, then the built-in names. -/
theorem triggerMode_eq (serial : Serial) (s : CString) :
    serial.triggerMode (some s)
      = (serial.triggerModeNameExt.find s).getD (builtinTriggerMode s) := by
  rw [Serial.triggerMode]
  cases serial.triggerModeNameExt.find s with
  | some value => rfl
  | none =>
    rw [Option.getD_none, builtinTriggerMode]
    simp only [nameValue_eq]
    cases triggerModeNames.find? fun entry => decide (SameName entry.name s) <;> rfl

/-- `modifiersName` looks at the client's values first and at the built-in cases afterwards. -/
theorem modifiersName_eq (serial : Serial) (v : ModFlags) :
    serial.modifiersName v = (serial.modifierValueExt.find v).or (modifierCases.lookup v) := by
  rw [Serial.modifiersName]
  cases serial.modifierValueExt.find v <;> rfl

/-- `triggerModeName` does the same with the trigger modes. -/
theorem triggerModeName_eq (serial : Serial) (v : TriggerMode) :
    serial.triggerModeName v
      = (serial.triggerModeValueExt.find v).or (triggerModeCases.lookup v) := by
  rw [Serial.triggerModeName]
  cases serial.triggerModeValueExt.find v <;> rfl

/-- **The answer is what was set last**, or the fallback when that was a removal or nothing was
set. -/
def Decides {α : Type} (sets : SerialCall → Option (Option α)) (calls : List SerialCall)
    (answer fallback : Option α) : Prop :=
  (∀ x, LastSet sets calls (some x) → answer = some x) ∧
    ((∀ x, ¬ LastSet sets calls (some x)) → answer = fallback)

/-- An extension map every call edits as `sets` says, with a fallback, obeys the law. -/
theorem decides_of_call {α : Type} {sets : SerialCall → Option (Option α)}
    (found : Serial → Option α)
    (h : ∀ serial c, found (Serial.call serial c) = (sets c).getD (found serial))
    (hempty : found {} = none) (calls : List SerialCall) (fallback : Option α) :
    Decides sets calls ((found (Serial.after calls)).or fallback) fallback := by
  have hfound : found (Serial.after calls) = (lastSet sets calls).getD none := by
    rw [Serial.after, observe_foldl found h, hempty]
  rw [hfound]
  constructor
  · intro x hx
    rw [hx.lastSet_eq, Option.getD_some, Option.some_or]
  · intro hnone
    cases hlast : lastSet sets calls with
    | none => rfl
    | some x? =>
      cases x? with
      | none => rfl
      | some x => exact absurd (lastSet_eq_some_iff.mp hlast) (hnone x)

/-- A default that is given is a second choice. -/
theorem some_getD_eq_or {α : Type} (o : Option α) (a : α) : some (o.getD a) = o.or (some a) := by
  cases o <;> rfl

/-- **Name lookup over any history of calls.** Each answer is what the history set last, else the
built-in one, and a call about another name, another value or the other category changes no
answer. -/
theorem lookup_of_history (calls : List SerialCall) (s : CString) (v : ModFlags)
    (mode : TriggerMode) :
    (Decides (SerialCall.setsModifier s) calls
        (some ((Serial.after calls).modifiers (some s))) (some (builtinModifier s)) ∧
      Decides (SerialCall.setsTriggerMode s) calls
        (some ((Serial.after calls).triggerMode (some s))) (some (builtinTriggerMode s)) ∧
      Decides (SerialCall.setsModifierValue v) calls
        ((Serial.after calls).modifiersName v) (modifierCases.lookup v) ∧
      Decides (SerialCall.setsTriggerModeValue mode) calls
        ((Serial.after calls).triggerModeName mode) (triggerModeCases.lookup mode)) ∧
    ∀ (serial : Serial) (c : SerialCall),
      (c.setsModifier s = none →
        (serial.call c).modifiers (some s) = serial.modifiers (some s)) ∧
      (c.setsTriggerMode s = none →
        (serial.call c).triggerMode (some s) = serial.triggerMode (some s)) ∧
      (c.setsModifierValue v = none →
        (serial.call c).modifiersName v = serial.modifiersName v) ∧
      (c.setsTriggerModeValue mode = none →
        (serial.call c).triggerModeName mode = serial.triggerModeName mode) := by
  refine ⟨⟨?_, ?_, ?_, ?_⟩, fun serial c => ⟨fun h => ?_, fun h => ?_, fun h => ?_, fun h => ?_⟩⟩
  -- after a history: the extension map holds the last entry, the switch decides without one
  · rw [modifiers_eq, some_getD_eq_or]
    exact decides_of_call (fun serial => serial.modifierNameExt.find s)
      (fun serial c => find_modifierNameExt_call serial c s) rfl calls _
  · rw [triggerMode_eq, some_getD_eq_or]
    exact decides_of_call (fun serial => serial.triggerModeNameExt.find s)
      (fun serial c => find_triggerModeNameExt_call serial c s) rfl calls _
  · rw [modifiersName_eq]
    exact decides_of_call (fun serial => serial.modifierValueExt.find v)
      (fun serial c => find_modifierValueExt_call serial c v) rfl calls _
  · rw [triggerModeName_eq]
    exact decides_of_call (fun serial => serial.triggerModeValueExt.find mode)
      (fun serial c => find_triggerModeValueExt_call serial c mode) rfl calls _
  -- a call about another key leaves the entry as it is
  · rw [modifiers_eq, modifiers_eq, find_modifierNameExt_call, h, Option.getD_none]
  · rw [triggerMode_eq, triggerMode_eq, find_triggerModeNameExt_call, h, Option.getD_none]
  · rw [modifiersName_eq, modifiersName_eq, find_modifierValueExt_call, h, Option.getD_none]
  · rw [triggerModeName_eq, triggerModeName_eq, find_triggerModeValueExt_call, h,
      Option.getD_none]

end Libmacro
