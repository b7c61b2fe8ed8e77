import Libmacro.Serial.Lookup

/-! # Writing a value as a name and reading it back

A client registers a modifier or a trigger mode in both directions and may remove the name again.
`removeModifierName` and `removeTriggerModeName` edit the name maps; no call removes an entry of
the value maps, so a removed name is still written for its value but no longer read
(`read_write`). -/

namespace Libmacro

open Containers

/-- The two kinds of names `SerialImpl` keeps. -/
inductive Category where
  /-- Modifier flags. -/
  | modifier
  /-- Trigger modes. -/
  | triggerMode
  deriving DecidableEq

/-- One step of a client: register a name and a value in both directions, or remove a name. -/
inductive Registration where
  /-- `setModifierName(name, value); setModifierValueName(value, name)`, or the same for trigger
  modes. -/
  | register (category : Category) (name : CString) (value : BitVec 32)
  /-- `removeModifierName(name)` or `removeTriggerModeName(name)`. -/
  | remove (category : Category) (name : CString)

/-- The calls of a step: a registration sets both directions, and a removal only takes the name
away. -/
def Registration.calls : Registration → List SerialCall
  | .register .modifier name value =>
    [.setModifierName (some name) value, .setModifierValueName value (some name)]
  | .register .triggerMode name value =>
    [.setTriggerModeName (some name) value, .setTriggerModeValueName value (some name)]
  | .remove .modifier name => [.removeModifierName (some name)]
  | .remove .triggerMode name => [.removeTriggerModeName (some name)]

namespace Category

/-- The built-in names of a category, aliases included, in the order in which they are looked
at. -/
def builtins : Category → List NameValue
  | modifier => modifierNames ++ modifierAliases
  | triggerMode => triggerModeNames

/-- What a lookup gives for a name it does not find. -/
def notFound : Category → BitVec 32
  | modifier => ModFlags.mfAny
  | triggerMode => -1

/-- The built-in value of a name. -/
def builtin : Category → CString → BitVec 32
  | modifier => builtinModifier
  | triggerMode => builtinTriggerMode

/-- The switch over the values of a category. -/
def cases : Category → List (BitVec 32 × CString)
  | modifier => modifierCases
  | triggerMode => triggerModeCases

end Category

namespace Serial

/-- A new `SerialImpl` after the calls of a client. -/
def afterClient (history : List Registration) : Serial :=
  after (history.flatMap Registration.calls)

/-- `modifiers(name)` or `triggerMode(name)`: the value of a name. -/
def read (serial : Serial) : Category → Option CString → BitVec 32
  | .modifier => serial.modifiers
  | .triggerMode => serial.triggerMode

/-- `modifiersName(value)` or `triggerModeName(value)`: the name of a value. -/
def write (serial : Serial) : Category → BitVec 32 → Option CString
  | .modifier => serial.modifiersName
  | .triggerMode => serial.triggerModeName

/-- The name map of a category. -/
def nameExt (serial : Serial) : Category → OrderedMap stringLessCi (BitVec 32)
  | .modifier => serial.modifierNameExt
  | .triggerMode => serial.triggerModeNameExt

/-- The value map of a category. -/
def valueExt (serial : Serial) : Category → OrderedMap uintLess CString
  | .modifier => serial.modifierValueExt
  | .triggerMode => serial.triggerModeValueExt

/-- Reading a name of either category: the client's names come first, then the built-in ones. -/
theorem read_eq (serial : Serial) (category : Category) (s : CString) :
    serial.read category (some s)
      = ((serial.nameExt category).find s).getD (category.builtin s) := by
  cases category with
  | modifier => exact modifiers_eq serial s
  | triggerMode => exact triggerMode_eq serial s

/-- Writing a value of either category: the client's values come first, then the built-in cases. -/
theorem write_eq (serial : Serial) (category : Category) (v : BitVec 32) :
    serial.write category v
      = ((serial.valueExt category).find v).or (category.cases.lookup v) := by
  cases category with
  | modifier => exact modifiersName_eq serial v
  | triggerMode => exact triggerModeName_eq serial v

end Serial

namespace Registration

/-- What a step sets name `s` of a category to. -/
def setsName (category : Category) (s : CString) : Registration → Option (Option (BitVec 32))
  | .register category' name value =>
    if category' = category then if SameName name s then some (some value) else none else none
  | .remove category' name =>
    if category' = category then if SameName name s then some none else none else none

/-- What a step sets the name of value `v` of a category to. -/
def setsValue (category : Category) (v : BitVec 32) : Registration → Option (Option CString)
  | .register category' name value =>
    if category' = category then if value = v then some (some name) else none else none
  | .remove _ _ => none

/-- The pair of name and value that a step registers in a category, if it does. -/
def pair (category : Category) : Registration → Option (CString × BitVec 32)
  | .register category' name value => if category' = category then some (name, value) else none
  | .remove _ _ => none

/-- The pairs a client registers in a category. -/
def pairs (category : Category) (history : List Registration) : List (CString × BitVec 32) :=
  history.filterMap (pair category)

/-- **A client that keeps its names and values apart**: the names it registers are pairwise
different ignoring case and different from every built-in name and alias, and the values are
pairwise different. It may register a pair again. -/
structure Distinct (history : List Registration) : Prop where
  /-- Two pairs with the same name, ignoring case, are the same pair. -/
  names : ∀ category, ∀ p ∈ pairs category history, ∀ q ∈ pairs category history,
    SameName p.1 q.1 → p = q
  /-- Names are not built-in. -/
  notBuiltin : ∀ category, ∀ p ∈ pairs category history, ∀ entry ∈ category.builtins,
    ¬ SameName entry.name p.1
  /-- Two pairs with the same value are the same pair. -/
  values : ∀ category, ∀ p ∈ pairs category history, ∀ q ∈ pairs category history,
    p.2 = q.2 → p = q

/-- **A registered name that was removed**: the last step about the name removes it. -/
def Removed (category : Category) (history : List Registration) (s : CString) : Prop :=
  LastSet (setsName category s) history none ∧ ∃ p ∈ pairs category history, SameName p.1 s

end Registration

/-! ## One step of the client -/

section OneStep

variable (serial : Serial) (r : Registration)

/-- What the calls of one registration do to the names of a category. -/
theorem find_nameExt_calls (category : Category) (s : CString) :
    ((r.calls.foldl Serial.call serial).nameExt category).find s
      = (r.setsName category s).getD ((serial.nameExt category).find s) := by
  rcases r with ⟨_ | _, name, value⟩ | ⟨_ | _, name⟩ <;> cases category
  case register.modifier.modifier =>
    rw [Registration.setsName, if_pos rfl]
    exact find_assign_name serial.modifierNameExt name s value
  case register.triggerMode.triggerMode =>
    rw [Registration.setsName, if_pos rfl]
    exact find_assign_name serial.triggerModeNameExt name s value
  case remove.modifier.modifier =>
    rw [Registration.setsName, if_pos rfl]
    exact find_erase_name serial.modifierNameExt name s
  case remove.triggerMode.triggerMode =>
    rw [Registration.setsName, if_pos rfl]
    exact find_erase_name serial.triggerModeNameExt name s
  all_goals rfl

/-- What they do to the values of a category; a removal leaves these alone. -/
theorem find_valueExt_calls (category : Category) (v : BitVec 32) :
    ((r.calls.foldl Serial.call serial).valueExt category).find v
      = (r.setsValue category v).getD ((serial.valueExt category).find v) := by
  rcases r with ⟨_ | _, name, value⟩ | ⟨_ | _, name⟩ <;> cases category
  case register.modifier.modifier =>
    rw [Registration.setsValue, if_pos rfl]
    exact find_assign_value serial.modifierValueExt value v name
  case register.triggerMode.triggerMode =>
    rw [Registration.setsValue, if_pos rfl]
    exact find_assign_value serial.triggerModeValueExt value v name
  all_goals rfl

end OneStep

/-! ## Any history of the client -/

section History

variable {category : Category} {history : List Registration} {s : CString} {v w : BitVec 32}

/-- The names after a client's history: under each name there is what its last registration has
set. -/
theorem find_nameExt_afterClient (category : Category) (history : List Registration)
    (s : CString) :
    ((Serial.afterClient history).nameExt category).find s
      = (lastSet (Registration.setsName category s) history).getD none := by
  rw [Serial.afterClient, Serial.after, List.foldl_flatMap]
  rw [observe_foldl (fun serial : Serial => (serial.nameExt category).find s)
    (fun serial r => find_nameExt_calls serial r category s)]
  cases category <;> rfl

/-- The values after it: under each value there is what its last registration has set. -/
theorem find_valueExt_afterClient (category : Category) (history : List Registration)
    (v : BitVec 32) :
    ((Serial.afterClient history).valueExt category).find v
      = (lastSet (Registration.setsValue category v) history).getD none := by
  rw [Serial.afterClient, Serial.after, List.foldl_flatMap]
  rw [observe_foldl (fun serial : Serial => (serial.valueExt category).find v)
    (fun serial r => find_valueExt_calls serial r category v)]
  cases category <;> rfl

/-- A step that sets a name to a value registers the pair. -/
theorem mem_pairs_of_setsName (h : LastSet (Registration.setsName category s) history (some w)) :
    ∃ name, SameName name s ∧ (name, w) ∈ Registration.pairs category history := by
  obtain ⟨before, r, later, rfl, hr, -⟩ := h
  cases r with
  | remove category' name =>
    rw [Registration.setsName] at hr
    split_ifs at hr
    simp at hr
  | register category' name value =>
    rw [Registration.setsName] at hr
    split_ifs at hr with hc hs
    simp only [Option.some_inj] at hr
    refine ⟨name, hs, List.mem_filterMap.mpr ⟨.register category' name value, by simp, ?_⟩⟩
    rw [Registration.pair, if_pos hc, hr]

/-- A value's name comes from a registered pair. -/
theorem mem_pairs_of_find_valueExt
    (h : ((Serial.afterClient history).valueExt category).find v = some s) :
    (s, v) ∈ Registration.pairs category history := by
  rw [find_valueExt_afterClient, Option.getD_eq_iff] at h
  rcases h with h | ⟨-, h⟩
  · obtain ⟨before, r, later, rfl, hr, -⟩ := lastSet_eq_some_iff.mp h
    cases r with
    | remove category' name => exact absurd hr (by simp [Registration.setsValue])
    | register category' name value =>
      rw [Registration.setsValue] at hr
      split_ifs at hr with hc hv
      simp only [Option.some_inj] at hr
      refine List.mem_filterMap.mpr ⟨.register category' name value, by simp, ?_⟩
      rw [Registration.pair, if_pos hc, hr, hv]
  · exact absurd h (by simp)

/-- Once a name is registered, the history has set it. -/
theorem lastSet_setsName_ne_none (h : (s, v) ∈ Registration.pairs category history) :
    lastSet (Registration.setsName category s) history ≠ none := by
  intro hnone
  rw [lastSet_eq_none_iff] at hnone
  obtain ⟨r, hr, hpair⟩ := List.mem_filterMap.mp h
  have hsets := hnone r hr
  cases r with
  | remove category' name => exact absurd hpair (by simp [Registration.pair])
  | register category' name value =>
    rw [Registration.pair] at hpair
    split_ifs at hpair with hc
    simp only [Option.some_inj, Prod.mk.injEq] at hpair
    rw [Registration.setsName, if_pos hc, hpair.1, if_pos (SameName.refl s)] at hsets
    exact absurd hsets (by simp)

/-- The switch and the tables agree: every name the switch gives is read back. -/
theorem builtin_of_mem_cases {entry : BitVec 32 × CString} (h : entry ∈ category.cases) :
    category.builtin entry.2 = entry.1 ∧ ∃ e ∈ category.builtins, e.name = entry.2 := by
  cases category with
  | modifier =>
    have hall : ∀ entry ∈ modifierCases, builtinModifier entry.2 = entry.1 ∧
        ∃ e ∈ modifierNames ++ modifierAliases, e.name = entry.2 := by decide
    exact hall entry h
  | triggerMode =>
    have hall : ∀ entry ∈ triggerModeCases, builtinTriggerMode entry.2 = entry.1 ∧
        ∃ e ∈ triggerModeNames, e.name = entry.2 := by decide
    exact hall entry h

/-- A name that is not built in is not found in the tables. -/
theorem builtin_of_forall (h : ∀ entry ∈ category.builtins, ¬ SameName entry.name s) :
    category.builtin s = category.notFound := by
  have hfind : ∀ table : List NameValue, (∀ entry ∈ table, ¬ SameName entry.name s) →
      (table.find? fun entry => decide (SameName entry.name s)) = none := by
    intro table htable
    rw [List.find?_eq_none]
    intro entry hmem
    rw [decide_eq_true_iff]
    exact htable entry hmem
  cases category with
  | modifier =>
    have hnames := hfind modifierNames fun e he => h e (List.mem_append_left _ he)
    have haliases := hfind modifierAliases fun e he => h e (List.mem_append_right _ he)
    rw [Category.builtin, builtinModifier, hnames, haliases]
    rfl
  | triggerMode =>
    rw [Category.builtin, builtinTriggerMode, hfind triggerModeNames h]
    rfl

/-- A registered name is read back unless it was removed. -/
theorem read_of_mem_pairs (h : Registration.Distinct history)
    (hmem : (s, v) ∈ Registration.pairs category history) :
    (¬ Registration.Removed category history s →
        (Serial.afterClient history).read category (some s) = v) ∧
      (Registration.Removed category history s →
        (Serial.afterClient history).read category (some s) = category.notFound) := by
  rw [Serial.read_eq, find_nameExt_afterClient]
  cases hlast : lastSet (Registration.setsName category s) history with
  | none => exact absurd hlast (lastSet_setsName_ne_none hmem)
  | some x? =>
    rw [Option.getD_some]
    cases x? with
    | none =>
      have hremoved : Registration.Removed category history s :=
        ⟨lastSet_eq_some_iff.mp hlast, (s, v), hmem, SameName.refl s⟩
      have hbuiltin := builtin_of_forall (h.notBuiltin category (s, v) hmem)
      exact ⟨fun h' => absurd hremoved h', fun _ => hbuiltin⟩
    | some w =>
      -- the pair registered last under the name is the pair of `v`
      obtain ⟨name, hname, hmem'⟩ := mem_pairs_of_setsName (lastSet_eq_some_iff.mp hlast)
      have hpair : (name, w) = (s, v) := h.names category _ hmem' _ hmem hname
      refine ⟨fun _ => congrArg Prod.snd hpair, fun hremoved => ?_⟩
      have hnone := hremoved.1.lastSet_eq
      rw [hlast] at hnone
      exact absurd hnone (by simp)

/-- **Writing a value and reading the name back.** For a client that keeps its names and values
apart, the name written for `v` is read back as `v` as long as the client has not removed it; a
removed name is read back as "not found". -/
theorem read_write (history : List Registration) (h : Registration.Distinct history)
    (category : Category) (v : BitVec 32) (s : CString)
    (hwrite : (Serial.afterClient history).write category v = some s) :
    (¬ Registration.Removed category history s →
        (Serial.afterClient history).read category (some s) = v) ∧
      (Registration.Removed category history s →
        (Serial.afterClient history).read category (some s) = category.notFound) := by
  rw [Serial.write_eq] at hwrite
  cases hfind : ((Serial.afterClient history).valueExt category).find v with
  | some name =>
    rw [hfind, Option.some_or, Option.some_inj] at hwrite
    rw [hwrite] at hfind
    exact read_of_mem_pairs h (mem_pairs_of_find_valueExt hfind)
  | none =>
    -- a name of the switch: no registration is about it
    rw [hfind, Option.none_or] at hwrite
    obtain ⟨before, later, hcases, -⟩ := List.lookup_eq_some_iff.mp hwrite
    have hmem : (v, s) ∈ category.cases := by
      rw [hcases]
      exact List.mem_append_right _ List.mem_cons_self
    obtain ⟨hread, e, he, hname⟩ := builtin_of_mem_cases hmem
    have hnot : ∀ p ∈ Registration.pairs category history, ¬ SameName p.1 s := by
      intro p hp hs
      refine h.notBuiltin category p hp e he ?_
      rw [hname]
      exact hs.symm
    refine ⟨fun _ => ?_, fun hremoved => ?_⟩
    · rw [Serial.read_eq, find_nameExt_afterClient]
      cases hlast : lastSet (Registration.setsName category s) history with
      | none => exact hread
      | some x? =>
        cases x? with
        | none => exact hread
        | some w =>
          obtain ⟨name, hname', hmem⟩ := mem_pairs_of_setsName (lastSet_eq_some_iff.mp hlast)
          exact absurd hname' (hnot _ hmem)
    · obtain ⟨-, p, hp, hs⟩ := hremoved
      exact absurd hs (hnot p hp)

end History

/-! ## A removed name -/

/-- The client of the manual: a joystick button above the built-in flags, then removed. -/
def joyButton : List Registration :=
  [.register .modifier (.lit "JoyButton1") 0x40000, .remove .modifier (.lit "JoyButton1")]

/-- Its names and values are its own: they clash neither with each other nor with the built-in
ones. -/
theorem joyButton_distinct : Registration.Distinct joyButton where
  names category := by cases category <;> decide
  notBuiltin category := by cases category <;> decide
  values category := by cases category <;> decide

/-- The name of the button is removed, and not registered again. -/
theorem joyButton_removed :
    Registration.Removed .modifier joyButton (.lit "JoyButton1") := by
  refine ⟨⟨[.register .modifier (.lit "JoyButton1") 0x40000],
    .remove .modifier (.lit "JoyButton1"), [], rfl, by decide, by simp⟩, ?_⟩
  exact ⟨(.lit "JoyButton1", 0x40000), by decide, SameName.refl _⟩

/-- After the removal the flag is still written as the name, which is no longer read. -/
theorem read_write_joyButton :
    (Serial.afterClient joyButton).read .modifier (some (.lit "JoyButton1"))
      = Category.notFound .modifier :=
  (read_write joyButton joyButton_distinct .modifier 0x40000 (.lit "JoyButton1") (by decide)).2
    joyButton_removed

/-- Not every written name is read back. -/
theorem read_write_fails :
    ¬ ∀ history, Registration.Distinct history → ∀ category v s,
      (Serial.afterClient history).write category v = some s →
        (Serial.afterClient history).read category (some s) = v := by
  intro h
  have hread := h joyButton joyButton_distinct .modifier 0x40000 (.lit "JoyButton1") (by decide)
  exact absurd hread (by decide)

end Libmacro
