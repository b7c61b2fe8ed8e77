import Libmacro.Containers.OrderedMap
import Mathlib.Data.List.Lex
import Mathlib.Order.BoundedOrder.Basic

/-! # Names and case

C strings, `tolower` as in the C locale, and the two comparisons of names that ignore case:
the loop `ci_equal`, which the built-in tables use, and the order `string_less_ci`, which the
extension maps use. Both tell the same names apart (`ciEqual_iff`, `equivalent_iff`). -/

namespace Libmacro

open Containers

/-- **A C string**: the bytes before the terminating zero. -/
structure CString where
  /-- The characters. -/
  chars : List UInt8
  /-- None of them is the terminator. -/
  zero_notMem : 0 ∉ chars
  deriving DecidableEq

namespace CString

/-- The bytes of a literal, without the terminating zero that C adds. -/
def bytes (s : String) : List UInt8 := s.toList.map fun c => c.toNat.toUInt8

/-- A string literal of the source, which has no zero byte inside. -/
def lit (s : String) (h : 0 ∉ bytes s := by decide) : CString := ⟨bytes s, h⟩

end CString

/-- `tolower` in the C locale: only `A` to `Z` change, to the letters 32 above them. -/
def tolower (c : UInt8) : UInt8 := if 65 ≤ c ∧ c ≤ 90 then c + 32 else c

/-- Only the terminator is lowered to zero. -/
theorem tolower_eq_zero_iff (c : UInt8) : tolower c = 0 ↔ c = 0 := by
  rw [tolower]
  split_ifs with h
  · obtain ⟨hlow, hhigh⟩ := h
    rw [UInt8.le_iff_toNat_le] at hlow hhigh
    rw [← UInt8.toNat_inj, ← UInt8.toNat_inj, UInt8.toNat_add]
    simp only [UInt8.reduceToNat] at hlow hhigh ⊢
    omega
  · exact Iff.rfl

/-- **Equal ignoring ASCII case**, which is how the maps of names tell their keys apart. -/
def SameName (a b : CString) : Prop := a.chars.map tolower = b.chars.map tolower

/-- Names are compared by their lower-case bytes. -/
instance (a b : CString) : Decidable (SameName a b) := inferInstanceAs (Decidable (_ = _))

/-- Every name is the same as itself. -/
theorem SameName.refl (a : CString) : SameName a a := rfl

/-- The comparison of names has no direction. -/
theorem SameName.symm {a b : CString} (h : SameName a b) : SameName b a := Eq.symm h

/-- Two names that are the same as a third one are the same. -/
theorem SameName.trans {a b c : CString} (h : SameName a b) (h' : SameName b c) : SameName a c :=
  Eq.trans h h'

/-! ## `ci_equal` -/

/-- The loop of `ci_equal` on two pointers; past the last character each reads the terminator. -/
def ciEqualLoop : List UInt8 → List UInt8 → Bool
  | a :: as, b :: bs => if tolower a ≠ tolower b then false else ciEqualLoop as bs
  | as, bs => tolower (as.headD 0) = tolower (bs.headD 0)

/-- `ci_equal(a, b)`, with its branch for null pointers: two null pointers are equal, and null
equals no string. -/
def ciEqual : Option CString → Option CString → Bool
  | some a, some b => ciEqualLoop a.chars b.chars
  | a, b => a.isNone && b.isNone

/-- The loop of `ci_equal`, which stops at a terminator, compares the lower-case bytes of both
strings up to their ends. -/
theorem ciEqualLoop_iff {as bs : List UInt8} (ha : 0 ∉ as) (hb : 0 ∉ bs) :
    ciEqualLoop as bs = true ↔ as.map tolower = bs.map tolower := by
  induction as generalizing bs with
  | nil =>
    cases bs with
    | nil => simp [ciEqualLoop]
    | cons b bs =>
      -- the terminator differs from the character, also lowered
      have hb₀ : tolower b ≠ 0 := fun h =>
        hb (List.mem_cons.mpr (Or.inl ((tolower_eq_zero_iff b).mp h).symm))
      have h₀ : tolower 0 = 0 := rfl
      simp [ciEqualLoop, h₀, Ne.symm hb₀]
  | cons a as ih =>
    cases bs with
    | nil =>
      have ha₀ : tolower a ≠ 0 := fun h =>
        ha (List.mem_cons.mpr (Or.inl ((tolower_eq_zero_iff a).mp h).symm))
      have h₀ : tolower 0 = 0 := rfl
      simp [ciEqualLoop, h₀, ha₀]
    | cons b bs =>
      rw [List.mem_cons, not_or] at ha hb
      rw [ciEqualLoop, List.map_cons, List.map_cons, List.cons.injEq]
      by_cases h : tolower a = tolower b
      · rw [if_neg (not_not_intro h), ih ha.2 hb.2, and_iff_right h]
      · rw [if_pos h]
        exact iff_of_false Bool.false_ne_true fun h' => h h'.1

/-- **The loop decides equality ignoring case.** -/
@[simp] theorem ciEqual_iff {a b : CString} : ciEqual (some a) (some b) = true ↔ SameName a b :=
  ciEqualLoop_iff a.zero_notMem b.zero_notMem

/-! ## `string_less_ci` -/

/-- `std::lexicographical_compare`: the first difference decides, and a proper prefix comes
first. -/
def lexicographicalCompare (less : UInt8 → UInt8 → Bool) : List UInt8 → List UInt8 → Bool
  | [], [] => false
  | [], _ :: _ => true
  | _ :: _, [] => false
  | a :: as, b :: bs =>
    if less a b then true
    else if less b a then false
    else lexicographicalCompare less as bs

/-- `string_less_ci::nocase_compare` compares two characters after `tolower`, as `unsigned char`. -/
def nocaseCompare (c₁ c₂ : UInt8) : Bool := tolower c₁ < tolower c₂

/-- `string_less_ci` on the names that C callers pass, the comparator of the maps whose keys are
names. -/
def stringLessCi (s₁ s₂ : CString) : Bool :=
  lexicographicalCompare nocaseCompare s₁.chars s₂.chars

/-- The key that `string_less_ci` orders by: the lowered characters of a string as numbers, compared
lexicographically. -/
def foldCase (s : CString) : List ℕ := s.chars.map fun c => (tolower c).toNat

/-- Two strings have the same key of `string_less_ci` iff they are the same name. -/
theorem foldCase_eq_iff {a b : CString} : foldCase a = foldCase b ↔ SameName a b := by
  have hfold : ∀ s, foldCase s = (s.chars.map tolower).map UInt8.toNat := by
    intro s
    rw [List.map_map]
    rfl
  have hinj : Function.Injective UInt8.toNat := fun _ _ => UInt8.toNat_inj.mp
  rw [hfold, hfold, hinj.list_map.eq_iff, SameName]

/-- `std::lexicographical_compare` with this comparator is the lexicographic order of the
lower-case bytes. -/
theorem lexicographicalCompare_iff (as bs : List UInt8) :
    lexicographicalCompare nocaseCompare as bs = true
      ↔ as.map (fun c => (tolower c).toNat) < bs.map (fun c => (tolower c).toNat) := by
  induction as generalizing bs with
  | nil => cases bs <;> simp [lexicographicalCompare]
  | cons a as ih =>
    cases bs with
    | nil => simp [lexicographicalCompare]
    | cons b bs =>
      rw [lexicographicalCompare, List.map_cons, List.map_cons, List.cons_lt_cons_iff]
      simp only [nocaseCompare, decide_eq_true_eq, UInt8.lt_iff_toNat_lt]
      split_ifs with h₁ h₂
      · exact iff_of_true rfl (Or.inl h₁)
      · exact iff_of_false id (by omega)
      · rw [ih]
        have heq : (tolower a).toNat = (tolower b).toNat := by omega
        simp [heq]

/-- `string_less_ci` orders strings by their lower-case bytes. -/
theorem stringLessCi_iff (a b : CString) :
    stringLessCi a b = true ↔ foldCase a < foldCase b :=
  lexicographicalCompare_iff a.chars b.chars

/-- The comparator of the maps of names is the strict weak order that `std::map` asks for. -/
instance : IsStrictWeakOrder CString fun a b => stringLessCi a b = true :=
  isStrictWeakOrder_of_iff foldCase stringLessCi_iff

/-- **The order tells apart exactly the names that differ ignoring case.** -/
theorem equivalent_iff {a b : CString} : Equivalent stringLessCi a b ↔ SameName a b := by
  rw [equivalent_iff_of_iff stringLessCi_iff, foldCase_eq_iff]

/-- `string_less_ci` as it is declared, on `std::string`s, which may hold any bytes, zero included.
-/
def stringLess (s₁ s₂ : List UInt8) : Bool := lexicographicalCompare nocaseCompare s₁ s₂

/-- A C string and the `std::string` made of it are compared alike. -/
theorem stringLess_chars (a b : CString) : stringLess a.chars b.chars = stringLessCi a b := rfl

/-- **The map ordering and the table comparison agree**: `string_less_ci` is a strict weak order of
all byte strings, and it tells two C strings apart exactly when `ci_equal` does. -/
theorem stringLess_agrees_with_ciEqual :
    IsStrictWeakOrder (List UInt8) (fun s₁ s₂ => stringLess s₁ s₂ = true) ∧
      ∀ a b : CString, (¬ stringLess a.chars b.chars = true ∧
        ¬ stringLess b.chars a.chars = true) ↔ ciEqual (some a) (some b) = true := by
  refine ⟨isStrictWeakOrder_of_iff _ lexicographicalCompare_iff, fun a b => ?_⟩
  rw [stringLess_chars, stringLess_chars, ciEqual_iff, ← equivalent_iff, Equivalent,
    Bool.not_eq_true, Bool.not_eq_true]

/-- `<` on `unsigned int`, the comparator of the maps whose keys are values. -/
def uintLess (a b : BitVec 32) : Bool := a.ult b

/-- The comparator of the maps of values compares numbers. -/
theorem uintLess_iff (a b : BitVec 32) : uintLess a b = true ↔ a.toNat < b.toNat := by
  rw [uintLess, BitVec.ult, decide_eq_true_iff]

/-- The comparator of the maps of values is a strict weak order as well. -/
instance : IsStrictWeakOrder (BitVec 32) fun a b => uintLess a b = true :=
  isStrictWeakOrder_of_iff BitVec.toNat uintLess_iff

/-- Values are equivalent keys only when they are equal, in contrast to names. -/
theorem uint_equivalent_iff {a b : BitVec 32} : Equivalent uintLess a b ↔ a = b := by
  rw [equivalent_iff_of_iff uintLess_iff, BitVec.toNat_inj]

/-! ## Tables -/

/-- `NameValue`: an entry of a built-in table, with the name and the value that it stands for. -/
structure NameValue where
  /-- `name`. -/
  name : CString
  /-- `value`. -/
  value : BitVec 32
  deriving DecidableEq

/-- `nameValue(table, count, name, notFound)`: the value of the first entry of that name, case
aside, or `notFound`. -/
def nameValue : List NameValue → CString → BitVec 32 → BitVec 32
  | [], _, notFound => notFound
  | entry :: table, name, notFound =>
    if ciEqual (some entry.name) (some name) then entry.value else nameValue table name notFound

/-- The search through a table of names ends at the first entry with the same name, and answers
`notFound` without one. -/
theorem nameValue_eq (table : List NameValue) (name : CString) (notFound : BitVec 32) :
    nameValue table name notFound
      = ((table.find? fun entry => decide (SameName entry.name name)).map NameValue.value).getD
        notFound := by
  induction table with
  | nil => rfl
  | cons entry table ih =>
    rw [nameValue, List.find?_cons]
    by_cases h : SameName entry.name name
    · rw [if_pos (ciEqual_iff.mpr h), decide_eq_true h, Option.map_some, Option.getD_some]
    · rw [if_neg (mt ciEqual_iff.mp h), decide_eq_false h, ih]

end Libmacro
