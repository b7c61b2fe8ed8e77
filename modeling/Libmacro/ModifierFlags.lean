import Libmacro.Modifiers
import Libmacro.Words.Flags
import Mathlib.Data.Set.Basic

/-! # Modifiers flag by flag

`Modifier::send` computes on the whole word. Flag by flag it leaves what its mask does not cover,
sets and clears what it covers, and toggles its mask as one switch: off when all flags of the mask
are on, and on otherwise (`flags_applied`). So a flag that shares no toggled mask with another is a
two-state machine of its own (`sends_flag_by_flag`), and a mask of several flags is not. -/

namespace Libmacro

open Words

namespace Modifier

/-- The word after some modifiers are sent, one after the other. -/
def sendAll (sends : List Modifier) (word : ModFlags) : ModFlags :=
  sends.foldl (fun mods s => s.applied mods) word

/-- No signal leaves the word as it is. -/
@[simp] theorem sendAll_nil (word : ModFlags) : sendAll [] word = word := rfl

/-- The first signal is applied first, and the rest to what it leaves. -/
@[simp] theorem sendAll_cons (s : Modifier) (sends : List Modifier) (word : ModFlags) :
    sendAll (s :: sends) word = sendAll sends (s.applied word) := rfl

/-- All flags of the mask are on. -/
def AllOn (s : Modifier) (on : ℕ → Bool) : Prop :=
  ∀ b < 32, s.modifiers.getLsbD b = true → on b = true

/-- Whether all flags of the mask are on is checked flag by flag. -/
instance (s : Modifier) (on : ℕ → Bool) : Decidable (s.AllOn on) :=
  inferInstanceAs (Decidable (∀ b < 32, _))

/-- **What a modifier makes of the flags**, the mask of a toggle being one switch. -/
def switched (s : Modifier) (on : ℕ → Bool) (b : ℕ) : Bool :=
  if s.modifiers.getLsbD b then
    match s.apply with
    | .set => true
    | .unset | .both => false
    | .toggle => !decide (s.AllOn on)
  else on b

/-- **What a modifier makes of a flag on its own**: a toggle inverts it. -/
def flipped (b : ℕ) (x : Bool) (s : Modifier) : Bool :=
  if s.modifiers.getLsbD b then
    match s.apply with
    | .set => true
    | .unset | .both => false
    | .toggle => !x
  else x

section OneSend

variable {s : Modifier} {mods mods' : ModFlags} {b : ℕ}

/-- The flags of a mask stand inside the word. -/
theorem allOn_iff : s.AllOn mods.getLsbD ↔ flags s.modifiers ⊆ flags mods := by
  constructor
  · intro h b hb
    exact h b (lt_of_mem_flags hb) hb
  · intro h b _ hb
    exact h hb

/-- `send` tests whether all flags of the mask are on: then a toggle clears them. -/
theorem applied_toggle_of_subset (hs : s.apply = .toggle)
    (hon : flags s.modifiers ⊆ flags mods) : s.applied mods = mods &&& ~~~s.modifiers := by
  rw [applied, hs]
  exact if_pos (and_eq_right_iff.mpr hon)

/-- Otherwise a toggle sets them all. -/
theorem applied_toggle_of_not_subset (hs : s.apply = .toggle)
    (hon : ¬ flags s.modifiers ⊆ flags mods) : s.applied mods = mods ||| s.modifiers := by
  rw [applied, hs]
  exact if_neg (mt and_eq_right_iff.mp hon)

/-- **One send, flag by flag**: what the bit operations make of a flag is what the switch says. -/
theorem getLsbD_applied_eq_switched (s : Modifier) (mods : ModFlags) :
    (s.applied mods).getLsbD = s.switched mods.getLsbD := by
  funext b
  rw [switched]
  by_cases hs : s.apply = .toggle
  · rw [hs]
    dsimp only
    by_cases hon : flags s.modifiers ⊆ flags mods
    · rw [applied_toggle_of_subset hs hon, getLsbD_clear, decide_eq_true (allOn_iff.mpr hon)]
      cases s.modifiers.getLsbD b <;> simp
    · rw [applied_toggle_of_not_subset hs hon, BitVec.getLsbD_or,
        decide_eq_false (mt allOn_iff.mp hon)]
      cases s.modifiers.getLsbD b <;> simp
  · rw [getLsbD_applied hs, setsBit]
    cases s.modifiers.getLsbD b with
    | false => rfl
    | true =>
      cases happly : s.apply with
      | toggle => exact absurd happly hs
      | set | unset | both => rfl

/-- A flag whose toggles cover no other flag is inverted by them. -/
theorem getLsbD_applied_eq_flipped
    (h : s.apply = .toggle → b ∈ flags s.modifiers → flags s.modifiers = {b}) :
    (s.applied mods).getLsbD b = flipped b (mods.getLsbD b) s := by
  rw [getLsbD_applied_eq_switched, switched, flipped]
  cases hb : s.modifiers.getLsbD b with
  | false => rfl
  | true =>
    cases happly : s.apply with
    | toggle =>
      have hallOn : s.AllOn mods.getLsbD ↔ mods.getLsbD b = true := by
        rw [allOn_iff, h happly hb, Set.singleton_subset_iff, mem_flags]
      simp [hallOn]
    | set | unset | both => rfl

/-- **The other flags do not matter**: a send leaves words that agree on `S` in agreement, when a
toggle covers flags of `S` only or none of them. -/
theorem applied_agrees {S : Set ℕ}
    (h : s.apply = .toggle → flags s.modifiers ⊆ S ∨ Disjoint (flags s.modifiers) S)
    (hagree : ∀ b ∈ S, mods.getLsbD b = mods'.getLsbD b) :
    ∀ b ∈ S, (s.applied mods).getLsbD b = (s.applied mods').getLsbD b := by
  intro b hb
  rw [getLsbD_applied_eq_switched, getLsbD_applied_eq_switched, switched, switched]
  cases hmask : s.modifiers.getLsbD b with
  | false => exact hagree b hb
  | true =>
    cases happly : s.apply with
    | toggle =>
      -- the mask covers `b`, so it lies in `S`, where the words agree
      have hsub : flags s.modifiers ⊆ S :=
        (h happly).resolve_right fun hdisj => Set.disjoint_left.mp hdisj hmask hb
      have hallOn : s.AllOn mods.getLsbD ↔ s.AllOn mods'.getLsbD :=
        forall_congr' fun c => imp_congr_right fun _ => imp_congr_right fun hc => by
          rw [hagree c (hsub hc)]
      simp [hallOn]
    | set | unset | both => rfl

/-- **The same toggle twice** restores the word iff all flags of the mask were on, or none. -/
theorem applied_applied_iff (hs : s.apply = .toggle) : s.applied (s.applied mods) = mods ↔
    flags s.modifiers ⊆ flags mods ∨ Disjoint (flags s.modifiers) (flags mods) := by
  by_cases hon : flags s.modifiers ⊆ flags mods
  · refine iff_of_true ?_ (Or.inl hon)
    rw [applied_toggle_of_subset hs hon, ← flags_inj]
    by_cases hon' : flags s.modifiers ⊆ flags (mods &&& ~~~s.modifiers)
    · -- the mask is empty
      rw [applied_toggle_of_subset hs hon', flags_and_not]
      rw [flags_and_not] at hon' ⊢
      have hdisj : Disjoint (flags mods) (flags s.modifiers) :=
        Set.disjoint_left.mpr fun b _ hb => (hon' hb).2 hb
      rw [hdisj.sdiff_eq_left, hdisj.sdiff_eq_left]
    · rw [applied_toggle_of_not_subset hs hon', flags_or, flags_and_not]
      exact Set.sdiff_union_of_subset hon
  · have hon' : flags s.modifiers ⊆ flags (mods ||| s.modifiers) := by
      rw [flags_or]
      exact Set.subset_union_right
    rw [applied_toggle_of_not_subset hs hon, applied_toggle_of_subset hs hon', ← flags_inj,
      flags_and_not, flags_or, Set.union_sdiff_right, sdiff_eq_left, or_iff_right hon,
      disjoint_comm]

end OneSend

/-- **Modifiers act flag by flag, a toggled mask as one switch**: the word after a sequence of sends
is what the sends make of its flags in turn; a set of flags that no toggle shares with others does
not depend on them; a flag toggled by no mask but its own is a two-state machine that a toggle
inverts; and the same toggle twice restores the word iff all or none of its flags were on. -/
theorem sends_flag_by_flag (word : ModFlags) (sends : List Modifier) :
    (sendAll sends word).getLsbD = sends.foldl (fun on s => s.switched on) word.getLsbD ∧
    (∀ S : Set ℕ, (∀ s ∈ sends, s.apply = .toggle →
        flags s.modifiers ⊆ S ∨ Disjoint (flags s.modifiers) S) →
      ∀ word' : ModFlags, (∀ b ∈ S, word.getLsbD b = word'.getLsbD b) →
        ∀ b ∈ S, (sendAll sends word).getLsbD b = (sendAll sends word').getLsbD b) ∧
    (∀ b, (∀ s ∈ sends, s.apply = .toggle → b ∈ flags s.modifiers → flags s.modifiers = {b}) →
      (sendAll sends word).getLsbD b = sends.foldl (flipped b) (word.getLsbD b)) ∧
    ∀ s : Modifier, s.apply = .toggle → (sendAll [s, s] (sendAll sends word) = sendAll sends word ↔
      flags s.modifiers ⊆ flags (sendAll sends word) ∨
        Disjoint (flags s.modifiers) (flags (sendAll sends word))) := by
  refine ⟨?_, fun S => ?_, fun b => ?_, fun s hs => applied_applied_iff hs⟩
  · induction sends generalizing word with
    | nil => rfl
    | cons s sends ih =>
      rw [sendAll_cons, ih, List.foldl_cons, getLsbD_applied_eq_switched]
  · induction sends generalizing word with
    | nil => exact fun _ _ hagree => hagree
    | cons s sends ih =>
      intro hsends word' hagree
      rw [sendAll_cons, sendAll_cons]
      refine ih (s.applied word) (fun s' hs' => hsends s' (List.mem_cons_of_mem _ hs')) _ ?_
      exact applied_agrees (hsends s List.mem_cons_self) hagree
  · induction sends generalizing word with
    | nil => exact fun _ => rfl
    | cons s sends ih =>
      intro hsends
      rw [sendAll_cons, ih (s.applied word) fun s' hs' => hsends s' (List.mem_cons_of_mem _ hs'),
        List.foldl_cons, getLsbD_applied_eq_flipped (hsends s List.mem_cons_self)]

/-- **A toggle of two flags is not two toggles**: with one of them on, both are on after it, and
off after the second. -/
theorem not_sends_flipped :
    ¬ (∀ word sends b, (sendAll sends word).getLsbD b =
      sends.foldl (flipped b) (word.getLsbD b)) ∧
    ¬ ∀ word s, s.apply = .toggle → sendAll [s, s] word = word := by
  constructor
  · intro h
    exact absurd (h ModFlags.alt [⟨ModFlags.alt ||| ModFlags.shift, .toggle⟩] 0) (by decide)
  · intro h
    exact absurd (h ModFlags.alt ⟨ModFlags.alt ||| ModFlags.shift, .toggle⟩ rfl) (by decide)

end Modifier

end Libmacro
