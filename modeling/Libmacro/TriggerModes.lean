import Libmacro.Receivers
import Libmacro.Serial.Lookup
import Libmacro.Words.Flags

/-! # What the trigger modes mean

`mcr_TriggerMode` says for each mode how the flags of an action have to lie to the incoming ones.
The modes, the switch of `mcr_TriggerMode_match_inl` and the table of names are three lists: the
switch has no case for `MCR_TM_MATCH`, and what it does for `MCR_TM_ANY` is the meaning of
`MCR_TM_MATCH` (`triggerModes_mean_iff`). -/

namespace Libmacro

open Words

/-- The modes of `mcr_TriggerMode` below `MCR_TM_USER`. -/
inductive StandardMode where
  /-- `MCR_TM_EQUAL`. -/
  | equal
  /-- `MCR_TM_ALL`. -/
  | all
  /-- `MCR_TM_NONE`. -/
  | none
  /-- `MCR_TM_EXCLUSIVE`. -/
  | exclusive
  /-- `MCR_TM_INEQUAL`. -/
  | inequal
  /-- `MCR_TM_MATCH`. -/
  | tmMatch
  /-- `MCR_TM_ANY`. -/
  | any
  deriving DecidableEq, Repr

namespace StandardMode

/-- The enumerator of the source that the mode stands for. -/
def triggerMode : StandardMode → TriggerMode
  | equal => .equal
  | all => .all
  | none => .none
  | exclusive => .exclusive
  | inequal => .inequal
  | tmMatch => .tmMatch
  | any => .any

/-- **What `mcr_TriggerMode` says of the mode**, for the flags to match and the incoming flags. -/
def Means (matchingFlags incomingFlags : ModFlags) : StandardMode → Prop
  | equal => flags matchingFlags = flags incomingFlags
  | all => flags matchingFlags ⊆ flags incomingFlags
  | none => Disjoint (flags matchingFlags) (flags incomingFlags)
  | exclusive => flags incomingFlags ⊆ flags matchingFlags
  | inequal => flags matchingFlags ≠ flags incomingFlags
  | tmMatch => ¬ Disjoint (flags matchingFlags) (flags incomingFlags)
  | any => True

end StandardMode

/-! ## The switch, case by case -/

section Switch

variable (m i : ModFlags)

/-- `MCR_TM_EQUAL` matches when the same flags are on. -/
theorem triggerModeMatch_equal : triggerModeMatch .equal m i = true ↔ flags m = flags i := by
  rw [flags_inj]
  exact decide_eq_true_iff

/-- `MCR_TM_ALL` matches when all flags of the trigger are on, and maybe others. -/
theorem triggerModeMatch_all : triggerModeMatch .all m i = true ↔ flags m ⊆ flags i := by
  rw [← and_eq_left_iff]
  exact decide_eq_true_iff

/-- `MCR_TM_NONE` matches when no flag of the trigger is on. -/
theorem triggerModeMatch_none :
    triggerModeMatch .none m i = true ↔ Disjoint (flags m) (flags i) := by
  rw [← and_eq_zero_iff]
  exact decide_eq_true_iff

/-- `MCR_TM_EXCLUSIVE` matches when nothing is on besides the flags of the trigger. -/
theorem triggerModeMatch_exclusive :
    triggerModeMatch .exclusive m i = true ↔ flags i ⊆ flags m := by
  rw [← or_eq_left_iff]
  exact decide_eq_true_iff

/-- `MCR_TM_INEQUAL` matches when some flag differs. -/
theorem triggerModeMatch_inequal : triggerModeMatch .inequal m i = true ↔ flags m ≠ flags i := by
  rw [ne_eq, flags_inj]
  exact decide_eq_true_iff

/-- There is no case for `MCR_TM_MATCH`. -/
theorem triggerModeMatch_tmMatch : triggerModeMatch .tmMatch m i = false := rfl

/-- `MCR_TM_ANY` asks for a shared flag. -/
theorem triggerModeMatch_any :
    triggerModeMatch .any m i = true ↔ ¬ Disjoint (flags m) (flags i) := by
  rw [← and_eq_zero_iff]
  exact decide_eq_true_iff

end Switch

/-- An action fires when its mode matches. -/
theorem receive_action (modifiers : ModFlags) (triggerMode : TriggerMode) (blockingFlag : Bool)
    (signalPtr : Option SignalId) (mods : ModFlags) :
    (Trigger.receive ⟨.action modifiers triggerMode, blockingFlag⟩ signalPtr mods).1 =
      triggerModeMatch triggerMode modifiers mods := by
  rw [Trigger.receive]
  dsimp only
  split_ifs with hmatch
  · exact hmatch.symm
  · exact (Bool.eq_false_iff.mpr hmatch).symm

/-- Some action with the mode fires for some word. -/
def TriggerMode.CanFire (triggerMode : TriggerMode) : Prop :=
  ∃ m i, triggerModeMatch triggerMode m i = true

/-- A mode is what it should be unless it is `MCR_TM_MATCH` and a flag is shared, or `MCR_TM_ANY`
and none is. -/
theorem StandardMode.means_iff (mode : StandardMode) (m i : ModFlags) :
    (triggerModeMatch mode.triggerMode m i = true ↔ mode.Means m i) ↔
      (mode = .tmMatch → Disjoint (flags m) (flags i)) ∧
        (mode = .any → ¬ Disjoint (flags m) (flags i)) := by
  cases mode with
  | equal => exact iff_of_true (triggerModeMatch_equal m i) (by simp)
  | all => exact iff_of_true (triggerModeMatch_all m i) (by simp)
  | none => exact iff_of_true (triggerModeMatch_none m i) (by simp)
  | exclusive => exact iff_of_true (triggerModeMatch_exclusive m i) (by simp)
  | inequal => exact iff_of_true (triggerModeMatch_inequal m i) (by simp)
  | tmMatch =>
    rw [triggerMode, triggerModeMatch_tmMatch, Means]
    simp
  | any =>
    rw [triggerMode, triggerModeMatch_any, Means]
    simp

/-- **The modes mean what they say, but for `MCR_TM_MATCH` and `MCR_TM_ANY`**: exactly when the
mode is not `MCR_TM_MATCH` or no flag is shared, and not `MCR_TM_ANY` or one is. `MCR_TM_EQUAL` is
`MCR_TM_ALL` and `MCR_TM_EXCLUSIVE` together; `MCR_TM_MATCH` is the negation of `MCR_TM_NONE` only
where no flag is shared; and of the two modes that a client names `Any` and `Match`, the first can
fire and the second cannot. -/
theorem triggerModes_mean_iff (mode : StandardMode) (m i : ModFlags) (blockingFlag : Bool)
    (signalPtr : Option SignalId) :
    (((triggerModeMatch mode.triggerMode m i = true ↔ mode.Means m i) ∧
        ((Trigger.receive ⟨.action m mode.triggerMode, blockingFlag⟩ signalPtr i).1 = true ↔
          mode.Means m i)) ↔
      (mode = .tmMatch → Disjoint (flags m) (flags i)) ∧
        (mode = .any → ¬ Disjoint (flags m) (flags i))) ∧
    triggerModeMatch .equal m i =
      (triggerModeMatch .all m i && triggerModeMatch .exclusive m i) ∧
    (triggerModeMatch .tmMatch m i = (!triggerModeMatch .none m i) ↔
      Disjoint (flags m) (flags i)) ∧
    (Serial.triggerMode {} (some (.lit "Any"))).CanFire ∧
    ¬ (Serial.triggerMode {} (some (.lit "Match"))).CanFire := by
  refine ⟨?_, ?_, ?_, ?_, ?_⟩
  -- an `Action` fires iff its mode matches
  · rw [receive_action, and_self]
    exact mode.means_iff m i
  · rw [Bool.eq_iff_iff, Bool.and_eq_true, triggerModeMatch_equal, triggerModeMatch_all,
      triggerModeMatch_exclusive]
    exact Set.Subset.antisymm_iff
  · rw [triggerModeMatch_tmMatch, ← triggerModeMatch_none]
    cases triggerModeMatch .none m i <;> simp
  · exact ⟨1, 1, by decide⟩
  -- "Match" is read as `MCR_TM_MATCH`, which never matches
  · rintro ⟨m', i', hmatch⟩
    have hmode : Serial.triggerMode {} (some (.lit "Match")) = .tmMatch := by decide
    rw [hmode, triggerModeMatch_tmMatch] at hmatch
    cases hmatch

/-- **A shared flag does not match, and not any word is any**: `MCR_TM_MATCH` for the flag that
comes in, and `MCR_TM_ANY` for no flag at all. -/
theorem not_triggerModes_mean :
    ¬ (triggerModeMatch StandardMode.tmMatch.triggerMode ModFlags.shift ModFlags.shift = true ↔
      StandardMode.tmMatch.Means ModFlags.shift ModFlags.shift) ∧
    ¬ (triggerModeMatch StandardMode.any.triggerMode ModFlags.mfNone ModFlags.mfNone = true ↔
      StandardMode.any.Means ModFlags.mfNone ModFlags.mfNone) := by
  rw [StandardMode.means_iff, StandardMode.means_iff, ← and_eq_zero_iff, ← and_eq_zero_iff]
  decide

end Libmacro
