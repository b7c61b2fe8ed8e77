import Mathlib.Init

/-! # Modifier flags, trigger modes, apply values and dimensions

The enumerations of `mcr/types.h`. Modifier flags and trigger modes are `unsigned int` words:
clients add flags above `MCR_MF_USER` and modes above `MCR_TM_USER`. -/

namespace Libmacro

/-- `mcr_ModFlags`: a set of modifier flags. -/
abbrev ModFlags := BitVec 32

namespace ModFlags

/-- `MCR_MF_NONE`. -/
def mfNone : ModFlags := 0
/-- `MCR_ALT`. -/
def alt : ModFlags := 1
/-- `MCR_ALTGR`. -/
def altGr : ModFlags := 1 <<< 1
/-- `MCR_AMIGA`. -/
def amiga : ModFlags := 1 <<< 2
/-- `MCR_CMD`. -/
def cmd : ModFlags := 1 <<< 3
/-- `MCR_CODE`. -/
def code : ModFlags := 1 <<< 4
/-- `MCR_COMPOSE`. -/
def compose : ModFlags := 1 <<< 5
/-- `MCR_CTRL`. -/
def ctrl : ModFlags := 1 <<< 6
/-- `MCR_FN`. -/
def fn : ModFlags := 1 <<< 7
/-- `MCR_FRONT`. -/
def front : ModFlags := 1 <<< 8
/-- `MCR_GRAPH`. -/
def graph : ModFlags := 1 <<< 9
/-- `MCR_HYPER`. -/
def hyper : ModFlags := 1 <<< 10
/-- `MCR_META`. -/
def metaKey : ModFlags := 1 <<< 11
/-- `MCR_SHIFT`. -/
def shift : ModFlags := 1 <<< 12
/-- `MCR_SUPER`. -/
def super : ModFlags := 1 <<< 13
/-- `MCR_SYMBOL`. -/
def symbol : ModFlags := 1 <<< 14
/-- `MCR_TOP`. -/
def top : ModFlags := 1 <<< 15
/-- `MCR_OS`. -/
def os : ModFlags := 1 <<< 16
/-- `MCR_MF_USER`. -/
def mfUser : ModFlags := os <<< 1
/-- `MCR_MF_ANY`: all bits set. -/
def mfAny : ModFlags := ~~~0

end ModFlags

/-- `mcr_TriggerMode`, an `int` of which the source names some values. -/
abbrev TriggerMode := BitVec 32

namespace TriggerMode

/-- `MCR_TM_EQUAL`. -/
def equal : TriggerMode := 0
/-- `MCR_TM_ALL`. -/
def all : TriggerMode := 1
/-- `MCR_TM_NONE`. -/
def none : TriggerMode := 2
/-- `MCR_TM_EXCLUSIVE`. -/
def exclusive : TriggerMode := 3
/-- `MCR_TM_INEQUAL`. -/
def inequal : TriggerMode := 4
/-- `MCR_TM_MATCH`. -/
def tmMatch : TriggerMode := 5
/-- `MCR_TM_ANY`. -/
def any : TriggerMode := 6
/-- `MCR_TM_USER`. -/
def user : TriggerMode := 7

end TriggerMode

/-- `mcr_ApplyValue`: how a modifier is applied to the flags. -/
inductive ApplyValue where
  /-- `MCR_SET`. -/
  | set
  /-- `MCR_UNSET`. -/
  | unset
  /-- `MCR_BOTH`. -/
  | both
  /-- `MCR_TOGGLE`. -/
  | toggle
  deriving DecidableEq, Repr

/-- The value of the enumerator, as a 32-bit word. -/
def ApplyValue.code : ApplyValue → BitVec 32
  | set => 0
  | unset => 1
  | both => 2
  | toggle => 3

namespace ApplyValue

/-- `MCR_PRESS`. -/
def press : ApplyValue := set
/-- `MCR_UNPRESS`. -/
def unpress : ApplyValue := unset

end ApplyValue

/-- `mcr_Dimension`: the coordinate that a signal is about. -/
inductive Dimension where
  /-- `MCR_X`. -/
  | x
  /-- `MCR_Y`. -/
  | y
  /-- `MCR_Z`. -/
  | z
  /-- `MCR_W`. -/
  | w
  deriving DecidableEq, Repr

/-- The value of the enumerator, as a 32-bit word. -/
def Dimension.code : Dimension → BitVec 32
  | x => 0
  | y => 1
  | z => 2
  | w => 3

end Libmacro
