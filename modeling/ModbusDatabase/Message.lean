import Mathlib.Algebra.GroupWithZero.Nat
import Mathlib.Algebra.Group.Int.Defs
import Mathlib.Data.List.Lex
import Mathlib.Data.List.TakeWhile

/-! The report message as the program holds it once it is parsed. A C++ string
is its list of bytes, ordered as `std::string` and SQLite's BINARY collation
order it; an `int` is 32 bits wide. -/

namespace ModbusDatabase.Message
set_option autoImplicit false

instance byteValues : NeZero 256 := ⟨by decide⟩

abbrev Byte := Fin 256
abbrev Bytes := List Byte

/-- The bytes of an ASCII literal. -/
def bytes (literal : String) : Bytes := literal.toList.map fun char => Fin.ofNat 256 char.toNat

/-- The part of a string that C code reads through `c_str()`: up to the first NUL. -/
def cStr (text : Bytes) : Bytes := text.takeWhile (· ≠ 0)

def NulFree (text : Bytes) : Prop := 0 ∉ text

instance (text : Bytes) : Decidable (NulFree text) := inferInstanceAs (Decidable (0 ∉ text))

theorem cStr_eq_self {text : Bytes} : cStr text = text ↔ NulFree text := by
  rw [cStr, List.takeWhile_eq_self_iff]
  constructor
  · intro every nul
    simpa using every 0 nul
  · intro free byte member
    exact decide_eq_true (fun zero => free (zero ▸ member))

theorem nulFree_cStr (text : Bytes) : NulFree (cStr text) := by
  intro member
  unfold cStr at member
  have nonzero := List.mem_takeWhile_imp member
  exact of_decide_eq_true nonzero rfl

theorem cStr_append_of_nulFree {front : Bytes} (free : NulFree front) (back : Bytes) :
    cStr (front ++ back) = front ++ cStr back := by
  apply List.takeWhile_append_of_pos
  intro byte member
  exact decide_eq_true (fun zero => free (zero ▸ member))

/-- A NUL hides everything behind it. -/
theorem cStr_append_of_nul {front : Bytes} (nul : ¬NulFree front) (back : Bytes) :
    cStr (front ++ back) = cStr front := by
  rw [cStr, cStr, List.takeWhile_append, if_neg]
  intro whole
  apply nul
  apply cStr_eq_self.mp
  exact (List.takeWhile_prefix _).eq_of_length whole

theorem nulFree_append {front back : Bytes} :
    NulFree (front ++ back) ↔ NulFree front ∧ NulFree back := by
  rw [NulFree, List.mem_append, not_or, NulFree, NulFree]

structure RegisterItem where
  address : Int32
  mapAddr : Int32
  value : Int32
  description : Bytes
  deriving DecidableEq

structure ModbusMasterMsg where
  id : Int32
  channel : Int32
  pduAddr : Int32
  pduFunc : Int32
  pduData : Bytes
  timestamp : Bytes
  registerMap : List RegisterItem
  deriving DecidableEq

/-- The default constructor. -/
instance : Inhabited ModbusMasterMsg where
  default := { id := 0, channel := 0, pduAddr := 0, pduFunc := 0, pduData := [], timestamp := [],
               registerMap := [] }

end ModbusDatabase.Message
