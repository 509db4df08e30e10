import ModbusDatabase.Library.Glob
import Mathlib.Order.Interval.Finset.Fin

/-! UTF-8: the byte sequences that stand for code points, surrogates left out. -/

namespace ModbusDatabase.Library.Utf8
open Glob
set_option autoImplicit false

def byte (value : Nat) : Fin 256 := ⟨value % 256, Nat.mod_lt _ (by decide)⟩

theorem byte_val {value : Nat} (small : value < 256) : (byte value).val = value :=
  Nat.mod_eq_of_lt small

/-- The bytes between two of them. -/
def range (low high : Nat) : Fin 256 × Fin 256 := (byte low, byte high)

/-- The ranges of the bytes behind the first one of a code point. -/
def trailing (lead : Fin 256) : Option (List (Fin 256 × Fin 256)) :=
  if lead ≤ byte 0x7F then some []
  else if byte 0xC2 ≤ lead ∧ lead ≤ byte 0xDF then some [range 0x80 0xBF]
  else if lead = byte 0xE0 then some [range 0xA0 0xBF, range 0x80 0xBF]
  else if lead = byte 0xED then some [range 0x80 0x9F, range 0x80 0xBF]
  else if byte 0xE1 ≤ lead ∧ lead ≤ byte 0xEF then some [range 0x80 0xBF, range 0x80 0xBF]
  else if lead = byte 0xF0 then some [range 0x90 0xBF, range 0x80 0xBF, range 0x80 0xBF]
  else if byte 0xF1 ≤ lead ∧ lead ≤ byte 0xF3 then
    some [range 0x80 0xBF, range 0x80 0xBF, range 0x80 0xBF]
  else if lead = byte 0xF4 then some [range 0x80 0x8F, range 0x80 0xBF, range 0x80 0xBF]
  else none

/-- The bytes of one code point. -/
inductive IsChar : List (Fin 256) → Prop
  | mk (lead : Fin 256) (rest : List (Fin 256)) (ranges : List (Fin 256 × Fin 256))
      (follow : trailing lead = some ranges) (fit : fits ranges rest = true) : IsChar (lead :: rest)

inductive WellFormed : List (Fin 256) → Prop
  | nil : WellFormed []
  | cons {char text : List (Fin 256)} (first : IsChar char) (rest : WellFormed text) :
      WellFormed (char ++ text)

theorem WellFormed.append {first later : List (Fin 256)} (left : WellFormed first)
    (right : WellFormed later) : WellFormed (first ++ later) := by
  induction left with
  | nil => exact right
  | cons char _ ih =>
    rw [List.append_assoc]
    exact .cons char ih

theorem IsChar.wellFormed {char : List (Fin 256)} (isChar : IsChar char) : WellFormed char := by
  have alone := WellFormed.cons isChar .nil
  rwa [List.append_nil] at alone

theorem isChar_ascii {lead : Fin 256} (ascii : lead ≤ byte 0x7F) : IsChar [lead] :=
  .mk lead [] [] (if_pos ascii) rfl

/-- The bytes of a code point, in as few as it takes. -/
def encode (codePoint : Nat) : List (Fin 256) :=
  if codePoint < 0x80 then [byte codePoint]
  else if codePoint < 0x800 then [byte (0xC0 + codePoint / 64), byte (0x80 + codePoint % 64)]
  else if codePoint < 0x10000 then
    [byte (0xE0 + codePoint / 4096), byte (0x80 + codePoint / 64 % 64), byte (0x80 + codePoint % 64)]
  else
    [byte (0xF0 + codePoint / 262144), byte (0x80 + codePoint / 4096 % 64),
      byte (0x80 + codePoint / 64 % 64), byte (0x80 + codePoint % 64)]

/-- The code points other than surrogates. -/
def IsScalar (codePoint : Nat) : Prop := codePoint < 0xD800 ∨ 0xE000 ≤ codePoint ∧ codePoint < 0x110000

instance (codePoint : Nat) : Decidable (IsScalar codePoint) := inferInstanceAs (Decidable (_ ∨ _ ∧ _))

theorem byte_mem_range {value low high : Nat} (lower : low ≤ value) (upper : value ≤ high)
    (small : high < 256) : byte low ≤ byte value ∧ byte value ≤ byte high := by
  rw [Fin.le_def, Fin.le_def, byte_val (by omega), byte_val (by omega), byte_val small]
  exact ⟨lower, upper⟩

theorem fits_trailing {ranges : List (Fin 256 × Fin 256)} {rest : List (Fin 256)} (value : Nat)
    (fit : fits ranges rest = true) :
    fits (range 0x80 0xBF :: ranges) (byte (0x80 + value % 64) :: rest) = true := by
  have inside := @byte_mem_range (0x80 + value % 64) 0x80 0xBF (by omega) (by omega) (by omega)
  exact fits_cons.mpr ⟨inside, fit⟩

theorem isChar_three {codePoint : Nat} (scalar : IsScalar codePoint) (lower : 0x800 ≤ codePoint)
    (upper : codePoint < 0x10000) :
    IsChar [byte (0xE0 + codePoint / 4096), byte (0x80 + codePoint / 64 % 64), byte (0x80 + codePoint % 64)] := by
  have three : ∀ lead : Fin 256, byte 0xE1 ≤ lead ∧ lead ≤ byte 0xEF → lead ≠ byte 0xED →
      trailing lead = some [range 0x80 0xBF, range 0x80 0xBF] := by decide +kernel
  by_cases first : codePoint / 4096 = 0
  · have lead : 0xE0 + codePoint / 4096 = 0xE0 := by omega
    have behind := @byte_mem_range (0x80 + codePoint / 64 % 64) 0xA0 0xBF (by omega) (by omega) (by omega)
    rw [lead]
    exact .mk _ _ _ rfl (fits_cons.mpr ⟨behind, fits_trailing _ rfl⟩)
  · by_cases surrogate : codePoint / 4096 = 13
    · have lead : 0xE0 + codePoint / 4096 = 0xED := by omega
      have low : codePoint < 0xD800 := by
        rcases scalar with low | high
        · exact low
        · omega
      have behind := @byte_mem_range (0x80 + codePoint / 64 % 64) 0x80 0x9F (by omega) (by omega) (by omega)
      rw [lead]
      exact .mk _ _ _ rfl (fits_cons.mpr ⟨behind, fits_trailing _ rfl⟩)
    · have other : byte (0xE0 + codePoint / 4096) ≠ byte 0xED := by
        intro same
        have equal := congrArg Fin.val same
        rw [byte_val (by omega), byte_val (by omega)] at equal
        omega
      exact .mk _ _ _ (three _ (byte_mem_range (by omega) (by omega) (by omega)) other)
        (fits_trailing _ (fits_trailing _ rfl))

theorem isChar_four {codePoint : Nat} (lower : 0x10000 ≤ codePoint) (upper : codePoint < 0x110000) :
    IsChar [byte (0xF0 + codePoint / 262144), byte (0x80 + codePoint / 4096 % 64),
      byte (0x80 + codePoint / 64 % 64), byte (0x80 + codePoint % 64)] := by
  have four : ∀ lead : Fin 256, byte 0xF1 ≤ lead ∧ lead ≤ byte 0xF3 →
      trailing lead = some [range 0x80 0xBF, range 0x80 0xBF, range 0x80 0xBF] := by decide +kernel
  by_cases first : codePoint / 262144 = 0
  · have lead : 0xF0 + codePoint / 262144 = 0xF0 := by omega
    have behind := @byte_mem_range (0x80 + codePoint / 4096 % 64) 0x90 0xBF (by omega) (by omega) (by omega)
    rw [lead]
    exact .mk _ _ _ rfl (fits_cons.mpr ⟨behind, fits_trailing _ (fits_trailing _ rfl)⟩)
  · by_cases last : codePoint / 262144 = 4
    · have lead : 0xF0 + codePoint / 262144 = 0xF4 := by omega
      have behind := @byte_mem_range (0x80 + codePoint / 4096 % 64) 0x80 0x8F (by omega) (by omega) (by omega)
      rw [lead]
      exact .mk _ _ _ rfl (fits_cons.mpr ⟨behind, fits_trailing _ (fits_trailing _ rfl)⟩)
    · exact .mk _ _ _ (four _ (byte_mem_range (by omega) (by omega) (by omega)))
        (fits_trailing _ (fits_trailing _ (fits_trailing _ rfl)))

theorem isChar_encode {codePoint : Nat} (scalar : IsScalar codePoint) : IsChar (encode codePoint) := by
  have two : ∀ lead : Fin 256, byte 0xC2 ≤ lead ∧ lead ≤ byte 0xDF →
      trailing lead = some [range 0x80 0xBF] := by decide +kernel
  have limit : codePoint < 0x110000 := by
    rcases scalar with low | high
    · omega
    · exact high.2
  unfold encode
  split
  next ascii =>
    apply isChar_ascii
    exact (@byte_mem_range codePoint 0 0x7F (by omega) (by omega) (by omega)).2
  next =>
  split
  next =>
    exact .mk _ _ _ (two _ (byte_mem_range (by omega) (by omega) (by omega))) (fits_trailing _ rfl)
  next above =>
  split
  next below => exact isChar_three scalar (not_lt.mp above) below
  next above => exact isChar_four (not_lt.mp above) limit

end ModbusDatabase.Library.Utf8
