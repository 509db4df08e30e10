import Mathlib.Data.Nat.Digits.Lemmas
import Mathlib.Order.Fin.Basic

/-! Decimal numerals as ASCII text: rendering a number, and reading the text back. -/

namespace ModbusDatabase.Library.Decimal
set_option autoImplicit false

/-- The character of a digit below ten. -/
def digit (value : Nat) : Fin 256 := ⟨(48 + value) % 256, Nat.mod_lt _ (by decide)⟩

/-- A number without leading zeros. -/
def render (number : Nat) : List (Fin 256) :=
  if number = 0 then [digit 0] else (Nat.digits 10 number).reverse.map digit

/-- The number a text of digits stands for, read from the left. -/
def value (text : List (Fin 256)) : Nat :=
  text.foldl (fun number char => 10 * number + (char.val - 48)) 0

def IsDigit (char : Fin 256) : Prop := 48 ≤ char ∧ char ≤ 57

instance (char : Fin 256) : Decidable (IsDigit char) := inferInstanceAs (Decidable (_ ∧ _))

theorem digit_val {value : Nat} (small : value < 10) : (digit value).val = 48 + value :=
  Nat.mod_eq_of_lt (by omega)

theorem isDigit_digit {value : Nat} (small : value < 10) : IsDigit (digit value) := by
  have eq := digit_val small
  constructor
  · rw [Fin.le_def, eq]
    exact Nat.le_add_right _ _
  · rw [Fin.le_def, eq]
    change 48 + value ≤ 57
    omega

theorem render_ne_nil (number : Nat) : render number ≠ [] := by
  unfold render
  split
  next => exact List.cons_ne_nil _ _
  next positive =>
    rw [ne_eq, List.map_eq_nil_iff, List.reverse_eq_nil_iff]
    exact Nat.digits_ne_nil_iff_ne_zero.mpr positive

theorem isDigit_render {number : Nat} {char : Fin 256} (member : char ∈ render number) :
    IsDigit char := by
  unfold render at member
  split at member
  next => exact (List.mem_singleton.mp member) ▸ isDigit_digit (by decide)
  next =>
    obtain ⟨value, known, rfl⟩ := List.mem_map.mp member
    exact isDigit_digit (Nat.digits_lt_base (by decide) (List.mem_reverse.mp known))

theorem render_of_lt {number : Nat} (small : number < 10) : render number = [digit number] := by
  unfold render
  split
  next zero => rw [zero]
  next positive => rw [Nat.digits_of_lt 10 number positive small]; rfl

/-- The last digit of a number stands behind the others. -/
theorem render_of_le {number : Nat} (large : 10 ≤ number) :
    render number = render (number / 10) ++ [digit (number % 10)] := by
  have positive : number ≠ 0 := by omega
  have more : number / 10 ≠ 0 := by omega
  rw [render, if_neg positive, render, if_neg more, Nat.digits_def' (by decide) (by omega),
    List.reverse_cons, List.map_append, List.map_singleton]

theorem length_render_le_iff {width : Nat} (positive : 0 < width) (number : Nat) :
    (render number).length ≤ width ↔ number < 10 ^ width := by
  unfold render
  split
  next zero => exact iff_of_true positive (zero ▸ Nat.pow_pos (by decide))
  next => rw [List.length_map, List.length_reverse, Nat.digits_length_le_iff (by decide)]

/-- Reading a rendered number gives the number. -/
theorem value_render (number : Nat) : value (render number) = number := by
  unfold value render
  split
  next zero => rw [zero]; rfl
  next =>
    rw [List.foldl_map, List.foldl_reverse]
    have read : ∀ digits : List Nat, (∀ value ∈ digits, value < 10) →
        digits.foldr (fun value number => 10 * number + ((digit value).val - 48)) 0 =
          Nat.ofDigits 10 digits := by
      intro digits small
      induction digits with
      | nil => rfl
      | cons value digits ih =>
        rw [List.foldr_cons, ih fun other member => small other (List.mem_cons_of_mem _ member),
          digit_val (small value List.mem_cons_self), Nat.ofDigits_cons]
        omega
    rw [read _ fun value member => Nat.digits_lt_base (by decide) member, Nat.ofDigits_digits]

/-- Zeros in front make no difference. -/
theorem value_zeros (count : Nat) (text : List (Fin 256)) :
    value (List.replicate count 48 ++ text) = value text := by
  induction count with
  | zero => rfl
  | succ count ih => exact ih

end ModbusDatabase.Library.Decimal
