import Mathlib.Data.Finset.NAry
import Mathlib.Algebra.BigOperators.Group.List.Basic
import Mathlib.Algebra.Order.BigOperators.Group.List
import Mathlib.Order.Interval.Finset.Defs

/-! Fixed-width patterns, one range of values for each position of a word, and
how many words can fit one. -/

namespace ModbusDatabase.Library.Glob
set_option autoImplicit false

variable {α : Type*} [LinearOrder α]

def fits : List (α × α) → List α → Bool
  | [], [] => true
  | (low, high) :: pattern, x :: word => decide (low ≤ x ∧ x ≤ high) && fits pattern word
  | _, _ => false

theorem fits_cons {low high x : α} {pattern : List (α × α)} {word : List α} :
    fits ((low, high) :: pattern) (x :: word) = true ↔
      (low ≤ x ∧ x ≤ high) ∧ fits pattern word = true := by
  rw [fits, Bool.and_eq_true, decide_eq_true_iff]

theorem length_of_fits {pattern : List (α × α)} {word : List α} (fit : fits pattern word = true) :
    word.length = pattern.length := by
  induction pattern generalizing word with
  | nil =>
    cases word with
    | nil => rfl
    | cons => exact absurd fit Bool.false_ne_true
  | cons range pattern ih =>
    cases word with
    | nil => exact absurd fit Bool.false_ne_true
    | cons x word => rw [List.length_cons, List.length_cons, ih (fits_cons.mp fit).2]

/-- Everything in a word that fits lies in a range of the pattern. -/
theorem range_of_fits {pattern : List (α × α)} {word : List α} (fit : fits pattern word = true)
    {x : α} (member : x ∈ word) : ∃ range ∈ pattern, range.1 ≤ x ∧ x ≤ range.2 := by
  induction pattern generalizing word with
  | nil =>
    cases word with
    | nil => exact absurd member List.not_mem_nil
    | cons => exact absurd fit Bool.false_ne_true
  | cons range pattern ih =>
    cases word with
    | nil => exact absurd member List.not_mem_nil
    | cons y word =>
      obtain ⟨within, rest⟩ := fits_cons.mp fit
      rcases List.mem_cons.mp member with rfl | later
      · exact ⟨range, List.mem_cons_self, within⟩
      · obtain ⟨other, known, inside⟩ := ih rest later
        exact ⟨other, List.mem_cons_of_mem _ known, inside⟩

variable [LocallyFiniteOrder α]

/-- The words that fit. -/
def words : List (α × α) → Finset (List α)
  | [] => {[]}
  | (low, high) :: pattern => Finset.image₂ List.cons (Finset.Icc low high) (words pattern)

theorem mem_words {pattern : List (α × α)} {word : List α} (fit : fits pattern word = true) :
    word ∈ words pattern := by
  induction pattern generalizing word with
  | nil =>
    cases word with
    | nil => exact Finset.mem_singleton_self []
    | cons => exact absurd fit Bool.false_ne_true
  | cons range pattern ih =>
    cases word with
    | nil => exact absurd fit Bool.false_ne_true
    | cons x word =>
      obtain ⟨within, rest⟩ := fits_cons.mp fit
      exact Finset.mem_image₂_of_mem (Finset.mem_Icc.mpr within) (ih rest)

def choices (pattern : List (α × α)) : Nat :=
  (pattern.map fun range => (Finset.Icc range.1 range.2).card).prod

theorem card_words_le (pattern : List (α × α)) : (words pattern).card ≤ choices pattern := by
  induction pattern with
  | nil => exact le_rfl
  | cons range pattern ih =>
    calc (words (range :: pattern)).card
        ≤ (Finset.Icc range.1 range.2).card * (words pattern).card := Finset.card_image₂_le _ _ _
      _ ≤ (Finset.Icc range.1 range.2).card * choices pattern := Nat.mul_le_mul_left _ ih
      _ = choices (range :: pattern) := by rw [choices, choices, List.map_cons, List.prod_cons]

/-- Different words that all fit are no more than the pattern has choices. -/
theorem length_le_choices {pattern : List (α × α)} {list : List (List α)} (distinct : list.Nodup)
    (fit : ∀ word ∈ list, fits pattern word = true) : list.length ≤ choices pattern := by
  rw [← List.toFinset_card_of_nodup distinct]
  refine (Finset.card_le_card ?_).trans (card_words_le pattern)
  intro word member
  exact mem_words (fit word (List.mem_toFinset.mp member))

end ModbusDatabase.Library.Glob
