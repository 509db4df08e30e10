import Mathlib.Algebra.Order.Field.Power
import ModbusDatabase.JsonLexer

/-! The numbers of a JSON text: how they are spelled, what they stand for, and that
`scan_number` takes exactly these spellings. -/

namespace ModbusDatabase.JsonNumbers
open Library Library.Scanner Message JsonLexer
set_option autoImplicit false

variable {word rest : Bytes}

def Digits (text : Bytes) : Prop := text ≠ [] ∧ ∀ byte ∈ text, isDigit byte = true

/-- An integer without leading zeros. -/
def Whole (text : Bytes) : Prop := Digits text ∧ (text.head? = some 48 → text = [48])

structure Exponent where
  mark : Byte
  sign : Option Byte
  digits : Bytes
  marked : isMark mark = true
  signs : ∀ byte ∈ sign, byte = 43 ∨ byte = 45
  isDigits : Digits digits

def Exponent.text (exponent : Exponent) : Bytes :=
  exponent.mark :: (exponent.sign.toList ++ exponent.digits)

structure Numeral where
  negative : Bool
  whole : Bytes
  fraction : Option Bytes
  exponent : Option Exponent
  isWhole : Whole whole
  isFraction : ∀ digits ∈ fraction, Digits digits

def signText (negative : Bool) : Bytes := if negative then [45] else []

def fractionText : Option Bytes → Bytes
  | none => []
  | some digits => 46 :: digits

def exponentText : Option Exponent → Bytes
  | none => []
  | some exponent => exponent.text

def Numeral.text (n : Numeral) : Bytes :=
  signText n.negative ++ n.whole ++ fractionText n.fraction ++ exponentText n.exponent

def integral (negative : Bool) : NumberType := if negative then .integer else .unsigned

/-- The type that `scan_number` tries to convert to. -/
def Numeral.type (n : Numeral) : NumberType :=
  if n.fraction = none ∧ n.exponent.isNone then integral n.negative else .float

/-- What has been read of a number where the scanner stands at a label. -/
inductive Read : Label × NumberType → Bytes → Prop
  | init : Read (.init, .unsigned) []
  | minus : Read (.minus, .integer) (signText true)
  | zero (negative : Bool) : Read (.zero, integral negative) (signText negative ++ [48])
  | any1 (negative : Bool) (whole : Bytes) (digits : Digits whole) (lead : whole.head? ≠ some 48) :
      Read (.any1, integral negative) (signText negative ++ whole)
  | decimal1 (negative : Bool) (whole : Bytes) (isWhole : Whole whole) :
      Read (.decimal1, .float) (signText negative ++ whole ++ [46])
  | decimal2 (negative : Bool) (whole fraction : Bytes) (isWhole : Whole whole)
      (isFraction : Digits fraction) :
      Read (.decimal2, .float) (signText negative ++ whole ++ fractionText (some fraction))
  | exponent (negative : Bool) (whole : Bytes) (fraction : Option Bytes) (mark : Byte)
      (isWhole : Whole whole) (isFraction : ∀ digits ∈ fraction, Digits digits)
      (marked : isMark mark = true) :
      Read (.exponent, .float) (signText negative ++ whole ++ fractionText fraction ++ [mark])
  | sign (negative : Bool) (whole : Bytes) (fraction : Option Bytes) (mark sign : Byte)
      (isWhole : Whole whole) (isFraction : ∀ digits ∈ fraction, Digits digits)
      (marked : isMark mark = true) (signs : sign = 43 ∨ sign = 45) :
      Read (.sign, .float) (signText negative ++ whole ++ fractionText fraction ++ [mark, sign])
  | any2 (negative : Bool) (whole : Bytes) (fraction : Option Bytes) (exponent : Exponent)
      (isWhole : Whole whole) (isFraction : ∀ digits ∈ fraction, Digits digits) :
      Read (.any2, .float) (signText negative ++ whole ++ fractionText fraction ++ exponent.text)

section
variable {whole digits : Bytes} {byte : Byte} {state onward : Label × NumberType}

theorem digits_singleton (digit : isDigit byte = true) : Digits [byte] :=
  ⟨List.cons_ne_nil _ _, fun _ member => List.mem_singleton.mp member ▸ digit⟩

theorem Digits.concat (isDigits : Digits digits) (digit : isDigit byte = true) :
    Digits (digits ++ [byte]) := by
  refine ⟨List.append_ne_nil_of_left_ne_nil isDigits.1 _, fun other member => ?_⟩
  rcases List.mem_append.mp member with early | last
  · exact isDigits.2 other early
  · exact List.mem_singleton.mp last ▸ digit

theorem whole_zero : Whole [48] := ⟨digits_singleton (by decide), fun _ => rfl⟩

theorem whole_of_lead (isDigits : Digits whole) (lead : whole.head? ≠ some 48) : Whole whole :=
  ⟨isDigits, fun same => absurd same lead⟩

theorem nextLabel_eq_some : nextLabel state byte = some onward ↔
    state.1.next byte = some onward.1 ∧ onward.1.enter state.2 = onward.2 := by
  rw [nextLabel, Option.map_eq_some_iff]
  constructor
  · rintro ⟨label, leads, rfl⟩
    exact ⟨leads, rfl⟩
  · rintro ⟨leads, enters⟩
    exact ⟨onward.1, leads, Prod.ext rfl enters⟩

/-- The mark of an exponent right behind the whole part. -/
theorem read_mark (negative : Bool) (isWhole : Whole whole) (marked : isMark byte = true) :
    Read (.exponent, .float) (signText negative ++ whole ++ [byte]) := by
  have reads := Read.exponent negative whole none byte isWhole (fun _ absent => nomatch absent) marked
  rw [fractionText, List.append_nil] at reads
  exact reads

def Exponent.concat (exponent : Exponent) (digit : isDigit byte = true) : Exponent :=
  { exponent with digits := exponent.digits ++ [byte], isDigits := exponent.isDigits.concat digit }

theorem Exponent.text_concat (exponent : Exponent) (digit : isDigit byte = true) :
    (exponent.concat digit).text = exponent.text ++ [byte] := by
  simp only [Exponent.text, Exponent.concat, List.cons_append, List.append_assoc]

/-- Each character brings what has been read to the next label. -/
theorem read_next (reads : Read state word) (leads : nextLabel state byte = some onward) :
    Read onward (word ++ [byte]) := by
  obtain ⟨label, type⟩ := onward
  obtain ⟨leads, enters⟩ := nextLabel_eq_some.mp leads
  change label.enter _ = type at enters
  subst enters
  cases reads with
  | init =>
    simp only [Label.next] at leads
    split at leads
    next same => cases leads; subst same; exact .minus
    next =>
    split at leads
    next same => cases leads; subst same; exact .zero false
    next other =>
    obtain ⟨digit, same⟩ := Option.ite_none_right_eq_some.mp leads
    cases same
    exact .any1 false [byte] (digits_singleton digit) (fun same => other (Option.some.inj same))
  | minus =>
    simp only [Label.next] at leads
    split at leads
    next same => cases leads; subst same; exact .zero true
    next other =>
    obtain ⟨digit, same⟩ := Option.ite_none_right_eq_some.mp leads
    cases same
    exact .any1 true [byte] (digits_singleton digit) (fun same => other (Option.some.inj same))
  | zero negative =>
    simp only [Label.next] at leads
    split at leads
    next same => cases leads; subst same; exact .decimal1 negative [48] whole_zero
    next =>
    obtain ⟨marked, same⟩ := Option.ite_none_right_eq_some.mp leads
    cases same
    exact read_mark negative whole_zero marked
  | any1 negative whole digits lead =>
    have isWhole := whole_of_lead digits lead
    simp only [Label.next] at leads
    split at leads
    next digit =>
      cases leads
      rw [List.append_assoc]
      refine .any1 negative _ (digits.concat digit) ?_
      rw [List.head?_append_of_ne_nil _ digits.1]
      exact lead
    next =>
    split at leads
    next same => cases leads; subst same; exact .decimal1 negative whole isWhole
    next =>
    obtain ⟨marked, same⟩ := Option.ite_none_right_eq_some.mp leads
    cases same
    exact read_mark negative isWhole marked
  | decimal1 negative whole isWhole =>
    obtain ⟨digit, same⟩ := Option.ite_none_right_eq_some.mp leads
    cases same
    rw [List.append_assoc]
    exact .decimal2 negative whole [byte] isWhole (digits_singleton digit)
  | decimal2 negative whole fraction isWhole isFraction =>
    simp only [Label.next] at leads
    split at leads
    next digit =>
      cases leads
      rw [List.append_assoc]
      exact .decimal2 negative whole (fraction ++ [byte]) isWhole (isFraction.concat digit)
    next =>
    obtain ⟨marked, same⟩ := Option.ite_none_right_eq_some.mp leads
    cases same
    refine .exponent negative whole (some fraction) byte isWhole ?_ marked
    rintro _ ⟨⟩
    exact isFraction
  | exponent negative whole fraction mark isWhole isFraction marked =>
    rw [List.append_assoc]
    simp only [Label.next] at leads
    split at leads
    next signs => cases leads; exact .sign negative whole fraction mark byte isWhole isFraction marked signs
    next =>
    obtain ⟨digit, same⟩ := Option.ite_none_right_eq_some.mp leads
    cases same
    exact .any2 negative whole fraction ⟨mark, none, [byte], marked, fun _ absent => (nomatch absent),
      digits_singleton digit⟩ isWhole isFraction
  | sign negative whole fraction mark sign isWhole isFraction marked signs =>
    obtain ⟨digit, same⟩ := Option.ite_none_right_eq_some.mp leads
    cases same
    rw [List.append_assoc]
    refine .any2 negative whole fraction ⟨mark, some sign, [byte], marked, ?_, digits_singleton digit⟩
      isWhole isFraction
    rintro _ ⟨⟩
    exact signs
  | any2 negative whole fraction exponent isWhole isFraction =>
    obtain ⟨digit, same⟩ := Option.ite_none_right_eq_some.mp leads
    cases same
    rw [List.append_assoc, ← exponent.text_concat digit]
    exact .any2 negative whole fraction (exponent.concat digit) isWhole isFraction

theorem read_follow {behind : Bytes} (reads : Read state word)
    (followed : follow nextLabel state behind = some onward) : Read onward (word ++ behind) := by
  induction behind generalizing state word with
  | nil =>
    cases followed
    rw [List.append_nil]
    exact reads
  | cons byte behind ih =>
    rw [follow_cons] at followed
    obtain ⟨between, leads, later⟩ := Option.bind_eq_some_iff.mp followed
    have last := ih (read_next reads leads) later
    rw [List.append_assoc] at last
    exact last

/-- At a final label a whole number has been read. -/
theorem numeral_of_read (reads : Read state word) (done : state.1.done = true) :
    ∃ n : Numeral, n.text = word ∧ n.type = state.2 := by
  cases reads with
  | zero negative =>
    refine ⟨⟨negative, [48], none, none, whole_zero, fun _ absent => (nomatch absent)⟩, ?_, rfl⟩
    simp only [Numeral.text, fractionText, exponentText, List.append_nil]
  | any1 negative whole digits lead =>
    refine ⟨⟨negative, whole, none, none, whole_of_lead digits lead, fun _ absent => (nomatch absent)⟩,
      ?_, rfl⟩
    simp only [Numeral.text, fractionText, exponentText, List.append_nil]
  | decimal2 negative whole fraction isWhole isFraction =>
    refine ⟨⟨negative, whole, some fraction, none, isWhole, ?_⟩, ?_, rfl⟩
    · rintro _ ⟨⟩
      exact isFraction
    · simp only [Numeral.text, exponentText, List.append_nil]
  | any2 negative whole fraction exponent isWhole isFraction =>
    refine ⟨⟨negative, whole, fraction, some exponent, isWhole, isFraction⟩, rfl, ?_⟩
    simp [Numeral.type]
  | _ => cases done

/-- A label that digits do not lead away from. -/
theorem follow_digits {label : Label} (loops : ∀ byte, isDigit byte = true → label.next byte = some label)
    (keeps : ∀ type, label.enter type = type) (type : NumberType)
    (isDigits : ∀ byte ∈ digits, isDigit byte = true) :
    follow nextLabel (label, type) digits = some (label, type) := by
  induction digits with
  | nil => rfl
  | cons byte digits ih =>
    have leads : nextLabel (label, type) byte = some (label, type) :=
      nextLabel_eq_some.mpr ⟨loops byte (isDigits byte List.mem_cons_self), keeps type⟩
    rw [follow_cons, leads, Option.bind_some]
    exact ih fun other member => isDigits other (List.mem_cons_of_mem _ member)

/-- The first digit brings the scanner to such a label. -/
theorem follow_first {label before : Label} {type : NumberType}
    (begins : ∀ byte ∈ digits.head?, before.next byte = some label)
    (loops : ∀ byte, isDigit byte = true → label.next byte = some label)
    (keeps : ∀ type, label.enter type = type) (isDigits : Digits digits) :
    follow nextLabel (before, type) digits = some (label, type) := by
  obtain ⟨nonempty, all⟩ := isDigits
  cases digits with
  | nil => exact absurd rfl nonempty
  | cons byte digits =>
    have leads : nextLabel (before, type) byte = some (label, type) :=
      nextLabel_eq_some.mpr ⟨begins byte rfl, keeps type⟩
    rw [follow_cons, leads, Option.bind_some]
    exact follow_digits loops keeps type fun other member => all other (List.mem_cons_of_mem _ member)

theorem head_digit (isDigits : Digits digits) : ∀ byte ∈ digits.head?, isDigit byte = true :=
  fun byte found => isDigits.2 byte (List.mem_of_mem_head? found)

theorem any1_loops (byte : Byte) (digit : isDigit byte = true) : Label.any1.next byte = some .any1 :=
  if_pos digit

theorem decimal2_loops (byte : Byte) (digit : isDigit byte = true) :
    Label.decimal2.next byte = some .decimal2 := if_pos digit

theorem any2_loops (byte : Byte) (digit : isDigit byte = true) : Label.any2.next byte = some .any2 :=
  if_pos digit

theorem isDigit_ne {byte other : Byte} (digit : isDigit byte = true) (sign : isDigit other = false) :
    byte ≠ other := by
  rintro rfl
  rw [digit] at sign
  cases sign

theorem follow_whole (negative : Bool) (isWhole : Whole whole) :
    ∃ label, (label = .zero ∨ label = .any1) ∧
      follow nextLabel (.init, .unsigned) (signText negative ++ whole) = some (label, integral negative) := by
  have signed : follow nextLabel (.init, .unsigned) (signText negative) =
      some (if negative then .minus else .init, integral negative) := by
    cases negative <;> rfl
  rw [follow_append, signed, Option.bind_some]
  by_cases zero : whole = [48]
  · subst zero
    exact ⟨.zero, .inl rfl, by cases negative <;> rfl⟩
  · refine ⟨.any1, .inr rfl, follow_first ?_ any1_loops (fun _ => rfl) isWhole.1⟩
    intro byte first
    have digit := head_digit isWhole.1 byte first
    have nonzero : byte ≠ 48 := fun same => zero (isWhole.2 (same ▸ first))
    have unsigned : byte ≠ 45 := isDigit_ne digit (by decide)
    cases negative with
    | false => exact (if_neg unsigned).trans ((if_neg nonzero).trans (if_pos digit))
    | true => exact (if_neg nonzero).trans (if_pos digit)

theorem follow_fraction {label : Label} (ready : label = .zero ∨ label = .any1) (type : NumberType)
    (fraction : Option Bytes) (isFraction : ∀ digits ∈ fraction, Digits digits) :
    ∃ last, (last = .zero ∨ last = .any1 ∨ last = .decimal2) ∧
      follow nextLabel (label, type) (fractionText fraction) =
        some (last, if fraction = none then type else .float) := by
  cases fraction with
  | none =>
    refine ⟨label, ?_, rfl⟩
    rcases ready with rfl | rfl
    · exact .inl rfl
    · exact .inr (.inl rfl)
  | some digits =>
    have point : nextLabel (label, type) 46 = some (.decimal1, .float) := by
      rcases ready with rfl | rfl <;> rfl
    have isDigits := isFraction digits rfl
    refine ⟨.decimal2, .inr (.inr rfl), ?_⟩
    rw [fractionText, follow_cons, point, Option.bind_some]
    exact follow_first (fun byte first => if_pos (head_digit isDigits byte first)) decimal2_loops
      (fun _ => rfl) isDigits

theorem follow_exponent {label : Label} (ready : label = .zero ∨ label = .any1 ∨ label = .decimal2)
    (type : NumberType) (exponent : Option Exponent) : ∃ last, last.done = true ∧
      follow nextLabel (label, type) (exponentText exponent) =
        some (last, if exponent.isNone then type else .float) := by
  cases exponent with
  | none =>
    refine ⟨label, ?_, rfl⟩
    rcases ready with rfl | rfl | rfl <;> rfl
  | some exponent =>
    obtain ⟨mark, sign, digits, marked, signs, isDigits⟩ := exponent
    have letter : ∀ byte : Byte, isMark byte = true → isDigit byte = false ∧ byte ≠ 46 := by
      decide +kernel
    obtain ⟨notDigit, notPoint⟩ := letter mark marked
    have leads : nextLabel (label, type) mark = some (.exponent, .float) := by
      rcases ready with rfl | rfl | rfl <;>
        simp [nextLabel, Label.next, Label.enter, marked, notDigit, notPoint]
    refine ⟨.any2, rfl, ?_⟩
    rw [exponentText, Exponent.text, follow_cons, leads, Option.bind_some]
    cases sign with
    | none =>
      refine follow_first (fun byte first => ?_) any2_loops (fun _ => rfl) isDigits
      have digit := head_digit isDigits byte first
      have plain : ¬(byte = 43 ∨ byte = 45) :=
        not_or.mpr ⟨isDigit_ne digit (by decide), isDigit_ne digit (by decide)⟩
      exact (if_neg plain).trans (if_pos digit)
    | some sign =>
      have signed : nextLabel (.exponent, .float) sign = some (.sign, .float) :=
        nextLabel_eq_some.mpr ⟨if_pos (signs sign rfl), rfl⟩
      change follow nextLabel _ (sign :: digits) = _
      rw [follow_cons, signed, Option.bind_some]
      exact follow_first (fun byte first => if_pos (head_digit isDigits byte first)) any2_loops
        (fun _ => rfl) isDigits

/-- No number goes on here. -/
def Stops (rest : Bytes) : Prop :=
  ∀ byte ∈ rest.head?, isDigit byte = false ∧ byte ≠ 46 ∧ isMark byte = false

theorem next_of_stops {label : Label} (done : label.done = true) (digit : isDigit byte = false)
    (point : byte ≠ 46) (mark : isMark byte = false) : label.next byte = none := by
  cases label with
  | zero | any1 | decimal2 | any2 => simp [Label.next, digit, point, mark]
  | _ => cases done

/-- A number that stops is scanned to its end. -/
theorem munch_numeral (n : Numeral) (stops : Stops rest) :
    ∃ label, munch nextLabel (fun state => state.1.done) (.init, .unsigned) (n.text ++ rest) =
      some (((label, n.type), n.text), rest) := by
  obtain ⟨first, plain, followed⟩ := follow_whole n.negative n.isWhole
  obtain ⟨second, ready, further⟩ := follow_fraction plain (integral n.negative) n.fraction n.isFraction
  obtain ⟨last, done, ended⟩ := follow_exponent ready (if n.fraction = none then integral n.negative else .float)
    n.exponent
  have all : follow nextLabel (.init, .unsigned) n.text = some (last, n.type) := by
    rw [Numeral.text, follow_append, follow_append, followed, Option.bind_some, further,
      Option.bind_some, ended, Numeral.type]
    by_cases whole : n.fraction = none <;> by_cases short : n.exponent.isNone <;> simp [whole, short]
  refine ⟨last, munch_eq_some.mpr ⟨rfl, all, done, fun byte front => ?_⟩⟩
  obtain ⟨digit, point, mark⟩ := stops byte front
  rw [nextLabel, next_of_stops done digit point mark, Option.map_none]

end

/-! What a number is taken for. -/

def Exponent.value (exponent : Exponent) : Int :=
  if exponent.sign = some 45 then -Decimal.value exponent.digits else Decimal.value exponent.digits

def exponentOf : Option Exponent → Int
  | none => 0
  | some exponent => exponent.value

def Numeral.magnitude (n : Numeral) : ℚ :=
  Decimal.value (n.whole ++ n.fraction.getD []) *
    10 ^ (exponentOf n.exponent - (n.fraction.getD []).length)

/-- An integer where one of 64 bits holds the number, and else a float if that is finite. -/
inductive Denotes (n : Numeral) : Leaf → Prop
  | unsigned (plain : n.type = .unsigned) (fits : Decimal.value n.whole < 2 ^ 64) :
      Denotes n (.unsigned (UInt64.ofNat (Decimal.value n.whole)))
  | integer (plain : n.type = .integer) (fits : Decimal.value n.whole ≤ 2 ^ 63) :
      Denotes n (.integer (Int64.ofInt (-Decimal.value n.whole)))
  | float (other : n.type = .float ∨ n.type = .unsigned ∧ 2 ^ 64 ≤ Decimal.value n.whole ∨
        n.type = .integer ∧ 2 ^ 63 < Decimal.value n.whole)
      (finite : n.magnitude < 2 ^ 1024 - 2 ^ 970) : Denotes n .float

section
variable (n : Numeral)

def frontText (n : Numeral) : Bytes := signText n.negative ++ n.whole ++ fractionText n.fraction

theorem isMark_of_digit {byte : Byte} (digit : isDigit byte = true) : isMark byte = false := by
  revert byte
  decide +kernel

theorem unmarked_front : ∀ byte ∈ frontText n, (!isMark byte) = true := by
  intro byte member
  have plain : isMark byte = false := by
    rcases List.mem_append.mp member with early | point
    · rcases List.mem_append.mp early with sign | whole
      · cases negative : n.negative with
        | false => rw [negative] at sign; cases sign
        | true => rw [negative] at sign; rw [List.mem_singleton.mp sign]; decide
      · exact isMark_of_digit (n.isWhole.1.2 byte whole)
    · cases fraction : n.fraction with
      | none => rw [fraction] at point; cases point
      | some digits =>
        rw [fraction] at point
        rcases List.mem_cons.mp point with rfl | later
        · decide
        · exact isMark_of_digit ((n.isFraction digits fraction).2 byte later)
  rw [plain]
  rfl

theorem exponent_head : ∀ byte ∈ (exponentText n.exponent).head?, isMark byte = true := by
  intro byte first
  cases exponent : n.exponent with
  | none => rw [exponent] at first; cases first
  | some parts => rw [exponent] at first; cases first; exact parts.marked

theorem takeWhile_text : (n.text.takeWhile fun byte => !isMark byte) = frontText n := by
  change ((frontText n ++ exponentText n.exponent).takeWhile _) = _
  rw [List.takeWhile_append_of_pos (unmarked_front n)]
  cases opened : exponentText n.exponent with
  | nil => rw [List.takeWhile_nil, List.append_nil]
  | cons mark more =>
    have marked := exponent_head n mark (by rw [opened]; rfl)
    rw [List.takeWhile_cons_of_neg (by rw [marked]; exact Bool.false_ne_true), List.append_nil]

theorem dropWhile_text : (n.text.dropWhile fun byte => !isMark byte) = exponentText n.exponent := by
  change ((frontText n ++ exponentText n.exponent).dropWhile _) = _
  rw [List.dropWhile_append_of_pos (unmarked_front n)]
  cases opened : exponentText n.exponent with
  | nil => rfl
  | cons mark more =>
    have marked := exponent_head n mark (by rw [opened]; rfl)
    rw [List.dropWhile_cons_of_neg (by rw [marked]; exact Bool.false_ne_true)]

theorem filter_front : (frontText n).filter isDigit = n.whole ++ n.fraction.getD [] := by
  have signs : (signText n.negative).filter isDigit = [] := by
    cases n.negative <;> rfl
  have whole : n.whole.filter isDigit = n.whole := List.filter_eq_self.mpr n.isWhole.1.2
  rw [frontText, List.filter_append, List.filter_append, signs, List.nil_append, whole]
  cases fraction : n.fraction with
  | none => rfl
  | some digits =>
    have kept : digits.filter isDigit = digits :=
      List.filter_eq_self.mpr (n.isFraction digits fraction).2
    rw [fractionText, List.filter_cons_of_neg (by decide), kept, Option.getD_some]

theorem fraction_front : ((frontText n).dropWhile fun byte => byte ≠ 46).tail = n.fraction.getD [] := by
  have before : ∀ byte ∈ signText n.negative ++ n.whole, (decide (byte ≠ 46)) = true := by
    intro byte member
    apply decide_eq_true
    rcases List.mem_append.mp member with sign | whole
    · cases negative : n.negative with
      | false => rw [negative] at sign; cases sign
      | true => rw [negative] at sign; rw [List.mem_singleton.mp sign]; decide
    · exact isDigit_ne (n.isWhole.1.2 byte whole) (by decide)
  rw [frontText, List.dropWhile_append_of_pos before]
  cases n.fraction with
  | none => rfl
  | some digits => rfl

theorem exponentValue_text : exponentValue (exponentText n.exponent).tail = exponentOf n.exponent := by
  cases n.exponent with
  | none => rfl
  | some exponent =>
    obtain ⟨mark, sign, digits, marked, signs, isDigits⟩ := exponent
    change exponentValue (sign.toList ++ digits) = Exponent.value _
    cases sign with
    | none =>
      obtain ⟨byte, more, rfl⟩ := List.exists_cons_of_ne_nil isDigits.1
      have digit := head_digit isDigits byte rfl
      have minus : byte ≠ 45 := isDigit_ne digit (by decide)
      have plus : byte ≠ 43 := isDigit_ne digit (by decide)
      simp [exponentValue, Exponent.value, minus, plus]
    | some sign =>
      rcases signs sign rfl with rfl | rfl
      · rfl
      · rfl

theorem overflow_cast : (overflow : ℚ) = 2 ^ 1024 - 2 ^ 970 := by
  have smaller : (2 ^ 970 : ℕ) ≤ 2 ^ 1024 := pow_le_pow_right₀ (by decide) (by decide)
  rw [overflow, Nat.cast_sub smaller, Nat.cast_pow, Nat.cast_pow]
  rfl

/-- The comparison without fractions. -/
theorem scaled_lt (digits limit : Nat) (scale : Int) :
    (if 0 ≤ scale then decide (digits * 10 ^ scale.toNat < limit)
      else decide (digits < limit * 10 ^ (-scale).toNat)) = true ↔
      (digits : ℚ) * 10 ^ scale < limit := by
  split
  next nonneg =>
    obtain ⟨power, rfl⟩ := Int.eq_ofNat_of_zero_le nonneg
    rw [decide_eq_true_iff, Int.toNat_natCast, zpow_natCast, ← Nat.cast_lt (α := ℚ)]
    push_cast
    rfl
  next negative =>
    obtain ⟨power, same⟩ := Int.eq_ofNat_of_zero_le (by omega : 0 ≤ -scale)
    have inverse : scale = -(power : ℤ) := by omega
    have positive : (0 : ℚ) < 10 ^ power := by positivity
    rw [decide_eq_true_iff, inverse, neg_neg, Int.toNat_natCast, zpow_neg, zpow_natCast,
      ← div_eq_mul_inv, div_lt_iff₀ positive, ← Nat.cast_lt (α := ℚ)]
    push_cast
    rfl

theorem isFinite_text : isFinite n.text = true ↔ n.magnitude < 2 ^ 1024 - 2 ^ 970 := by
  have compared := scaled_lt (Decimal.value (n.whole ++ n.fraction.getD [])) overflow
    (exponentOf n.exponent - (n.fraction.getD []).length)
  rw [overflow_cast] at compared
  simp only [isFinite, takeWhile_text, filter_front, fraction_front, dropWhile_text, exponentValue_text]
  exact compared

variable {n} {leaf : Leaf}

theorem type_cases (n : Numeral) : n.type = .float ∨
    n.type = integral n.negative ∧ n.text = signText n.negative ++ n.whole := by
  by_cases plain : n.fraction = none ∧ n.exponent.isNone
  · obtain ⟨whole, short⟩ := plain
    refine .inr ⟨if_pos ⟨whole, short⟩, ?_⟩
    rw [Numeral.text, whole, Option.isNone_iff_eq_none.mp short, fractionText, exponentText,
      List.append_nil, List.append_nil]
  · exact .inl (if_neg plain)

theorem text_of_unsigned (plain : n.type = .unsigned) : n.text = n.whole := by
  rcases type_cases n with float | ⟨type, text⟩
  · rw [float] at plain; cases plain
  · cases negative : n.negative with
    | false => rw [text, negative]; rfl
    | true => rw [type, negative] at plain; cases plain

theorem text_of_integer (plain : n.type = .integer) : n.text = 45 :: n.whole := by
  rcases type_cases n with float | ⟨type, text⟩
  · rw [float] at plain; cases plain
  · cases negative : n.negative with
    | false => rw [type, negative] at plain; cases plain
    | true => rw [text, negative]; rfl

theorem float_eq_some : (if isFinite n.text then some Leaf.float else none) = some leaf ↔
    n.magnitude < 2 ^ 1024 - 2 ^ 970 ∧ leaf = .float := by
  rw [Option.ite_none_right_eq_some, isFinite_text, Option.some.injEq, eq_comm (a := Leaf.float)]

theorem convert_eq_some : convert n.type n.text = some leaf ↔ Denotes n leaf := by
  constructor
  · intro converted
    cases type : n.type with
    | float =>
      simp only [convert, type] at converted
      obtain ⟨finite, rfl⟩ := float_eq_some.mp converted
      exact .float (.inl type) finite
    | unsigned =>
      simp only [convert, type, strtoull] at converted
      split at converted
      next fits =>
        cases converted
        rw [text_of_unsigned type] at fits ⊢
        exact .unsigned type fits
      next wide =>
        rw [Option.map_none, Option.none_or] at converted
        obtain ⟨finite, rfl⟩ := float_eq_some.mp converted
        rw [text_of_unsigned type] at wide
        exact .float (.inr (.inl ⟨type, not_lt.mp wide⟩)) finite
    | integer =>
      simp only [convert, type, strtoll] at converted
      split at converted
      next fits =>
        cases converted
        rw [text_of_integer type] at fits ⊢
        exact .integer type fits
      next wide =>
        rw [Option.map_none, Option.none_or] at converted
        obtain ⟨finite, rfl⟩ := float_eq_some.mp converted
        rw [text_of_integer type] at wide
        exact .float (.inr (.inr ⟨type, not_le.mp wide⟩)) finite
  · intro denotes
    cases denotes with
    | unsigned type fits =>
      simp only [convert, type, strtoull, text_of_unsigned type, if_pos fits, Option.map_some, Option.some_or]
    | integer type fits =>
      have read : Decimal.value n.text.tail ≤ 2 ^ 63 := by rw [text_of_integer type]; exact fits
      simp only [convert, type, strtoll, if_pos read, Option.map_some, Option.some_or]
      rw [text_of_integer type, List.tail_cons]
    | float other finite =>
      have float := float_eq_some.mpr ⟨finite, rfl⟩
      rcases other with type | ⟨type, wide⟩ | ⟨type, wide⟩
      · simp only [convert, type, float]
      · have read : ¬Decimal.value n.text < 2 ^ 64 := by
          rw [text_of_unsigned type]
          exact not_lt.mpr wide
        simp only [convert, type, strtoull, if_neg read, Option.map_none, Option.none_or, float]
      · have read : ¬Decimal.value n.text.tail ≤ 2 ^ 63 := by
          rw [text_of_integer type]
          exact not_le.mpr wide
        simp only [convert, type, strtoll, if_neg read, Option.map_none, Option.none_or, float]

theorem of_scanNumber {text rest : Bytes} (scanned : scanNumber text = some (leaf, rest)) :
    ∃ n : Numeral, Denotes n leaf ∧ text = n.text ++ rest := by
  obtain ⟨⟨⟨⟨label, type⟩, buffer⟩, behind⟩, munched, further⟩ := Option.bind_eq_some_iff.mp scanned
  obtain ⟨_, converted, same⟩ := Option.map_eq_some_iff.mp further
  cases same
  obtain ⟨rfl, followed, done, -⟩ := munch_eq_some.mp munched
  have reads := read_follow .init followed
  obtain ⟨n, rfl, rfl⟩ := numeral_of_read reads done
  exact ⟨n, convert_eq_some.mp converted, rfl⟩

theorem scanNumber_append {rest : Bytes} (denotes : Denotes n leaf) (stops : Stops rest) :
    scanNumber (n.text ++ rest) = some (leaf, rest) := by
  obtain ⟨label, munched⟩ := munch_numeral n stops
  rw [scanNumber, munched, Option.bind_some]
  simp only [convert_eq_some.mpr denotes, Option.map_some]

end

end ModbusDatabase.JsonNumbers
