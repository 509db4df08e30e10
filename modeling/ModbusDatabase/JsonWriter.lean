import Mathlib.Data.Nat.Bitwise
import ModbusDatabase.JsonParser

/-! `dump`: from a document to its text, without indentation and with strict handling
of what is not UTF-8. -/

namespace ModbusDatabase.JsonWriter
open Library Message JsonLexer JsonNumbers JsonSpelling JsonParser
open Report hiding isDigit
set_option autoImplicit false

/-! Integers. The digits are counted first, and then written from the last one. -/

def countDigits : Nat → Nat → Nat → Nat
  | 0, count, _ => count
  | fuel + 1, count, number =>
    if number < 10 then count
    else if number < 100 then count + 1
    else if number < 1000 then count + 2
    else if number < 10000 then count + 3
    else countDigits fuel (count + 4) (number / 10000)

/-- The two digits of a number below 100. -/
def digitsTo99 (index : Nat) : Byte × Byte := (Decimal.digit (index / 10), Decimal.digit (index % 10))

/-- Two digits in front of the position. -/
def putPair (buffer : Bytes) (position index : Nat) : Bytes :=
  (buffer.set (position - 1) (digitsTo99 index).2).set (position - 2) (digitsTo99 index).1

def fillDigits : Nat → Bytes → Nat → Nat → Bytes
  | 0, buffer, _, _ => buffer
  | fuel + 1, buffer, position, number =>
    if 100 ≤ number then
      fillDigits fuel (putPair buffer position (number % 100)) (position - 2) (number / 100)
    else if 10 ≤ number then putPair buffer position number
    else buffer.set (position - 1) (Decimal.digit number)

/-- The digits of a number that is not zero, behind what the buffer starts with. -/
def dumpDigits (buffer : Bytes) (front number : Nat) : Bytes :=
  let count := front + countDigits 5 1 number
  (fillDigits count buffer count number).take count

def numberBuffer : Bytes := List.replicate 64 0

/-- The absolute value of a negative number. -/
def removeSign (number : Int64) : UInt64 := (-(number + 1)).toUInt64 + 1

def dumpUnsigned (number : UInt64) : Bytes :=
  if number = 0 then [48] else dumpDigits numberBuffer 0 number.toNat

def dumpSigned (number : Int64) : Bytes :=
  if number = 0 then [48]
  else if number < 0 then dumpDigits (numberBuffer.set 0 45) 1 (removeSign number).toNat
  else dumpDigits numberBuffer 0 number.toUInt64.toNat

/-! Strings. -/

/-- The table of the decoder in rows of 16: the classes of the bytes, and for each state
the states behind the classes. -/
def utf8d : List (List Nat) :=
  [[0, 0, 0, 0, 0, 0, 0, 0, 0, 0, 0, 0, 0, 0, 0, 0],
    [0, 0, 0, 0, 0, 0, 0, 0, 0, 0, 0, 0, 0, 0, 0, 0],
    [0, 0, 0, 0, 0, 0, 0, 0, 0, 0, 0, 0, 0, 0, 0, 0],
    [0, 0, 0, 0, 0, 0, 0, 0, 0, 0, 0, 0, 0, 0, 0, 0],
    [0, 0, 0, 0, 0, 0, 0, 0, 0, 0, 0, 0, 0, 0, 0, 0],
    [0, 0, 0, 0, 0, 0, 0, 0, 0, 0, 0, 0, 0, 0, 0, 0],
    [0, 0, 0, 0, 0, 0, 0, 0, 0, 0, 0, 0, 0, 0, 0, 0],
    [0, 0, 0, 0, 0, 0, 0, 0, 0, 0, 0, 0, 0, 0, 0, 0],
    [1, 1, 1, 1, 1, 1, 1, 1, 1, 1, 1, 1, 1, 1, 1, 1],
    [9, 9, 9, 9, 9, 9, 9, 9, 9, 9, 9, 9, 9, 9, 9, 9],
    [7, 7, 7, 7, 7, 7, 7, 7, 7, 7, 7, 7, 7, 7, 7, 7],
    [7, 7, 7, 7, 7, 7, 7, 7, 7, 7, 7, 7, 7, 7, 7, 7],
    [8, 8, 2, 2, 2, 2, 2, 2, 2, 2, 2, 2, 2, 2, 2, 2],
    [2, 2, 2, 2, 2, 2, 2, 2, 2, 2, 2, 2, 2, 2, 2, 2],
    [10, 3, 3, 3, 3, 3, 3, 3, 3, 3, 3, 3, 3, 4, 3, 3],
    [11, 6, 6, 6, 5, 8, 8, 8, 8, 8, 8, 8, 8, 8, 8, 8],
    [0, 1, 2, 3, 5, 8, 7, 1, 1, 1, 4, 6, 1, 1, 1, 1],
    [1, 1, 1, 1, 1, 1, 1, 1, 1, 1, 1, 1, 1, 1, 1, 1],
    [1, 0, 1, 1, 1, 1, 1, 0, 1, 0, 1, 1, 1, 1, 1, 1],
    [1, 2, 1, 1, 1, 1, 1, 2, 1, 2, 1, 1, 1, 1, 1, 1],
    [1, 1, 1, 1, 1, 1, 1, 2, 1, 1, 1, 1, 1, 1, 1, 1],
    [1, 2, 1, 1, 1, 1, 1, 1, 1, 2, 1, 1, 1, 1, 1, 1],
    [1, 1, 1, 1, 1, 1, 1, 3, 1, 3, 1, 1, 1, 1, 1, 1],
    [1, 3, 1, 1, 1, 1, 1, 3, 1, 3, 1, 1, 1, 1, 1, 1],
    [1, 3, 1, 1, 1, 1, 1, 1, 1, 1, 1, 1, 1, 1, 1, 1]]

def entry (index : Nat) : Nat := (utf8d.getD (index / 16) []).getD (index % 16) 1

/-- The next state, with 0 behind a code point and 1 behind an error, and the code point so far. -/
def decode (state codePoint : Nat) (byte : Byte) : Nat × Nat :=
  let type := entry byte.val
  (entry (256 + state * 16 + type),
    if state ≠ 0 then (byte.val &&& 0x3F) ||| (codePoint <<< 6) else (0xFF >>> type) &&& byte.val)

def hexChar (digit : Nat) : Byte := Utf8.byte (if digit < 10 then 48 + digit else 87 + digit)

/-- `%04x` -/
def hexText (value : Nat) : Bytes :=
  [hexChar (value / 0x1000 % 16), hexChar (value / 0x100 % 16), hexChar (value / 0x10 % 16),
    hexChar (value % 16)]

/-- What is written when a byte completes a code point. -/
def escaped (codePoint : Nat) (byte : Byte) : Bytes :=
  if codePoint = 0x08 then bytes "\\b"
  else if codePoint = 0x09 then bytes "\\t"
  else if codePoint = 0x0A then bytes "\\n"
  else if codePoint = 0x0C then bytes "\\f"
  else if codePoint = 0x0D then bytes "\\r"
  else if codePoint = 0x22 then bytes "\\\""
  else if codePoint = 0x5C then bytes "\\\\"
  else if codePoint ≤ 0x1F then bytes "\\u" ++ hexText codePoint
  else [byte]

/-- `dump_escaped`, from a state of the decoder; `none` stands for the exception. -/
def dumpEscaped : Nat → Nat → Bytes → Option Bytes
  | state, _, [] => if state = 0 then some [] else none
  | state, codePoint, byte :: text =>
    let decoded := decode state codePoint byte
    if decoded.1 = 0 then (dumpEscaped 0 decoded.2 text).map fun rest => escaped decoded.2 byte ++ rest
    else if decoded.1 = 1 then none
    else (dumpEscaped decoded.1 decoded.2 text).map fun rest => byte :: rest

def dumpString (text : Bytes) : Option Bytes :=
  (dumpEscaped 0 0 text).map fun inner => 34 :: (inner ++ [34])

/-! Documents. The documents keep no digits of a float, so its text is left open. -/

mutual

def dump (float : Bytes) : Json → Option Bytes
  | .null => some (bytes "null")
  | .boolean value => some (if value then bytes "true" else bytes "false")
  | .integer value => some (dumpSigned value)
  | .unsigned value => some (dumpUnsigned value)
  | .float => some float
  | .string text => dumpString text
  | .array items => (dumpItems float items).map fun inner => 91 :: (inner ++ [93])
  | .object fields => (dumpFields float fields).map fun inner => 123 :: (inner ++ [125])

def dumpItems (float : Bytes) : List Json → Option Bytes
  | [] => some []
  | [item] => dump float item
  | item :: items => do
    let first ← dump float item
    let rest ← dumpItems float items
    return first ++ 44 :: rest

def dumpFields (float : Bytes) : List (Bytes × Json) → Option Bytes
  | [] => some []
  | [(key, item)] => do
    let name ← dumpString key
    let value ← dump float item
    return name ++ 58 :: value
  | (key, item) :: fields => do
    let name ← dumpString key
    let value ← dump float item
    let rest ← dumpFields float fields
    return name ++ 58 :: (value ++ 44 :: rest)

end

/-! Integers are written as decimal numerals. -/

section
variable {number fuel count : Nat}

theorem length_render (number : Nat) : (Decimal.render number).length =
    if number < 10 then 1 else (Decimal.render (number / 10)).length + 1 := by
  split
  next small => rw [Decimal.render_of_lt small, List.length_singleton]
  next large => rw [Decimal.render_of_le (not_lt.mp large), List.length_append, List.length_singleton]

/-- Four digits for each turn of the loop are enough. -/
theorem countDigits_eq (enough : number < 10 ^ (4 * fuel)) :
    countDigits fuel (count + 1) number = count + (Decimal.render number).length := by
  induction fuel generalizing count number with
  | zero =>
    have zero : number = 0 := by simpa using enough
    rw [countDigits, zero]
    rfl
  | succ fuel ih =>
    rw [countDigits, length_render, length_render, length_render, length_render]
    split
    next => rfl
    next =>
    split
    next => rw [if_pos (by omega)]
    next =>
    split
    next => rw [if_neg (by omega), if_pos (by omega)]
    next =>
    split
    next => rw [if_neg (by omega), if_neg (by omega), if_pos (by omega)]
    next =>
      have rest : number / 10 / 10 / 10 / 10 = number / 10000 := by omega
      have fewer : number / 10000 < 10 ^ (4 * fuel) := by
        have split : 10 ^ (4 * (fuel + 1)) = 10 ^ (4 * fuel) * 10000 := by
          rw [Nat.mul_add, Nat.pow_add]
        exact Nat.div_lt_of_lt_mul (by rw [Nat.mul_comm, ← split]; exact enough)
      rw [if_neg (by omega), if_neg (by omega), if_neg (by omega), rest,
        show count + 1 + 4 = count + 4 + 1 by omega, ih fewer]
      omega

theorem putPair_append (front behind : Bytes) (first second : Byte) (index : Nat) :
    putPair (front ++ first :: second :: behind) (front.length + 2) index =
      front ++ (digitsTo99 index).1 :: (digitsTo99 index).2 :: behind := by
  rw [putPair, show front.length + 2 - 1 = front.length + 1 by omega, Nat.add_sub_cancel,
    List.set_append_right _ _ (Nat.le_add_right _ _), Nat.add_sub_cancel_left,
    List.set_append_right _ _ le_rfl, Nat.sub_self]
  rfl

theorem render_pair (large : 100 ≤ number) : Decimal.render number =
    Decimal.render (number / 100) ++ [(digitsTo99 (number % 100)).1, (digitsTo99 (number % 100)).2] := by
  have tens : number / 10 / 10 = number / 100 := by omega
  have ten : number / 10 % 10 = number % 100 / 10 := by omega
  have one : number % 10 = number % 100 % 10 := by omega
  rw [Decimal.render_of_le (by omega), Decimal.render_of_le (by omega : 10 ≤ number / 10), tens, ten, one,
    List.append_assoc]
  rfl

theorem split_last {blank : Bytes} {length : Nat} (room : blank.length = length + 1) :
    ∃ inner last, blank = inner ++ [last] ∧ inner.length = length := by
  rcases List.eq_nil_or_concat blank with rfl | ⟨inner, last, rfl⟩
  · cases room
  · rw [List.concat_eq_append, List.length_append] at room
    exact ⟨inner, last, List.concat_eq_append, Nat.succ.inj room⟩

/-- The loop fills exactly the places that the digits take. -/
theorem fillDigits_append (before blank behind : Bytes)
    (room : blank.length = (Decimal.render number).length) (turns : blank.length ≤ fuel) :
    fillDigits fuel (before ++ (blank ++ behind)) (before.length + blank.length) number =
      before ++ (Decimal.render number ++ behind) := by
  induction fuel generalizing number blank behind with
  | zero =>
    have some := List.length_pos_iff.mpr (Decimal.render_ne_nil number)
    omega
  | succ fuel ih =>
    rw [fillDigits]
    split
    next large =>
      rw [render_pair large, List.length_append] at room
      obtain ⟨front, second, rfl, rest⟩ := split_last room
      obtain ⟨inner, first, rfl, left⟩ := split_last rest
      have placed := putPair_append (before ++ inner) behind first second (number % 100)
      rw [List.length_append, List.append_assoc] at placed
      rw [List.length_append, List.length_append, List.length_singleton, List.length_singleton] at turns
      rw [List.append_assoc, List.append_assoc, List.singleton_append, List.singleton_append,
        List.length_append, List.length_append, List.length_singleton, List.length_singleton,
        show before.length + (inner.length + 1 + 1) = before.length + inner.length + 2 by omega,
        placed, Nat.add_sub_cancel, List.append_assoc, ih inner _ left (by omega), render_pair large,
        List.append_assoc]
      rfl
    next few =>
    split
    next large =>
      have first : number / 10 < 10 := by omega
      have one : number % 10 < 10 := by omega
      have digits : Decimal.render number = [(digitsTo99 number).1, (digitsTo99 number).2] := by
        rw [Decimal.render_of_le large, Decimal.render_of_lt first]
        rfl
      rw [digits] at room
      obtain ⟨front, second, rfl, rest⟩ := split_last room
      obtain ⟨inner, first, rfl, left⟩ := split_last rest
      rw [List.length_eq_zero_iff.mp left]
      have placed := putPair_append before behind first second number
      rw [digits]
      exact placed
    next small =>
      have digits := Decimal.render_of_lt (not_le.mp small)
      rw [digits] at room
      obtain ⟨inner, last, rfl, left⟩ := split_last room
      rw [List.length_eq_zero_iff.mp left, digits, List.nil_append, List.length_singleton,
        Nat.add_sub_cancel, List.set_append_right _ _ le_rfl, Nat.sub_self]
      rfl

theorem dumpDigits_eq {buffer before : Bytes} {front : Nat} (small : number < 10 ^ 20)
    (opened : buffer.take front = before) (room : front + 20 ≤ buffer.length) :
    dumpDigits buffer front number = before ++ Decimal.render number := by
  have counted : countDigits 5 (0 + 1) number = 0 + (Decimal.render number).length :=
    countDigits_eq small
  rw [Nat.zero_add, Nat.zero_add] at counted
  have short := (Decimal.length_render_le_iff (by decide : 0 < 20) number).mpr small
  have front_length : before.length = front := by
    rw [← opened, List.length_take]
    omega
  have blank_length : ((buffer.drop front).take (Decimal.render number).length).length =
      (Decimal.render number).length := by
    rw [List.length_take, List.length_drop]
    omega
  have whole : buffer = before ++ ((buffer.drop front).take (Decimal.render number).length ++
      (buffer.drop front).drop (Decimal.render number).length) := by
    rw [List.take_append_drop, ← opened, List.take_append_drop]
  have turns : ((buffer.drop front).take (Decimal.render number).length).length ≤
      front + (Decimal.render number).length := by
    rw [blank_length]
    exact Nat.le_add_left _ _
  have filled := fillDigits_append before _ ((buffer.drop front).drop (Decimal.render number).length)
    blank_length turns
  rw [← whole, blank_length, front_length] at filled
  have total : front + (Decimal.render number).length = (before ++ Decimal.render number).length := by
    rw [List.length_append, front_length]
  rw [dumpDigits, counted]
  simp only [filled]
  rw [total, ← List.append_assoc, List.take_left]

theorem toNat_removeSign {number : Int64} (negative : number < 0) :
    (removeSign number).toNat = number.toInt.natAbs := by
  have below : number.toBitVec.toInt < 0 := by simpa [Int64.lt_iff_toInt_lt] using negative
  change (-(number.toBitVec + 1) + 1).toNat = number.toBitVec.toInt.natAbs
  generalize number.toBitVec = word at below
  have bound := word.isLt
  rw [BitVec.toInt_eq_toNat_cond] at below ⊢
  split at below
  next => omega
  next high =>
    rw [if_neg high]
    simp only [BitVec.toNat_add, BitVec.toNat_neg, BitVec.reduceToNat]
    omega

theorem toNat_toUInt64 {number : Int64} (nonneg : ¬number < 0) :
    number.toUInt64.toNat = number.toInt.natAbs := by
  have above : ¬number.toBitVec.toInt < 0 := by simpa [Int64.lt_iff_toInt_lt] using nonneg
  change number.toBitVec.toNat = number.toBitVec.toInt.natAbs
  generalize number.toBitVec = word at above
  have bound := word.isLt
  rw [BitVec.toInt_eq_toNat_cond] at above ⊢
  split at above
  next low => rw [if_pos low]; omega
  next => omega

theorem lt_of_uint64 (number : UInt64) : number.toNat < 10 ^ 20 :=
  number.toNat_lt.trans (by decide)

/-- The numeral of an integer. -/
def numeralText (number : Int) : Bytes :=
  signText (decide (number < 0)) ++ Decimal.render number.natAbs

theorem dumpUnsigned_eq (number : UInt64) : dumpUnsigned number = numeralText number.toNat := by
  have nonneg : decide ((number.toNat : Int) < 0) = false := decide_eq_false (by omega)
  rw [dumpUnsigned, numeralText, nonneg, Int.natAbs_natCast]
  split
  next zero => rw [zero]; rfl
  next => exact dumpDigits_eq (lt_of_uint64 number) rfl (by decide)

theorem dumpSigned_eq (number : Int64) : dumpSigned number = numeralText number.toInt := by
  rw [dumpSigned, numeralText]
  split
  next zero => rw [zero]; rfl
  next =>
  split
  next negative =>
    have below : number.toInt < 0 := by simpa [Int64.lt_iff_toInt_lt] using negative
    rw [← toNat_removeSign negative, decide_eq_true below]
    exact dumpDigits_eq (lt_of_uint64 _) rfl (by decide)
  next nonneg =>
    have above : ¬number.toInt < 0 := by simpa [Int64.lt_iff_toInt_lt] using nonneg
    rw [← toNat_toUInt64 nonneg, decide_eq_false above]
    exact dumpDigits_eq (lt_of_uint64 _) rfl (by decide)

end

/-- Counting first and filling from the end gives the numeral of every 64-bit integer. -/
theorem integers_written (signed : Int64) (unsigned : UInt64) :
    dumpSigned signed = numeralText signed.toInt ∧ dumpUnsigned unsigned = numeralText unsigned.toNat :=
  ⟨dumpSigned_eq signed, dumpUnsigned_eq unsigned⟩

/-! The decoder follows the byte ranges of UTF-8. -/

section
variable {state codePoint : Nat} {byte : Byte} {text out : Bytes}

def nextState (state : Nat) (byte : Byte) : Nat := (decode state 0 byte).1

/-- The bytes that a state waits for. -/
def expects : Nat → List (Byte × Byte)
  | 2 => [(0x80, 0xBF)]
  | 3 => [(0x80, 0xBF), (0x80, 0xBF)]
  | 4 => [(0xA0, 0xBF), (0x80, 0xBF)]
  | 5 => [(0x80, 0x9F), (0x80, 0xBF)]
  | 6 => [(0x90, 0xBF), (0x80, 0xBF), (0x80, 0xBF)]
  | 7 => [(0x80, 0xBF), (0x80, 0xBF), (0x80, 0xBF)]
  | 8 => [(0x80, 0x8F), (0x80, 0xBF), (0x80, 0xBF)]
  | _ => []

/-- What the code point of a state has reached. -/
def floor : Nat → Nat
  | 0 => 128
  | 2 => 2
  | 3 | 5 | 7 | 8 => 1
  | _ => 0

/-- The states inside a code point. -/
def inner : List Nat := [2, 3, 4, 5, 6, 7, 8]

/-- The state behind a byte that a state waits for. -/
def successor : Nat → Nat
  | 2 => 0
  | 3 | 4 | 5 => 2
  | 6 | 7 | 8 => 3
  | _ => 1

/-- The byte that a state waits for next. -/
def range (state : Nat) : Byte × Byte := (expects state).headD (0, 0)

theorem nextState_lead (byte : Byte) :
    nextState 0 byte = 1 ∧ Utf8.trailing byte = none ∨
      nextState 0 byte = 0 ∧ Utf8.trailing byte = some [] ∧ (decode 0 0 byte).2 = byte.val ∨
      nextState 0 byte ∈ inner ∧ Utf8.trailing byte = some (expects (nextState 0 byte)) ∧
        floor (nextState 0 byte) ≤ (decode 0 0 byte).2 := by
  revert byte
  decide +kernel

theorem nextState_inner : ∀ state ∈ inner, ∀ byte : Byte, nextState state byte =
    if (range state).1 ≤ byte ∧ byte ≤ (range state).2 then successor state else 1 := by
  decide +kernel

theorem expects_successor : ∀ state ∈ inner,
    (successor state = 0 ∨ successor state ∈ inner) ∧
      expects state = range state :: expects (successor state) := by
  decide

theorem floor_successor : ∀ state ∈ inner, floor (successor state) ≤ floor state * 64 ∨
    ∀ byte : Byte, (range state).1 ≤ byte → floor (successor state) ≤ byte.val &&& 0x3F ∨ 0xBF < byte := by
  decide +kernel

theorem state_ne_zero (inside : state ∈ inner) : state ≠ 0 := by
  rintro rfl
  exact absurd inside (by decide)

theorem decode_inner (inside : state ∈ inner) (byte : Byte) : decode state codePoint byte =
    (nextState state byte, (byte.val &&& 0x3F) ||| (codePoint <<< 6)) := by
  rw [decode, if_pos (state_ne_zero inside)]
  rfl

/-- No byte makes the code point fall behind. -/
theorem floor_le (inside : state ∈ inner) (reached : floor state ≤ codePoint)
    (within : (range state).1 ≤ byte ∧ byte ≤ (range state).2) :
    floor (successor state) ≤ (byte.val &&& 0x3F) ||| (codePoint <<< 6) := by
  have shifted : floor state * 64 ≤ codePoint <<< 6 := by
    rw [Nat.shiftLeft_eq]
    exact Nat.mul_le_mul_right 64 reached
  have last : ∀ state ∈ inner, (range state).2 ≤ (0xBF : Byte) := by decide
  rcases floor_successor state inside with before | here
  · exact (before.trans shifted).trans Nat.right_le_or
  · rcases here byte within.1 with enough | beyond
    · exact enough.trans Nat.left_le_or
    · exact absurd (within.2.trans (last state inside)) (not_le.mpr beyond)

theorem escaped_of_le (large : 128 ≤ codePoint) : escaped codePoint byte = [byte] := by
  unfold escaped
  rw [if_neg (by omega), if_neg (by omega), if_neg (by omega), if_neg (by omega), if_neg (by omega),
    if_neg (by omega), if_neg (by omega), if_neg (by omega)]

/-- Between code points the last one makes no difference. -/
theorem dumpEscaped_zero (codePoint : Nat) (text : Bytes) :
    dumpEscaped 0 codePoint text = dumpEscaped 0 0 text := by
  cases text with
  | nil => rfl
  | cons byte text => rfl

/-- The text goes on with bytes of these ranges, which are copied. -/
def Completes (ranges : List (Byte × Byte)) (text out : Bytes) : Prop :=
  ∃ more rest written, text = more ++ rest ∧ Glob.fits ranges more = true ∧
    dumpEscaped 0 0 rest = some written ∧ out = more ++ written

theorem completes_nil : Completes [] text out ↔ dumpEscaped 0 0 text = some out := by
  constructor
  · rintro ⟨more, rest, written, rfl, fit, dumped, rfl⟩
    rw [List.length_eq_zero_iff.mp (Glob.length_of_fits fit)]
    exact dumped
  · intro dumped
    exact ⟨[], text, out, rfl, rfl, dumped, rfl⟩

theorem completes_cons {low high : Byte} {ranges : List (Byte × Byte)} :
    Completes ((low, high) :: ranges) (byte :: text) out ↔
      (low ≤ byte ∧ byte ≤ high) ∧ ∃ behind, Completes ranges text behind ∧ out = byte :: behind := by
  constructor
  · rintro ⟨more, rest, written, split, fit, dumped, rfl⟩
    cases more with
    | nil => cases fit
    | cons first more =>
      obtain ⟨rfl, rfl⟩ := List.cons.inj split
      obtain ⟨within, fit⟩ := Glob.fits_cons.mp fit
      exact ⟨within, more ++ written, ⟨more, rest, written, rfl, fit, dumped, rfl⟩, rfl⟩
  · rintro ⟨within, _, ⟨more, rest, written, rfl, fit, dumped, rfl⟩, rfl⟩
    exact ⟨byte :: more, rest, written, rfl, Glob.fits_cons.mpr ⟨within, fit⟩, dumped, rfl⟩

/-- Inside a code point the bytes it waits for are copied, and others are an error. -/
theorem dumpEscaped_inner (inside : state ∈ inner) (reached : floor state ≤ codePoint) :
    dumpEscaped state codePoint text = some out ↔ Completes (expects state) text out := by
  induction text generalizing state codePoint out with
  | nil =>
    rw [dumpEscaped, if_neg (state_ne_zero inside), (expects_successor state inside).2]
    constructor
    · intro absent
      cases absent
    · rintro ⟨more, rest, written, split, fit, -⟩
      obtain ⟨rfl, rfl⟩ := List.append_eq_nil_iff.mp split.symm
      cases fit
  | cons byte text ih =>
    obtain ⟨onward, waits⟩ := expects_successor state inside
    rw [waits, completes_cons, dumpEscaped, decode_inner inside, nextState_inner state inside byte]
    by_cases within : (range state).1 ≤ byte ∧ byte ≤ (range state).2
    · have risen := floor_le inside reached within
      simp only [if_pos within]
      rcases onward with complete | more
      · rw [complete] at risen ⊢
        rw [if_pos rfl, escaped_of_le risen, Option.map_eq_some_iff, dumpEscaped_zero]
        simp only [within, and_self, true_and, expects, completes_nil, eq_comm, List.singleton_append]
      · have other : successor state ≠ 1 := by
          intro same
          rw [same] at more
          exact absurd more (by decide)
        rw [if_neg (state_ne_zero more), if_neg other, Option.map_eq_some_iff]
        simp only [within, and_self, true_and, ih more risen, eq_comm]
    · simp only [within, false_and, iff_false]
      exact fun absent => nomatch absent

theorem decode_zero (byte : Byte) : decode 0 codePoint byte = (nextState 0 byte, (decode 0 0 byte).2) := rfl

/-- A code point as it is written. -/
def quoted : Bytes → Bytes
  | [byte] => escaped byte.val byte
  | char => char

/-- The code points of a text, each as it is written. -/
inductive Quoted : Bytes → Bytes → Prop
  | nil : Quoted [] []
  | char (char text out : Bytes) (isChar : Utf8.IsChar char) (rest : Quoted text out) :
      Quoted (char ++ text) (quoted char ++ out)

theorem quoted_long {char : Bytes} (long : 2 ≤ char.length) : quoted char = char := by
  match char, long with
  | _ :: _ :: _, _ => rfl

theorem expects_ne_nil (inside : state ∈ inner) : expects state ≠ [] := by
  rw [(expects_successor state inside).2]
  exact List.cons_ne_nil _ _

theorem dumpEscaped_lead (inside : nextState 0 byte ∈ inner)
    (reached : floor (nextState 0 byte) ≤ (decode 0 0 byte).2) :
    dumpEscaped 0 0 (byte :: text) = some out ↔
      ∃ behind, Completes (expects (nextState 0 byte)) text behind ∧ out = byte :: behind := by
  have other : nextState 0 byte ≠ 1 := by
    intro same
    rw [same] at inside
    exact absurd inside (by decide)
  rw [dumpEscaped, decode_zero]
  simp only [if_neg (state_ne_zero inside), if_neg other, Option.map_eq_some_iff,
    dumpEscaped_inner inside reached]
  exact exists_congr fun _ => and_congr_right fun _ => eq_comm

theorem of_dumpEscaped (dumped : dumpEscaped 0 0 text = some out) : Quoted text out := by
  induction length : text.length using Nat.strong_induction_on generalizing text out with
  | _ length ih =>
    subst length
    cases text with
    | nil => cases dumped; exact .nil
    | cons lead text =>
      rcases nextState_lead lead with ⟨error, -⟩ | ⟨accepts, follow, point⟩ | ⟨inside, follow, reached⟩
      · rw [dumpEscaped, decode_zero, error] at dumped
        cases dumped
      · rw [dumpEscaped, decode_zero, accepts, point, if_pos rfl, dumpEscaped_zero] at dumped
        obtain ⟨behind, later, rfl⟩ := Option.map_eq_some_iff.mp dumped
        exact .char [lead] text behind (.mk lead [] [] follow rfl) (ih _ (Nat.lt_succ_self _) later rfl)
      · obtain ⟨_, ⟨more, rest, written, rfl, fit, later, rfl⟩, rfl⟩ :=
          (dumpEscaped_lead inside reached).mp dumped
        have shorter : rest.length < (lead :: (more ++ rest)).length := by
          rw [List.length_cons, List.length_append]
          omega
        have long : 2 ≤ (lead :: more).length := by
          have nonempty := List.length_pos_iff.mpr (expects_ne_nil inside)
          rw [List.length_cons, Glob.length_of_fits fit]
          omega
        have chars := Quoted.char (lead :: more) rest written (.mk lead more _ follow fit)
          (ih _ shorter later rfl)
        rw [quoted_long long] at chars
        exact chars

theorem dumpEscaped_of_quoted (chars : Quoted text out) : dumpEscaped 0 0 text = some out := by
  induction chars with
  | nil => rfl
  | char char text out isChar rest ih =>
    obtain ⟨lead, more, ranges, follow, fit⟩ := isChar
    rcases nextState_lead lead with ⟨-, none⟩ | ⟨accepts, single, point⟩ | ⟨inside, several, reached⟩
    · rw [none] at follow
      cases follow
    · rw [single] at follow
      cases follow
      rw [List.length_eq_zero_iff.mp (Glob.length_of_fits fit), List.singleton_append, dumpEscaped,
        decode_zero, accepts, point, if_pos rfl, dumpEscaped_zero, ih]
      rfl
    · rw [several] at follow
      cases follow
      have long : 2 ≤ (lead :: more).length := by
        have nonempty := List.length_pos_iff.mpr (expects_ne_nil inside)
        rw [List.length_cons, Glob.length_of_fits fit]
        omega
      rw [quoted_long long]
      exact (dumpEscaped_lead inside reached).mpr ⟨_, ⟨more, text, out, rfl, fit, ih, rfl⟩, rfl⟩

theorem quoted_of_wellFormed (isUtf8 : Utf8.WellFormed text) : ∃ out, Quoted text out := by
  induction isUtf8 with
  | nil => exact ⟨[], .nil⟩
  | cons first rest ih =>
    obtain ⟨out, chars⟩ := ih
    exact ⟨_, .char _ _ out first chars⟩

/-! A written string is a spelling of it. -/

theorem hex_hexText {value : Nat} (small : value < 32) : Hex value (hexText value) := by
  have reads : ∀ value : Fin 32, codePoint (hexChar (value.val / 0x1000 % 16))
      (hexChar (value.val / 0x100 % 16)) (hexChar (value.val / 0x10 % 16)) (hexChar (value.val % 16)) =
        some value.val := by decide +kernel
  exact .mk _ _ _ _ value (reads ⟨value, small⟩)

theorem character_escaped (ascii : byte ≤ 0x7F) : Character [byte] (escaped byte.val byte) := by
  by_cases short : byte ∈ ([8, 9, 10, 12, 13, 34, 92] : Bytes)
  · have kinds : ∀ byte ∈ ([8, 9, 10, 12, 13, 34, 92] : Bytes),
        ∃ kind, (kind, byte) ∈ escapes ∧ escaped byte.val byte = [92, kind] := by
      simp only [List.forall_mem_cons, List.not_mem_nil, false_imp_iff, implies_true, and_true]
      refine ⟨⟨98, ?_⟩, ⟨116, ?_⟩, ⟨110, ?_⟩, ⟨102, ?_⟩, ⟨114, ?_⟩, ⟨34, ?_⟩, ⟨92, ?_⟩⟩ <;> decide
    obtain ⟨kind, known, written⟩ := kinds byte short
    rw [written]
    exact .escape [byte] [kind] (.short kind byte known)
  · simp only [List.mem_cons, List.not_mem_nil, or_false, not_or] at short
    obtain ⟨n8, n9, n10, n12, n13, n34, n92⟩ := short
    have differs : ∀ other : Byte, byte ≠ other → byte.val ≠ other.val :=
      fun other differs same => differs (Fin.ext same)
    have skips : escaped byte.val byte = if byte.val ≤ 0x1F then bytes "\\u" ++ hexText byte.val else [byte] := by
      have apart : byte.val ≠ 0x08 ∧ byte.val ≠ 0x09 ∧ byte.val ≠ 0x0A ∧ byte.val ≠ 0x0C ∧
          byte.val ≠ 0x0D ∧ byte.val ≠ 0x22 ∧ byte.val ≠ 0x5C :=
        ⟨differs 8 n8, differs 9 n9, differs 10 n10, differs 12 n12, differs 13 n13, differs 34 n34,
          differs 92 n92⟩
      simp only [escaped, apart, if_false]
    rw [skips]
    split
    next control =>
      have small : byte.val < 32 := Nat.lt_succ_of_le control
      have encoded : Utf8.encode byte.val = [byte] := by
        rw [Utf8.encode, if_pos (by omega)]
        exact congrArg (fun byte => [byte]) (Fin.ext (Utf8.byte_val byte.isLt))
      have unicode := Unicode.single byte.val (hexText byte.val) (hex_hexText small) (.inl (by omega))
      rw [encoded] at unicode
      exact .escape [byte] _ (.unicode [byte] _ unicode)
    next visible =>
      have shown : (32 : Byte) ≤ byte := Fin.le_def.mpr (not_le.mp visible)
      exact .plain byte [] (Utf8.isChar_ascii ascii) shown n34 n92

theorem character_quoted {char : Bytes} (isChar : Utf8.IsChar char) : Character char (quoted char) := by
  obtain ⟨lead, more, ranges, follow, fit⟩ := isChar
  cases more with
  | nil =>
    have ascii : ∀ lead : Byte, Utf8.trailing lead = some [] → lead ≤ 0x7F := by decide +kernel
    have none : ranges = [] := List.length_eq_zero_iff.mp (Glob.length_of_fits fit).symm
    rw [none] at follow
    exact character_escaped (ascii lead follow)
  | cons byte more =>
    have high : ∀ lead : Byte, lead ≤ 0x7F → Utf8.trailing lead = some [] := by decide +kernel
    have large : (0x7F : Byte) < lead := by
      by_contra low
      rw [high lead (not_lt.mp low)] at follow
      cases follow
      cases fit
    refine .plain lead (byte :: more) (.mk lead _ ranges follow fit) ?_ ?_ ?_
    · exact le_trans (by decide) large.le
    · exact ne_of_gt (lt_trans (by decide) large)
    · exact ne_of_gt (lt_trans (by decide) large)

theorem text_of_quoted (chars : Quoted text out) : Text text (out ++ [34]) := by
  induction chars with
  | nil => exact .stop
  | char char text out isChar rest ih =>
    rw [List.append_assoc]
    exact .item char text _ _ (character_quoted isChar) ih

/-- A written string is a literal of the string. -/
theorem lexeme_of_dumpString (dumped : dumpString text = some out) : Lexeme (.text text) out := by
  obtain ⟨inner, escaped, rfl⟩ := Option.map_eq_some_iff.mp dumped
  exact .text text _ (text_of_quoted (of_dumpEscaped escaped))

/-- Exactly the strings that are UTF-8 can be written. -/
theorem isSome_dumpString : (dumpString text).isSome ↔ Utf8.WellFormed text := by
  constructor
  · intro written
    obtain ⟨out, dumped⟩ := Option.isSome_iff_exists.mp written
    exact wellFormed_of_lexeme (lexeme_of_dumpString dumped)
  · intro isUtf8
    obtain ⟨out, chars⟩ := quoted_of_wellFormed isUtf8
    rw [dumpString, dumpEscaped_of_quoted chars]
    rfl

end

end ModbusDatabase.JsonWriter
