import ModbusDatabase.Library.Records
import ModbusDatabase.Library.Scanner
import ModbusDatabase.Library.Utf8
import ModbusDatabase.Library.Decimal
import ModbusDatabase.Message

/-! The lexer of the JSON library, from the bytes of a payload to its tokens, and
the spelling of each token. Of a floating-point number only its being finite is kept. -/

namespace ModbusDatabase.JsonLexer
open Library Library.Scanner Message
set_option autoImplicit false

inductive Leaf where
  | null
  | boolean (value : Bool)
  | integer (value : Int64)
  | unsigned (value : UInt64)
  | float
  deriving DecidableEq

abbrev Token := Records.Token Bytes Leaf

/-! Strings. -/

def hexDigit (byte : Byte) : Option Nat :=
  if 48 ≤ byte ∧ byte ≤ 57 then some (byte.val - 0x30)
  else if 65 ≤ byte ∧ byte ≤ 70 then some (byte.val - 0x37)
  else if 97 ≤ byte ∧ byte ≤ 102 then some (byte.val - 0x57)
  else none

def codePoint (c1 c2 c3 c4 : Byte) : Option Nat := do
  let d1 ← hexDigit c1
  let d2 ← hexDigit c2
  let d3 ← hexDigit c3
  let d4 ← hexDigit c4
  return d1 * 0x1000 + d2 * 0x100 + d3 * 0x10 + d4

def getCodepoint : Scan Byte Nat
  | c1 :: c2 :: c3 :: c4 :: rest => (codePoint c1 c2 c3 c4).map fun value => (value, rest)
  | _ => none

def IsHigh (codePoint : Nat) : Prop := 0xD800 ≤ codePoint ∧ codePoint ≤ 0xDBFF

def IsLow (codePoint : Nat) : Prop := 0xDC00 ≤ codePoint ∧ codePoint ≤ 0xDFFF

instance (codePoint : Nat) : Decidable (IsHigh codePoint) := inferInstanceAs (Decidable (_ ∧ _))

instance (codePoint : Nat) : Decidable (IsLow codePoint) := inferInstanceAs (Decidable (_ ∧ _))

/-- The code point of a high and a low surrogate. -/
def combined (high low : Nat) : Nat := high * 2 ^ 10 + low - 0x35FDC00

/-- What follows the `u` of an escape. -/
def scanUnicode : Scan Byte Bytes :=
  andThen getCodepoint fun first =>
    if IsHigh first then
      andThen (literal (bytes "\\u") ()) fun _ =>
        andThen getCodepoint fun second =>
          keep (if IsLow second then some (Utf8.encode (combined first second)) else none)
    else keep (if IsLow first then none else some (Utf8.encode first))

/-- The escapes of one character, and what they add. -/
def escapes : List (Byte × Byte) :=
  [(34, 34), (92, 92), (47, 47), (98, 8), (102, 12), (110, 10), (114, 13), (116, 9)]

def scanEscape : Scan Byte Bytes
  | [] => none
  | kind :: rest =>
    match escapes.lookup kind with
    | some byte => some ([byte], rest)
    | none => if kind = 117 then scanUnicode rest else none

def nextByteInRange : List (Byte × Byte) → Scan Byte Bytes
  | [], text => some ([], text)
  | _ :: _, [] => none
  | (low, high) :: ranges, byte :: text =>
    if low ≤ byte ∧ byte ≤ high then
      (nextByteInRange ranges text).map fun (more, rest) => (byte :: more, rest)
    else none

/-- One turn of the loop in `scan_string`. The closing quote ends the loop before. -/
def scanChar : Scan Byte Bytes
  | [] => none
  | lead :: rest =>
    if lead = 34 ∨ lead < 32 then none
    else if lead = 92 then scanEscape rest
    else
      match Utf8.trailing lead with
      | some ranges => (nextByteInRange ranges rest).map fun (more, rest) => (lead :: more, rest)
      | none => none

def scanString (text : Bytes) : Option (Bytes × Bytes) := series scanChar 34 text.length text

/-! Numbers. -/

def isDigit (byte : Byte) : Bool := 48 ≤ byte ∧ byte ≤ 57

/-- The mark in front of an exponent. -/
def isMark (byte : Byte) : Bool := byte = 101 ∨ byte = 69

/-- The labels of `scan_number`. -/
inductive Label where
  | init
  | minus
  | zero
  | any1
  | decimal1
  | decimal2
  | exponent
  | sign
  | any2
  deriving DecidableEq

inductive NumberType where
  | unsigned
  | integer
  | float
  deriving DecidableEq

/-- Where a character leads to. At `none` the label ends the number or the scan. -/
def Label.next (label : Label) (byte : Byte) : Option Label :=
  match label with
  | .init =>
    if byte = 45 then some .minus
    else if byte = 48 then some .zero
    else if isDigit byte then some .any1
    else none
  | .minus => if byte = 48 then some .zero else if isDigit byte then some .any1 else none
  | .zero =>
    if byte = 46 then some .decimal1 else if isMark byte then some .exponent else none
  | .any1 =>
    if isDigit byte then some .any1
    else if byte = 46 then some .decimal1
    else if isMark byte then some .exponent
    else none
  | .decimal1 => if isDigit byte then some .decimal2 else none
  | .decimal2 =>
    if isDigit byte then some .decimal2 else if isMark byte then some .exponent else none
  | .exponent =>
    if byte = 43 ∨ byte = 45 then some .sign else if isDigit byte then some .any2 else none
  | .sign => if isDigit byte then some .any2 else none
  | .any2 => if isDigit byte then some .any2 else none

/-- `number_type` behind the label. -/
def Label.enter (label : Label) (type : NumberType) : NumberType :=
  match label with
  | .minus => .integer
  | .decimal1 | .exponent => .float
  | _ => type

def Label.done : Label → Bool
  | .zero | .any1 | .decimal2 | .any2 => true
  | _ => false

def nextLabel (state : Label × NumberType) (byte : Byte) : Option (Label × NumberType) :=
  (state.1.next byte).map fun label => (label, label.enter state.2)

/-- `strtoull` on digits; `none` where it sets `errno`. -/
def strtoull (digits : Bytes) : Option UInt64 :=
  let number := Decimal.value digits
  if number < 2 ^ 64 then some (UInt64.ofNat number) else none

/-- `strtoll` on a sign and digits. -/
def strtoll (text : Bytes) : Option Int64 :=
  let number := Decimal.value text.tail
  if number ≤ 2 ^ 63 then some (Int64.ofInt (-number)) else none

def exponentValue (text : Bytes) : Int :=
  match text.head? with
  | some 45 => -Decimal.value text.tail
  | some 43 => Decimal.value text.tail
  | _ => Decimal.value text

/-- The least magnitude that is not rounded to a finite double. -/
def overflow : Nat := 2 ^ 1024 - 2 ^ 970

/-- Whether `strtod` gives a finite number. -/
def isFinite (text : Bytes) : Bool :=
  let front := text.takeWhile fun byte => !isMark byte
  let digits := Decimal.value (front.filter isDigit)
  let fraction := (front.dropWhile fun byte => byte ≠ 46).tail
  let scale := exponentValue (text.dropWhile fun byte => !isMark byte).tail - fraction.length
  if 0 ≤ scale then digits * 10 ^ scale.toNat < overflow
  else digits < overflow * 10 ^ (-scale).toNat

/-- The number in the token buffer. What does not fit into an integer becomes a
float; the parser refuses one that is not finite. -/
def convert (type : NumberType) (text : Bytes) : Option Leaf :=
  let float := if isFinite text then some Leaf.float else none
  match type with
  | .unsigned => ((strtoull text).map Leaf.unsigned).or float
  | .integer => ((strtoll text).map Leaf.integer).or float
  | .float => float

def scanNumber (text : Bytes) : Option (Leaf × Bytes) :=
  (munch nextLabel (fun state => state.1.done) (.init, .unsigned) text).bind
    fun (((_, type), buffer), rest) => (convert type buffer).map fun leaf => (leaf, rest)

/-! Tokens. -/

def isWhitespace (byte : Byte) : Bool := byte = 32 ∨ byte = 9 ∨ byte = 10 ∨ byte = 13

def structural : List (Byte × Token) :=
  [(91, .beginArray), (93, .endArray), (123, .beginObject), (125, .endObject), (58, .nameSeparator),
    (44, .valueSeparator)]

/-- The first character of a token and what stands behind it. -/
def scanToken (byte : Byte) (rest : Bytes) : Option (Token × Bytes) :=
  match structural.lookup byte with
  | some token => some (token, rest)
  | none =>
    if byte = 116 then literal (bytes "rue") (.leaf (.boolean true)) rest
    else if byte = 102 then literal (bytes "alse") (.leaf (.boolean false)) rest
    else if byte = 110 then literal (bytes "ull") (.leaf .null) rest
    else if byte = 34 then (scanString rest).map fun (text, rest) => (.text text, rest)
    else if byte = 45 ∨ isDigit byte then
      (scanNumber (byte :: rest)).map fun (leaf, rest) => (.leaf leaf, rest)
    else none

/-- `scan`: fails on an error, and gives `none` at the end of the input, which a NUL
stands for as well. -/
def scan (text : Bytes) : Option (Option (Token × Bytes)) :=
  match text.dropWhile isWhitespace with
  | [] => some none
  | byte :: rest => if byte = 0 then some none else (scanToken byte rest).map some

def byteOrderMark : Bytes := [0xEF, 0xBB, 0xBF]

def skipBom (text : Bytes) : Option Bytes :=
  if text.head? = some 0xEF then (literal byteOrderMark () text).map Prod.snd else some text

end ModbusDatabase.JsonLexer
