import ModbusDatabase.Message

/-! `parseModbusMsg`: from a parsed JSON document to a report message. A JSON
integer ranges over the signed and the unsigned 64-bit values; an object is the
list of its fields in the order `std::map` iterates them. -/

namespace ModbusDatabase.Report
open Message
set_option autoImplicit false

inductive Json where
  | null
  | boolean (value : Bool)
  | integer (value : Int64)
  | unsigned (value : UInt64)
  | float
  | string (text : Bytes)
  | array (items : List Json)
  | object (fields : List (Bytes × Json))

namespace Json

/-- `contains(key)` and `operator[]`; nothing is found in a value that is no object. -/
def get? : Json → Bytes → Option Json
  | .object fields, key => fields.lookup key
  | _, _ => none

/-- `is_number_integer`, with the number itself. -/
def integer? : Json → Option Int
  | .integer value => some value.toInt
  | .unsigned value => some value.toNat
  | _ => none

def string? : Json → Option Bytes
  | .string text => some text
  | _ => none

def array? : Json → Option (List Json)
  | .array items => some items
  | _ => none

end Json

/-- `get<int>()` on an integer: a conversion modulo 2^32. -/
def getInt (number : Int) : Int32 := Int32.ofInt number

/-- The check a rejected report failed. -/
inductive Rejection where
  | field (key : Bytes)
  | entryNotObject
  | valueNotInteger
  | descriptionNotString
  | mapAddrNotInteger
  | addressNotNumber
  | entryIncomplete
  deriving DecidableEq

def intField (j : Json) (key : String) : Except Rejection Int32 :=
  match (j.get? (bytes key)).bind Json.integer? with
  | some number => .ok (getInt number)
  | none => .error (.field (bytes key))

def stringField (j : Json) (key : String) : Except Rejection Bytes :=
  match (j.get? (bytes key)).bind Json.string? with
  | some text => .ok text
  | none => .error (.field (bytes key))

def arrayField (j : Json) (key : String) : Except Rejection (List Json) :=
  match (j.get? (bytes key)).bind Json.array? with
  | some items => .ok items
  | none => .error (.field (bytes key))

/-- `isspace` in the C locale: tab, the line and page feeds, carriage return, space. -/
def isSpace (byte : Byte) : Bool := (9 ≤ byte ∧ byte ≤ 13) ∨ byte = 32

def isDigit (byte : Byte) : Bool := 48 ≤ byte ∧ byte ≤ 57

def decimal (digits : Bytes) : Nat :=
  digits.foldl (fun number digit => 10 * number + (digit.val - 48)) 0

/-- `std::stoi`: white space, a sign and the longest run of digits; what follows
is ignored. `none` stands for the exceptions it throws. -/
def stoi (text : Bytes) : Option Int32 :=
  let trimmed := text.dropWhile isSpace
  let negative := trimmed.head? = some 45
  let unsigned := if trimmed.head? = some 45 ∨ trimmed.head? = some 43 then trimmed.tail else trimmed
  let digits := unsigned.takeWhile isDigit
  let number : Int := if negative then -(decimal digits) else decimal digits
  if digits = [] then none
  else if -2 ^ 31 ≤ number ∧ number < 2 ^ 31 then some (Int32.ofInt number) else none

/-- The locals of the loop over one entry's keys, at their initial values. -/
structure Entry where
  address : Int32 := -1
  mapAddr : Int32 := -1
  value : Int32 := -1
  description : Bytes := []

def readKey (entry : Entry) (field : Bytes × Json) : Except Rejection Entry :=
  if field.1 = bytes "value" then
    match field.2.integer? with
    | some number => .ok { entry with value := getInt number }
    | none => .error .valueNotInteger
  else if field.1 = bytes "description" then
    match field.2.string? with
    | some text => .ok { entry with description := text }
    | none => .error .descriptionNotString
  else
    -- any other key is taken for the register address
    match field.2.integer? with
    | none => .error .mapAddrNotInteger
    | some number =>
      match stoi field.1 with
      | none => .error .addressNotNumber
      | some address => .ok { entry with address := address, mapAddr := getInt number }

def parseRegister (item : Json) : Except Rejection RegisterItem :=
  match item with
  | .object fields => do
      let entry ← fields.foldlM readKey {}
      if entry.address = -1 ∨ entry.mapAddr = -1 ∨ entry.value = -1 ∨ entry.description = [] then
        .error .entryIncomplete
      else
        .ok { address := entry.address, mapAddr := entry.mapAddr, value := entry.value,
              description := entry.description }
  | _ => .error .entryNotObject

/-- The message on acceptance; the handler discards a rejected report. -/
def parseModbusMsg (j : Json) : Except Rejection ModbusMasterMsg := do
  let id ← intField j "id"
  let channel ← intField j "channel"
  let pduAddr ← intField j "pdu_addr"
  let pduFunc ← intField j "pdu_func"
  let pduData ← stringField j "pdu_data"
  let timestamp ← stringField j "timestamp"
  let items ← arrayField j "register_map"
  let registerMap ← items.mapM parseRegister
  return { id, channel, pduAddr, pduFunc, pduData, timestamp, registerMap }

/-- A message the parser can produce. -/
def Accepted (msg : ModbusMasterMsg) : Prop := ∃ j, parseModbusMsg j = .ok msg

/-- A document of the shape of `data/modbusMasterMsg.json`. -/
def document (id channel : UInt64) (pduData timestamp : Bytes) (registers : List Json) : Json :=
  .object [(bytes "channel", .unsigned channel), (bytes "id", .unsigned id),
    (bytes "pdu_addr", .unsigned 5), (bytes "pdu_data", .string pduData),
    (bytes "pdu_func", .unsigned 3), (bytes "register_map", .array registers),
    (bytes "timestamp", .string timestamp)]

def registerObject (key : String) (mapAddr value : UInt64) (description : Bytes) : Json :=
  .object [(bytes key, .unsigned mapAddr), (bytes "description", .string description),
    (bytes "value", .unsigned value)]

def sampleReport : Json :=
  document 7 1 (bytes "0C 00") (bytes "20260325180500") [registerObject "16" 0 220 (bytes "A")]

def sampleMsg : ModbusMasterMsg :=
  { id := 7, channel := 1, pduAddr := 5, pduFunc := 3, pduData := bytes "0C 00",
    timestamp := bytes "20260325180500", registerMap := [⟨16, 0, 220, bytes "A"⟩] }

example : parseModbusMsg sampleReport = .ok sampleMsg := by decide

example : parseModbusMsg (document 123456 2 (bytes "0C 00") (bytes "20260325180500")
    [registerObject "16" 0 220 (bytes "A"), registerObject "17" 1 456 (bytes "B")]) =
    .ok { id := 123456, channel := 2, pduAddr := 5, pduFunc := 3, pduData := bytes "0C 00",
          timestamp := bytes "20260325180500",
          registerMap := [⟨16, 0, 220, bytes "A"⟩, ⟨17, 1, 456, bytes "B"⟩] } := by decide

end ModbusDatabase.Report
