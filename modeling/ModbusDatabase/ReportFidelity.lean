import ModbusDatabase.Library.Decimal
import ModbusDatabase.ReportLanguage

/-! How well a message agrees with the report it was parsed from: every
well-formed report accepted, every key read whole, every integer kept. Each of
the three has reports it fails on, and holds on exactly the others. -/

namespace ModbusDatabase.ReportFidelity
open Message Report ReportLanguage Library
set_option autoImplicit false

/-! Keys that are decimal integers. -/

theorem isDigit_iff {byte : Byte} : isDigit byte = true ↔ Decimal.IsDigit byte := by
  rw [isDigit, decide_eq_true_iff, Decimal.IsDigit]

theorem not_isSpace {byte : Byte} (char : byte = 45 ∨ byte = 43 ∨ isDigit byte = true) :
    isSpace byte = false := by
  have range : byte = 45 ∨ byte = 43 ∨ 48 ≤ byte.val := by
    rcases char with minus | plus | digit
    · exact .inl minus
    · exact .inr (.inl plus)
    · exact .inr (.inr (isDigit_iff.mp digit).1)
  rw [isSpace, decide_eq_false_iff_not]
  simp only [Fin.le_def, Fin.ext_iff] at range ⊢
  change byte.val = 45 ∨ byte.val = 43 ∨ 48 ≤ byte.val at range
  change ¬(9 ≤ byte.val ∧ byte.val ≤ 13 ∨ byte.val = 32)
  omega

/-- What stands behind an optional sign. -/
def unsigned (key : Bytes) : Bytes :=
  if key.head? = some 45 ∨ key.head? = some 43 then key.tail else key

/-- A sign at most, and digits. -/
def Plain (key : Bytes) : Prop := ∀ byte ∈ unsigned key, isDigit byte = true

instance (key : Bytes) : Decidable (Plain key) :=
  inferInstanceAs (Decidable (∀ byte ∈ unsigned key, isDigit byte = true))

def signed (key : Bytes) : Int :=
  if key.head? = some 45 then -(decimal (unsigned key) : Int) else decimal (unsigned key)

/-- The whole key is a decimal integer, and stands for the number. -/
def IsDecimal (key : Bytes) (number : Int) : Prop :=
  Plain key ∧ unsigned key ≠ [] ∧ signed key = number

theorem dropWhile_plain {key : Bytes} (plain : Plain key) : key.dropWhile isSpace = key := by
  cases key with
  | nil => rfl
  | cons byte key =>
    rw [List.dropWhile_cons_of_neg]
    rw [Bool.not_eq_true]
    apply not_isSpace
    by_cases sign : byte = 45 ∨ byte = 43
    · exact sign.imp id .inl
    · refine .inr (.inr (plain byte ?_))
      rw [unsigned, if_neg (by simpa using sign)]
      exact List.mem_cons_self

/-- `stoi` on a key with nothing around its number. -/
theorem stoi_plain {key : Bytes} (plain : Plain key) :
    stoi key = if unsigned key = [] then none
      else if -2 ^ 31 ≤ signed key ∧ signed key < 2 ^ 31 then some (Int32.ofInt (signed key))
      else none := by
  have digits : (unsigned key).takeWhile isDigit = unsigned key :=
    List.takeWhile_eq_self_iff.mpr plain
  rw [unsigned] at digits
  simp only [stoi, dropWhile_plain plain, digits]
  rfl

theorem isDecimal_of_stoi {key : Bytes} (plain : Plain key) {address : Int32}
    (read : stoi key = some address) : IsDecimal key address.toInt := by
  rw [stoi_plain plain] at read
  split at read
  next => cases read
  next nonempty =>
    split at read
    next small =>
      refine ⟨plain, nonempty, ?_⟩
      rw [← Option.some.inj read, Int32.toInt_ofInt_of_le small.1 small.2]
    next => cases read

/-- The canonical form of a number is read back. -/
theorem stoi_render {address : Int32} (nonneg : 0 ≤ address.toInt) :
    stoi (Decimal.render address.toInt.toNat) = some address := by
  have digits : ∀ byte ∈ Decimal.render address.toInt.toNat, isDigit byte = true :=
    fun byte member => isDigit_iff.mpr (Decimal.isDigit_render member)
  obtain ⟨first, rest, split⟩ := List.exists_cons_of_ne_nil
    (Decimal.render_ne_nil address.toInt.toNat)
  have unsignedHead : first ≠ 45 ∧ first ≠ 43 := by
    have digit := digits first (split ▸ List.mem_cons_self)
    constructor <;> rintro rfl <;> revert digit <;> decide
  have whole : unsigned (Decimal.render address.toInt.toNat) =
      Decimal.render address.toInt.toNat := by
    rw [unsigned, split, if_neg]
    simpa using unsignedHead
  have number : signed (Decimal.render address.toInt.toNat) = address.toInt := by
    rw [signed, whole, if_neg]
    · change ((Decimal.value (Decimal.render address.toInt.toNat) : Nat) : Int) = _
      rw [Decimal.value_render]
      exact Int.toNat_of_nonneg nonneg
    · rw [split]
      simpa using unsignedHead.1
  have plain : Plain (Decimal.render address.toInt.toNat) := by rwa [Plain, whole]
  have low := address.le_toInt
  have high := address.toInt_lt
  rw [stoi_plain plain, whole, number, if_neg (Decimal.render_ne_nil _), if_pos (by omega),
    Int32.ofInt_toInt]

theorem getInt_toInt (value : Int32) : getInt value.toInt = value := Int32.ofInt_toInt value

/-! Well-formed reports. -/

/-- A register as it should be: three keys, none of its numbers out of range. -/
structure WellFormedEntry (fields : Fields) (reg : RegisterItem) : Prop where
  keys : ∃ mapItem valueItem, fields.Perm
    [(Decimal.render reg.address.toInt.toNat, mapItem),
      (bytes "description", .string reg.description), (bytes "value", valueItem)] ∧
    mapItem.integer? = some reg.mapAddr.toInt ∧ valueItem.integer? = some reg.value.toInt
  address : 0 ≤ reg.address.toInt
  mapAddr : 0 ≤ reg.mapAddr.toInt
  description : reg.description ≠ []

/-- A report as it should be, and the message it stands for. -/
structure WellFormed (fields : Fields) (msg : ModbusMasterMsg) : Prop where
  id : IntegerAt fields "id" msg.id.toInt
  channel : IntegerAt fields "channel" msg.channel.toInt
  pduAddr : IntegerAt fields "pdu_addr" msg.pduAddr.toInt
  pduFunc : IntegerAt fields "pdu_func" msg.pduFunc.toInt
  pduData : (bytes "pdu_data", .string msg.pduData) ∈ fields
  timestamp : (bytes "timestamp", .string msg.timestamp) ∈ fields
  registers : ∃ items, (bytes "register_map", .array items) ∈ fields ∧
    List.Forall₂ (fun item reg => ∃ inner, item = .object inner ∧ WellFormedEntry inner reg) items
      msg.registerMap

theorem isAddress_render (number : Nat) (item : Json) :
    isAddress (Decimal.render number, item) = true := by
  rw [isAddress, decide_eq_true_iff]
  constructor
  · intro same
    have letter : (118 : Byte) ∈ bytes "value" := by decide
    exact absurd (Decimal.isDigit_render (same ▸ letter)).2 (by decide)
  · intro same
    have letter : (100 : Byte) ∈ bytes "description" := by decide
    exact absurd (Decimal.isDigit_render (same ▸ letter)).2 (by decide)

/-- Of three such keys one is an address. -/
theorem address_of_three {fields : Fields} {key text : Bytes} {mapItem valueItem : Json}
    (keys : fields.Perm
      [(key, mapItem), (bytes "description", .string text), (bytes "value", valueItem)])
    {field : Bytes × Json} (member : field ∈ fields) (taken : isAddress field = true) :
    field = (key, mapItem) := by
  have listed := keys.mem_iff.mp member
  simp only [List.mem_cons, List.not_mem_nil, or_false] at listed
  rcases listed with rfl | rfl | rfl
  · rfl
  · simp [isAddress] at taken
  · simp [isAddress] at taken

theorem WellFormedEntry.reads {fields : Fields} {reg : RegisterItem}
    (formed : WellFormedEntry fields reg) : ReadsEntry fields reg := by
  obtain ⟨mapItem, valueItem, keys, mapped, valued⟩ := formed.keys
  refine ⟨⟨valueItem, _, keys.mem_iff.mpr (by simp), valued, (getInt_toInt _).symm⟩,
    keys.mem_iff.mpr (by simp), ⟨(Decimal.render reg.address.toInt.toNat, mapItem), _,
      ⟨keys.mem_iff.mpr List.mem_cons_self, isAddress_render _ _, ?_⟩, mapped,
      (getInt_toInt _).symm, stoi_render formed.address⟩⟩
  intro other member taken
  rw [address_of_three keys member taken]

/-- The only thing that can go wrong: the value that stands for a missing one. -/
theorem WellFormedEntry.acceptable_iff {fields : Fields} {reg : RegisterItem}
    (sorted : Sorted fields) (formed : WellFormedEntry fields reg) :
    AcceptableEntry fields ↔ reg.value ≠ -1 := by
  have reads := formed.reads
  obtain ⟨item, number, valued, integral, value⟩ := reads.value
  obtain ⟨field, mapped, last, mapping, mapAddr, readable⟩ := reads.last
  have negative : (-1 : Int32).toInt = -1 := by decide
  constructor
  · intro acceptable same
    obtain ⟨other, found, known, integral', differs⟩ := acceptable.value
    cases field_unique sorted known valued rfl
    rw [integral] at integral'
    rw [← getInt_eq_neg_one, ← Option.some.inj integral', ← value] at differs
    exact differs same
  · intro present
    refine ⟨⟨item, number, valued, integral, ?_⟩, ⟨_, reads.description, formed.description⟩, ?_,
      ⟨field, mapped, reg.address, last, mapping, ?_, readable, ?_⟩⟩
    · rwa [← getInt_eq_neg_one, ← value]
    · intro other member taken
      obtain ⟨mapItem, valueItem, keys, -, -⟩ := formed.keys
      have single : other = field := (address_of_three keys member taken).trans
        (address_of_three keys last.1 last.2.1).symm
      rw [single, mapping, readable]
      exact ⟨Option.some_ne_none _, Option.some_ne_none _⟩
    · rw [← getInt_eq_neg_one, ← mapAddr]
      intro same
      have nonneg := formed.mapAddr
      rw [same, negative] at nonneg
      exact absurd nonneg (by decide)
    · intro same
      have nonneg := formed.address
      rw [same, negative] at nonneg
      exact absurd nonneg (by decide)

/-- What holds of each item and of what it was read to can be said of either list. -/
theorem forall_iff_of_forall₂ {α β : Type} {R : α → β → Prop} {P : α → Prop} {Q : β → Prop}
    {items : List α} {results : List β} (all : List.Forall₂ R items results)
    (agree : ∀ item result, item ∈ items → R item result → (P item ↔ Q result)) :
    (∀ item ∈ items, P item) ↔ ∀ result ∈ results, Q result := by
  induction all with
  | nil => simp
  | cons related _ ih =>
    rw [List.forall_mem_cons, List.forall_mem_cons, agree _ _ List.mem_cons_self related,
      ih fun item result member => agree item result (List.mem_cons_of_mem _ member)]

theorem WellFormed.reads {fields : Fields} {msg : ModbusMasterMsg} (formed : WellFormed fields msg) :
    ReadsReport fields msg := by
  obtain ⟨items, itemsAt, all⟩ := formed.registers
  refine ⟨⟨_, formed.id, (getInt_toInt _).symm⟩, ⟨_, formed.channel, (getInt_toInt _).symm⟩,
    ⟨_, formed.pduAddr, (getInt_toInt _).symm⟩, ⟨_, formed.pduFunc, (getInt_toInt _).symm⟩,
    formed.pduData, formed.timestamp, ⟨items, itemsAt, all.imp ?_⟩⟩
  rintro item reg ⟨inner, same, entry⟩
  exact ⟨inner, same, entry.reads⟩

theorem WellFormed.acceptable_iff {fields : Fields} {msg : ModbusMasterMsg}
    (keyed : Keyed (.object fields)) (formed : WellFormed fields msg) :
    AcceptableReport fields ↔ ∀ reg ∈ msg.registerMap, reg.value ≠ -1 := by
  obtain ⟨items, itemsAt, all⟩ := formed.registers
  have each : (∀ item ∈ items, ∃ inner, item = .object inner ∧ AcceptableEntry inner) ↔
      ∀ reg ∈ msg.registerMap, reg.value ≠ -1 := by
    refine forall_iff_of_forall₂ all ?_
    rintro item reg member ⟨inner, rfl, entry⟩
    rw [← entry.acceptable_iff (keyed.item itemsAt member)]
    constructor
    · rintro ⟨other, same, acceptable⟩
      exact Json.object.inj same ▸ acceptable
    · exact fun acceptable => ⟨inner, rfl, acceptable⟩
  rw [← each]
  constructor
  · intro acceptable
    obtain ⟨others, othersAt, registers⟩ := acceptable.registers
    cases field_unique keyed.sorted othersAt itemsAt rfl
    exact registers
  · intro registers
    refine ⟨?_, ?_, ⟨items, itemsAt, registers⟩⟩
    · simp only [List.forall_mem_cons]
      exact ⟨⟨_, formed.id⟩, ⟨_, formed.channel⟩, ⟨_, formed.pduAddr⟩, ⟨_, formed.pduFunc⟩,
        List.forall_mem_nil _⟩
    · simp only [List.forall_mem_cons]
      exact ⟨⟨_, formed.pduData⟩, ⟨_, formed.timestamp⟩, List.forall_mem_nil _⟩

/-- A well-formed report is accepted, and read exactly, unless a register holds
the value that stands for a missing one. -/
theorem well_formed_accepted (fields : Fields) (msg : ModbusMasterMsg)
    (keyed : Keyed (.object fields)) (formed : WellFormed fields msg) :
    parseModbusMsg (.object fields) = .ok msg ↔ ∀ reg ∈ msg.registerMap, reg.value ≠ -1 := by
  rw [parseModbusMsg_eq_ok keyed, formed.acceptable_iff keyed]
  exact and_iff_left formed.reads

def registerFields (key : String) (value : Json) : Fields :=
  [(bytes key, .unsigned 0), (bytes "description", .string (bytes "A")), (bytes "value", value)]

/-- The fields of a report of one register, whose address key and value are left open. -/
def oneRegister (key : String) (value : Json) : Fields :=
  [(bytes "channel", .unsigned 1), (bytes "id", .unsigned 7), (bytes "pdu_addr", .unsigned 5),
    (bytes "pdu_data", .string (bytes "0C 00")), (bytes "pdu_func", .unsigned 3),
    (bytes "register_map", .array [.object (registerFields key value)]),
    (bytes "timestamp", .string (bytes "20260325180500"))]

theorem registerMap_oneRegister {key : String} {value : Json} :
    (bytes "register_map", .array [.object (registerFields key value)]) ∈ oneRegister key value := by
  simp [oneRegister]

theorem addressFields_registerFields {key : String} {value : Json}
    (address : bytes key ≠ bytes "value" ∧ bytes key ≠ bytes "description") :
    addressFields (registerFields key value) = [(bytes key, .unsigned 0)] := by
  simp [registerFields, addressFields, isAddress, address]

theorem keyed_oneRegister (key : String) {value : Json} (number : Keyed value)
    (sorted : [bytes key, bytes "description", bytes "value"].Pairwise (· < ·)) :
    Keyed (.object (oneRegister key value)) := by
  have register : Keyed (.object (registerFields key value)) := by
    refine .object _ sorted ?_
    simp only [registerFields, List.forall_mem_cons]
    exact ⟨.unsigned _, .string _, number, List.forall_mem_nil _⟩
  refine .object _ ?_ ?_
  · change [bytes "channel", bytes "id", bytes "pdu_addr", bytes "pdu_data", bytes "pdu_func",
      bytes "register_map", bytes "timestamp"].Pairwise (· < ·)
    decide
  · simp only [oneRegister, List.forall_mem_cons]
    exact ⟨.unsigned _, .unsigned _, .unsigned _, .string _, .unsigned _,
      .array _ (List.forall_mem_singleton.mpr register), .string _, List.forall_mem_nil _⟩

theorem wellFormed_oneRegister {item : Json} (value : Int32)
    (integral : item.integer? = some value.toInt) : WellFormed (oneRegister "16" item)
      { sampleMsg with registerMap := [⟨16, 0, value, bytes "A"⟩] } where
  id := ⟨.unsigned 7, by simp [oneRegister], rfl⟩
  channel := ⟨.unsigned 1, by simp [oneRegister], rfl⟩
  pduAddr := ⟨.unsigned 5, by simp [oneRegister], rfl⟩
  pduFunc := ⟨.unsigned 3, by simp [oneRegister], rfl⟩
  pduData := by simp [oneRegister, sampleMsg]
  timestamp := by simp [oneRegister, sampleMsg]
  registers := by
    have address : bytes "16" = Decimal.render (16 : Int32).toInt.toNat := by
      change bytes "16" = if 16 = 0 then _ else (Nat.digits 10 16).reverse.map Decimal.digit
      rw [if_neg (by decide)]
      norm_num
      decide
    refine ⟨_, registerMap_oneRegister, .cons ⟨_, rfl, ⟨.unsigned 0, item, ?_, rfl, integral⟩, ?_, ?_, ?_⟩ .nil⟩
    · rw [registerFields, address]
    · change 0 ≤ (16 : Int32).toInt
      decide
    · change 0 ≤ (0 : Int32).toInt
      decide
    · exact List.cons_ne_nil _ _

theorem well_formed_accepted_sample : parseModbusMsg sampleReport = .ok sampleMsg :=
  (well_formed_accepted (oneRegister "16" (.unsigned 220)) sampleMsg
    (keyed_oneRegister "16" (.unsigned _) (by decide)) (wellFormed_oneRegister 220 (by decide))).mpr
    (by decide)

/-- The value -1 is one of those an `int` takes, and is rejected. -/
theorem well_formed_not_accepted : ¬∀ (fields : Fields) (msg : ModbusMasterMsg),
    Keyed (.object fields) → WellFormed fields msg → parseModbusMsg (.object fields) = .ok msg := by
  intro accepted
  have parsed := accepted (oneRegister "16" (.integer (-1))) _
    (keyed_oneRegister "16" (.integer _) (by decide)) (wellFormed_oneRegister (-1) rfl)
  cases parsed

/-! Registers of which nothing is dropped. -/

/-- Three keys, the third of them the whole of the address. -/
def WholeEntry (fields : Fields) (reg : RegisterItem) : Prop :=
  ∃ key mapItem describedItem valueItem, fields.Perm
    [(key, mapItem), (bytes "description", describedItem), (bytes "value", valueItem)] ∧
    IsDecimal key reg.address.toInt

/-- One address key at most, with nothing around its number. -/
def PlainEntry (fields : Fields) : Prop :=
  (addressFields fields).length ≤ 1 ∧ ∀ field ∈ addressFields fields, Plain field.1

theorem WholeEntry.plain {fields : Fields} {reg : RegisterItem} (sorted : Sorted fields)
    (whole : WholeEntry fields reg) : PlainEntry fields := by
  obtain ⟨key, mapItem, describedItem, valueItem, keys, plain, -, -⟩ := whole
  have address : key ≠ bytes "value" ∧ key ≠ bytes "description" := by
    have distinct := (keys.map Prod.fst).nodup_iff.mp sorted.nodup
    simp only [List.map_cons, List.nodup_cons, List.mem_cons, not_or] at distinct
    exact ⟨distinct.1.2.1, distinct.1.1⟩
  have single : (addressFields fields).Perm [(key, mapItem)] := by
    refine (keys.filter isAddress).trans (.of_eq ?_)
    simp [isAddress, address]
  rw [PlainEntry, single.length_eq]
  refine ⟨le_rfl, fun field member => ?_⟩
  rw [List.mem_singleton.mp (single.mem_iff.mp member)]
  exact plain

/-- Without a second address key the three keys are all there are. -/
theorem whole_of_plain {fields : Fields} {reg : RegisterItem} (sorted : Sorted fields)
    (reads : ReadsEntry fields reg) (plain : PlainEntry fields) : WholeEntry fields reg := by
  obtain ⟨item, number, valued, -, -⟩ := reads.value
  obtain ⟨⟨key, mapItem⟩, mapped, last, -, -, readable⟩ := reads.last
  have listed : (key, mapItem) ∈ addressFields fields := List.mem_filter.mpr ⟨last.1, last.2.1⟩
  have single : addressFields fields = [(key, mapItem)] := by
    obtain ⟨field, only⟩ := List.length_eq_one_iff.mp
      (le_antisymm plain.1 (List.length_pos_of_mem listed))
    rw [only] at listed ⊢
    rw [List.mem_singleton.mp listed]
  obtain ⟨notValue, notDescription⟩ := of_decide_eq_true last.2.1
  refine ⟨key, mapItem, .string reg.description, item, ?_,
    isDecimal_of_stoi (plain.2 _ listed) readable⟩
  refine (List.perm_ext_iff_of_nodup sorted.nodup.of_map ?_).mpr fun field => ?_
  · have distinct : [key, bytes "description", bytes "value"].Nodup := by
      have literals : bytes "description" ≠ bytes "value" := by decide
      simp [notValue, notDescription, literals]
    exact List.Nodup.of_map Prod.fst distinct
  · simp only [List.mem_cons, List.not_mem_nil, or_false]
    constructor
    · intro member
      by_cases isValue : field.1 = bytes "value"
      · exact .inr (.inr (field_unique sorted member valued isValue))
      · by_cases isDescription : field.1 = bytes "description"
        · exact .inr (.inl (field_unique sorted member reads.description isDescription))
        · have taken : field ∈ addressFields fields :=
            List.mem_filter.mpr ⟨member, decide_eq_true ⟨isValue, isDescription⟩⟩
          rw [single] at taken
          exact .inl (List.mem_singleton.mp taken)
    · rintro (rfl | rfl | rfl)
      · exact last.1
      · exact reads.description
      · exact valued

/-! Integers that are kept. -/

/-- What an `int` holds. -/
def InRange (number : Int) : Prop := -2 ^ 31 ≤ number ∧ number < 2 ^ 31

theorem toInt_getInt_iff {number : Int} : (getInt number).toInt = number ↔ InRange number := by
  constructor
  · intro same
    rw [InRange, ← same]
    exact ⟨(getInt number).le_toInt, (getInt number).toInt_lt⟩
  · exact fun range => Int32.toInt_ofInt_of_le range.1 range.2

/-- The integers of a register are those of the report. -/
structure ExactEntry (fields : Fields) (reg : RegisterItem) : Prop where
  value : IntegerAt fields "value" reg.value.toInt
  mapAddr : ∃ field, Last fields field ∧ field.2.integer? = some reg.mapAddr.toInt

structure FitsEntry (fields : Fields) : Prop where
  value : ∀ number, IntegerAt fields "value" number → InRange number
  mapAddr : ∀ field number, Last fields field → field.2.integer? = some number → InRange number

theorem integerAt_unique {fields : Fields} (sorted : Sorted fields) {key : String}
    {first second : Int} (left : IntegerAt fields key first) (right : IntegerAt fields key second) :
    first = second := by
  obtain ⟨item, known, integral⟩ := left
  obtain ⟨other, found, number⟩ := right
  cases field_unique sorted known found rfl
  exact Option.some.inj (integral.symm.trans number)

/-- An integer field is kept exactly when it fits. -/
theorem integerAt_getInt_iff {fields : Fields} (sorted : Sorted fields) {key : String}
    {number : Int} (known : IntegerAt fields key number) :
    IntegerAt fields key (getInt number).toInt ↔
      ∀ other, IntegerAt fields key other → InRange other := by
  constructor
  · intro exact other found
    rw [← integerAt_unique sorted known found]
    exact toInt_getInt_iff.mp (integerAt_unique sorted exact known)
  · intro fits
    rw [toInt_getInt_iff.mpr (fits number known)]
    exact known

theorem last_unique {fields : Fields} (sorted : Sorted fields) {first second : Bytes × Json}
    (left : Last fields first) (right : Last fields second) : first = second :=
  field_unique sorted left.1 right.1
    (le_antisymm (right.2.2 first left.1 left.2.1) (left.2.2 second right.1 right.2.1))

theorem exactEntry_iff {fields : Fields} {reg : RegisterItem} (sorted : Sorted fields)
    (reads : ReadsEntry fields reg) : ExactEntry fields reg ↔ FitsEntry fields := by
  obtain ⟨item, number, valued, integral, value⟩ := reads.value
  obtain ⟨field, mapped, last, mapping, mapAddr, -⟩ := reads.last
  have values := integerAt_getInt_iff sorted ⟨item, valued, integral⟩
  rw [← value] at values
  constructor
  · intro exact
    refine ⟨values.mp exact.value, fun other found isLast integral => ?_⟩
    obtain ⟨kept, keptLast, same⟩ := exact.mapAddr
    cases last_unique sorted isLast keptLast
    cases last_unique sorted isLast last
    rw [mapping] at same integral
    rw [← Option.some.inj integral, ← toInt_getInt_iff, ← mapAddr]
    exact (Option.some.inj same).symm
  · intro fits
    refine ⟨values.mpr fits.value, field, last, ?_⟩
    rw [mapping, mapAddr, toInt_getInt_iff.mpr (fits.mapAddr field mapped last mapping)]

/-! Whole reports. -/

/-- Each register of the message came whole from its element. -/
def WholeReport (fields : Fields) (msg : ModbusMasterMsg) : Prop :=
  ∃ items, (bytes "register_map", .array items) ∈ fields ∧
    List.Forall₂ (fun item reg => ∃ inner, item = .object inner ∧ WholeEntry inner reg) items
      msg.registerMap

def PlainReport (fields : Fields) : Prop :=
  ∀ items, (bytes "register_map", .array items) ∈ fields →
    ∀ item ∈ items, ∀ inner, item = .object inner → PlainEntry inner

structure ExactReport (fields : Fields) (msg : ModbusMasterMsg) : Prop where
  id : IntegerAt fields "id" msg.id.toInt
  channel : IntegerAt fields "channel" msg.channel.toInt
  pduAddr : IntegerAt fields "pdu_addr" msg.pduAddr.toInt
  pduFunc : IntegerAt fields "pdu_func" msg.pduFunc.toInt
  registers : ∃ items, (bytes "register_map", .array items) ∈ fields ∧
    List.Forall₂ (fun item reg => ∃ inner, item = .object inner ∧ ExactEntry inner reg) items
      msg.registerMap

structure FitsReport (fields : Fields) : Prop where
  integers : ∀ key ∈ ["id", "channel", "pdu_addr", "pdu_func"], ∀ number,
    IntegerAt fields key number → InRange number
  registers : ∀ items, (bytes "register_map", .array items) ∈ fields →
    ∀ item ∈ items, ∀ inner, item = .object inner → FitsEntry inner

/-- A second relation between corresponding elements, where at each element it
comes down to a property of the element. -/
theorem registers_iff {fields : Fields} {msg : ModbusMasterMsg} {R : Fields → RegisterItem → Prop}
    {P : Fields → Prop} (keyed : Keyed (.object fields)) (reads : ReadsReport fields msg)
    (agree : ∀ inner reg, Sorted inner → ReadsEntry inner reg → (R inner reg ↔ P inner)) :
    (∃ items, (bytes "register_map", .array items) ∈ fields ∧
      List.Forall₂ (fun item reg => ∃ inner, item = .object inner ∧ R inner reg) items
        msg.registerMap) ↔
    ∀ items, (bytes "register_map", .array items) ∈ fields →
      ∀ item ∈ items, ∀ inner, item = .object inner → P inner := by
  obtain ⟨items, itemsAt, all⟩ := reads.registers
  have each : ∀ {items : List Json} {regs : List RegisterItem},
      (∀ inner, .object inner ∈ items → Sorted inner) →
      List.Forall₂ (fun item reg => ∃ inner, item = .object inner ∧ ReadsEntry inner reg) items
        regs →
      (List.Forall₂ (fun item reg => ∃ inner, item = .object inner ∧ R inner reg) items regs ↔
        ∀ item ∈ items, ∀ inner, item = .object inner → P inner) := by
    intro items regs sorted all
    induction all with
    | nil => simp
    | cons related _ ih =>
      obtain ⟨inner, rfl, entry⟩ := related
      have here := agree inner _ (sorted inner List.mem_cons_self) entry
      rw [List.forall₂_cons, List.forall_mem_cons,
        ih fun inner member => sorted inner (List.mem_cons_of_mem _ member)]
      simp only [Json.object.injEq, exists_eq_left', forall_eq', here]
  constructor
  · rintro ⟨others, othersAt, related⟩ found foundAt
    cases field_unique keyed.sorted othersAt itemsAt rfl
    cases field_unique keyed.sorted foundAt itemsAt rfl
    exact (each (fun inner => keyed.item itemsAt) all).mp related
  · intro holds
    exact ⟨items, itemsAt, (each (fun inner => keyed.item itemsAt) all).mpr (holds items itemsAt)⟩

theorem wholeReport_iff {fields : Fields} {msg : ModbusMasterMsg} (keyed : Keyed (.object fields))
    (reads : ReadsReport fields msg) : WholeReport fields msg ↔ PlainReport fields :=
  registers_iff keyed reads fun _ _ sorted entry =>
    ⟨WholeEntry.plain sorted, whole_of_plain sorted entry⟩

/-- Nothing of a register of an accepted report is dropped or read in part, as
long as each has one address key and nothing surrounds its number. -/
theorem whole_iff_plain (j : Json) (msg : ModbusMasterMsg) (keyed : Keyed j)
    (parsed : parseModbusMsg j = .ok msg) :
    (∃ fields, j = .object fields ∧ WholeReport fields msg) ↔
      ∃ fields, j = .object fields ∧ PlainReport fields := by
  obtain ⟨fields, rfl, reads⟩ := (reads_of_accepted keyed parsed).2
  simp only [Json.object.injEq, exists_eq_left']
  exact wholeReport_iff keyed reads

theorem whole_iff_plain_sample :
    ∃ fields, sampleReport = .object fields ∧ WholeReport fields sampleMsg := by
  refine (whole_iff_plain (.object (oneRegister "16" (.unsigned 220))) sampleMsg
    (keyed_oneRegister "16" (.unsigned _) (by decide)) (by decide)).mpr ⟨_, rfl, ?_⟩
  intro items itemsAt item member inner same
  have only := field_unique (keyed_oneRegister "16" (.unsigned 220) (by decide)).sorted
    itemsAt registerMap_oneRegister rfl
  rw [Json.array.inj (Prod.mk.inj only).2, List.mem_singleton] at member
  rw [← Json.object.inj (member.symm.trans same)]
  rw [PlainEntry, addressFields_registerFields (by decide), List.forall_mem_singleton]
  exact ⟨le_rfl, by decide +kernel⟩

/-- A letter behind the address goes unnoticed. -/
theorem register_not_whole : ¬∀ (j : Json) (msg : ModbusMasterMsg), Keyed j →
    parseModbusMsg j = .ok msg → ∃ fields, j = .object fields ∧ WholeReport fields msg := by
  intro whole
  have keyed := keyed_oneRegister "16a" (.unsigned 220) (by decide)
  have parsed : parseModbusMsg (.object (oneRegister "16a" (.unsigned 220))) = .ok sampleMsg := by
    decide
  obtain ⟨fields, same, report⟩ := whole _ _ keyed parsed
  rw [← Json.object.inj same] at report
  have reads := ((parseModbusMsg_eq_ok keyed).mp parsed).2
  have plain : PlainEntry (registerFields "16a" (.unsigned 220)) :=
    (wholeReport_iff keyed reads).mp report _ registerMap_oneRegister _ List.mem_cons_self _ rfl
  rw [PlainEntry, addressFields_registerFields (by decide), List.forall_mem_singleton] at plain
  exact absurd plain.2 (by decide +kernel)

/-- The integers of an accepted report are kept, as long as an `int` holds them. -/
theorem exact_iff_fits (j : Json) (msg : ModbusMasterMsg) (keyed : Keyed j)
    (parsed : parseModbusMsg j = .ok msg) :
    (∃ fields, j = .object fields ∧ ExactReport fields msg) ↔
      ∃ fields, j = .object fields ∧ FitsReport fields := by
  obtain ⟨fields, rfl, reads⟩ := (reads_of_accepted keyed parsed).2
  simp only [Json.object.injEq, exists_eq_left']
  have registers := registers_iff (R := ExactEntry) (P := FitsEntry) keyed reads
    fun _ _ sorted entry => exactEntry_iff sorted entry
  have kept : ∀ {key : String} {read : Int32}, (∃ number, IntegerAt fields key number ∧
      read = getInt number) → (IntegerAt fields key read.toInt ↔
        ∀ number, IntegerAt fields key number → InRange number) := by
    rintro key read ⟨number, known, rfl⟩
    exact integerAt_getInt_iff keyed.sorted known
  constructor
  · intro exact
    refine ⟨?_, registers.mp exact.registers⟩
    simp only [List.forall_mem_cons]
    exact ⟨(kept reads.id).mp exact.id, (kept reads.channel).mp exact.channel,
      (kept reads.pduAddr).mp exact.pduAddr, (kept reads.pduFunc).mp exact.pduFunc,
      List.forall_mem_nil _⟩
  · intro fits
    exact ⟨(kept reads.id).mpr (fits.integers _ (by simp)),
      (kept reads.channel).mpr (fits.integers _ (by simp)),
      (kept reads.pduAddr).mpr (fits.integers _ (by simp)),
      (kept reads.pduFunc).mpr (fits.integers _ (by simp)), registers.mpr fits.registers⟩

theorem exact_iff_fits_sample :
    ∃ fields, sampleReport = .object fields ∧ FitsReport fields := by
  refine (exact_iff_fits (.object (oneRegister "16" (.unsigned 220))) sampleMsg
    (keyed_oneRegister "16" (.unsigned _) (by decide)) (by decide)).mp ⟨_, rfl, ?_⟩
  have formed : WellFormed (oneRegister "16" (.unsigned 220)) sampleMsg :=
    wellFormed_oneRegister 220 (by decide)
  exact ⟨formed.id, formed.channel, formed.pduAddr, formed.pduFunc, _, registerMap_oneRegister,
    .cons ⟨_, rfl, ⟨.unsigned 220, by simp [registerFields], rfl⟩, (bytes "16", .unsigned 0),
      ⟨List.mem_cons_self, by decide, by decide⟩, rfl⟩ .nil⟩

/-- Channel 2^32 + 1 becomes channel 1. -/
theorem integer_altered : ¬∀ (j : Json) (msg : ModbusMasterMsg), Keyed j →
    parseModbusMsg j = .ok msg → ∃ fields, j = .object fields ∧ ExactReport fields msg := by
  intro exact
  have keyed : Keyed (document 7 (2 ^ 32 + 1) (bytes "0C 00") (bytes "20260325180500")
      [registerObject "16" 0 220 (bytes "A")]) := keyed_document _ _ _ _ (by
    simp only [List.forall_mem_singleton]
    exact keyed_register _ _ _ _ (by decide))
  obtain ⟨_, same, report⟩ := exact _ sampleMsg keyed (by decide)
  cases same
  obtain ⟨item, known, integral⟩ := report.channel
  cases field_unique keyed.sorted known List.mem_cons_self rfl
  exact absurd integral (by decide)

end ModbusDatabase.ReportFidelity
