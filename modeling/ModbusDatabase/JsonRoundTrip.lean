import ModbusDatabase.JsonWriter

/-! What is written for a document is a text of it: writing and reading back gives
the same document, and to `parseModbusMsg` the same report. -/

namespace ModbusDatabase.JsonRoundTrip
open Library Message JsonLexer JsonNumbers JsonSpelling JsonParser JsonWriter
open Report hiding isDigit
set_option autoImplicit false

/-! A written integer is a literal of it. -/

section
variable {number : Nat}

/-- A numeral starts with a zero for zero only. -/
theorem render_head (zero : (Decimal.render number).head? = some 48) : Decimal.render number = [48] := by
  induction number using Nat.strong_induction_on with
  | _ number ih =>
    by_cases small : number < 10
    · rw [Decimal.render_of_lt small] at zero ⊢
      rw [Option.some.inj zero]
    · have large := not_lt.mp small
      rw [Decimal.render_of_le large, List.head?_append_of_ne_nil _ (Decimal.render_ne_nil _)] at zero
      have rest := ih (number / 10) (by omega) zero
      have read := congrArg Decimal.value rest
      rw [Decimal.value_render] at read
      change number / 10 = 0 at read
      omega

theorem whole_render (number : Nat) : Whole (Decimal.render number) := by
  refine ⟨⟨Decimal.render_ne_nil number, fun byte member => ?_⟩, render_head⟩
  exact decide_eq_true (Decimal.isDigit_render member)

/-- An integer as a number without fraction and exponent. -/
def numeral (negative : Bool) (number : Nat) : Numeral :=
  ⟨negative, Decimal.render number, none, none, whole_render number, fun _ absent => nomatch absent⟩

theorem text_numeral (negative : Bool) (number : Nat) :
    (numeral negative number).text = signText negative ++ Decimal.render number := by
  simp only [numeral, Numeral.text, fractionText, exponentText, List.append_nil]

theorem lexeme_unsigned (value : UInt64) : Lexeme (.leaf (.unsigned value)) (numeralText value.toNat) := by
  have nonneg : decide ((value.toNat : Int) < 0) = false := decide_eq_false (by omega)
  have read : Decimal.value (numeral false value.toNat).whole = value.toNat := Decimal.value_render _
  have denotes : Denotes (numeral false value.toNat) _ := .unsigned rfl (by rw [read]; exact value.toNat_lt)
  rw [read, UInt64.ofNat_toNat] at denotes
  rw [numeralText, nonneg, Int.natAbs_natCast, ← text_numeral]
  exact .number _ _ denotes

theorem lexeme_negative {value : Int64} (negative : value.toInt < 0) :
    Lexeme (.leaf (.integer value)) (numeralText value.toInt) := by
  have read : Decimal.value (numeral true value.toInt.natAbs).whole = value.toInt.natAbs :=
    Decimal.value_render _
  have least := value.le_toInt
  have denotes : Denotes (numeral true value.toInt.natAbs) _ := .integer rfl (by rw [read]; omega)
  have same : -((value.toInt.natAbs : Nat) : Int) = value.toInt := by omega
  rw [read, same, Int64.ofInt_toInt] at denotes
  rw [numeralText, decide_eq_true negative, ← text_numeral]
  exact .number _ _ denotes

theorem toInt_of_nonneg {value : Int64} (nonneg : ¬value.toInt < 0) :
    ((value.toUInt64.toNat : Nat) : Int) = value.toInt := by
  have above : ¬value < 0 := by simpa [Int64.lt_iff_toInt_lt] using nonneg
  rw [toNat_toUInt64 above]
  omega

end

/-! Documents. -/

mutual

/-- The document that is written for a value. An integer that is not negative looks
like an unsigned one. -/
def docOf : Json → Records.Doc Bytes Leaf
  | .null => .leaf .null
  | .boolean value => .leaf (.boolean value)
  | .integer value => .leaf (if value.toInt < 0 then .integer value else .unsigned value.toUInt64)
  | .unsigned value => .leaf (.unsigned value)
  | .float => .leaf .float
  | .string text => .text text
  | .array items => .array (docsOf items)
  | .object fields => .object (membersOf fields)

def docsOf : List Json → List (Records.Doc Bytes Leaf)
  | [] => []
  | item :: items => docOf item :: docsOf items

def membersOf : List (Bytes × Json) → List (Bytes × Records.Doc Bytes Leaf)
  | [] => []
  | (key, item) :: fields => (key, docOf item) :: membersOf fields

end

inductive FloatFree : Json → Prop
  | null : FloatFree .null
  | boolean (value : Bool) : FloatFree (.boolean value)
  | integer (value : Int64) : FloatFree (.integer value)
  | unsigned (value : UInt64) : FloatFree (.unsigned value)
  | string (text : Bytes) : FloatFree (.string text)
  | array (items : List Json) (each : ∀ item ∈ items, FloatFree item) : FloatFree (.array items)
  | object (fields : Fields) (each : ∀ field ∈ fields, FloatFree field.2) : FloatFree (.object fields)

theorem FloatFree.items {items : List Json} (floatFree : FloatFree (.array items)) :
    ∀ item ∈ items, FloatFree item := by
  cases floatFree with
  | array _ each => exact each

theorem FloatFree.fields {fields : Fields} (floatFree : FloatFree (.object fields)) :
    ∀ field ∈ fields, FloatFree field.2 := by
  cases floatFree with
  | object _ each => exact each

section
variable {float text rest : Bytes} {tokens : List Token}

theorem spells_lexeme {token : Token} {word : Bytes} (lexeme : Lexeme token word) (more : Spells tokens rest) :
    Spells (token :: tokens) (word ++ rest) :=
  .cons [] word rest token tokens (fun _ absent => nomatch absent) lexeme more

theorem lexeme_mark {byte : Byte} {token : Token} (listed : structural.lookup byte = some token) :
    Lexeme token [byte] := .structural byte token (mem_of_lookup listed)

mutual

/-- What is written for a value spells its document, in front of any text. -/
theorem spells_dump {text rest : Bytes} {tokens : List Token} (j : Json) (floatFree : FloatFree j) (dumped : dump float j = some text)
    (more : Spells tokens rest) : Spells ((docOf j).tokens ++ tokens) (text ++ rest) := by
  match j with
  | .null =>
    rw [dump] at dumped
    cases dumped
    rw [docOf, Records.Doc.tokens]
    exact spells_lexeme .null more
  | .boolean true =>
    rw [dump] at dumped
    cases dumped
    rw [docOf, Records.Doc.tokens]
    exact spells_lexeme .true more
  | .boolean false =>
    rw [dump] at dumped
    cases dumped
    rw [docOf, Records.Doc.tokens]
    exact spells_lexeme .false more
  | .integer value =>
    rw [dump, dumpSigned_eq] at dumped
    cases dumped
    rw [docOf, Records.Doc.tokens]
    by_cases negative : value.toInt < 0
    · rw [if_pos negative]
      exact spells_lexeme (lexeme_negative negative) more
    · rw [if_neg negative, ← toInt_of_nonneg negative]
      exact spells_lexeme (lexeme_unsigned _) more
  | .unsigned value =>
    rw [dump, dumpUnsigned_eq] at dumped
    cases dumped
    rw [docOf, Records.Doc.tokens]
    exact spells_lexeme (lexeme_unsigned value) more
  | .float => cases floatFree
  | .string text =>
    rw [dump] at dumped
    rw [docOf, Records.Doc.tokens]
    exact spells_lexeme (lexeme_of_dumpString dumped) more
  | .array items =>
    rw [dump] at dumped
    obtain ⟨inner, written, same⟩ := Option.map_eq_some_iff.mp dumped
    have closed := spells_lexeme (lexeme_mark (rfl : structural.lookup 93 = some .endArray)) more
    have body := spells_dumpItems items floatFree.items written closed
    have opened := spells_lexeme (lexeme_mark (rfl : structural.lookup 91 = some .beginArray)) body
    rw [docOf, Records.Doc.tokens, ← same]
    simpa only [List.cons_append, List.append_assoc, List.nil_append] using opened
  | .object fields =>
    rw [dump] at dumped
    obtain ⟨inner, written, same⟩ := Option.map_eq_some_iff.mp dumped
    have closed := spells_lexeme (lexeme_mark (rfl : structural.lookup 125 = some .endObject)) more
    have body := spells_dumpFields fields floatFree.fields written closed
    have opened := spells_lexeme (lexeme_mark (rfl : structural.lookup 123 = some .beginObject)) body
    rw [docOf, Records.Doc.tokens, ← same]
    simpa only [List.cons_append, List.append_assoc, List.nil_append] using opened

theorem spells_dumpItems {text rest : Bytes} {tokens : List Token} (items : List Json) (each : ∀ item ∈ items, FloatFree item)
    (dumped : dumpItems float items = some text) (more : Spells tokens rest) :
    Spells ((Records.itemTokens (docsOf items)).tail ++ tokens) (text ++ rest) := by
  match items with
  | [] =>
    rw [dumpItems] at dumped
    cases dumped
    rw [docsOf, Records.itemTokens]
    exact more
  | [item] =>
    rw [dumpItems] at dumped
    rw [docsOf, docsOf, Records.itemTokens, Records.itemTokens, List.append_nil, List.tail_cons]
    exact spells_dump item (each item List.mem_cons_self) dumped more
  | item :: next :: items =>
    rw [dumpItems] at dumped
    · obtain ⟨first, written, later⟩ := Option.bind_eq_some_iff.mp dumped
      obtain ⟨others, further, same⟩ := Option.bind_eq_some_iff.mp later
      have behind := spells_dumpItems (next :: items)
        (fun other member => each other (List.mem_cons_of_mem _ member)) further more
      have separated := spells_lexeme (lexeme_mark (rfl : structural.lookup 44 = some .valueSeparator)) behind
      have opened := spells_dump item (each item List.mem_cons_self) written separated
      rw [docsOf, Records.itemTokens, List.tail_cons] at opened
      rw [docsOf, Records.itemTokens, List.tail_cons, docsOf, Records.itemTokens, ← Option.some.inj same]
      simpa only [List.cons_append, List.append_assoc, List.nil_append] using opened
    · exact fun absent => nomatch absent

theorem spells_dumpFields {text rest : Bytes} {tokens : List Token} (fields : List (Bytes × Json)) (each : ∀ field ∈ fields, FloatFree field.2)
    (dumped : dumpFields float fields = some text) (more : Spells tokens rest) :
    Spells ((Records.memberTokens (membersOf fields)).tail ++ tokens) (text ++ rest) := by
  match fields with
  | [] =>
    rw [dumpFields] at dumped
    rw [membersOf, Records.memberTokens, ← Option.some.inj dumped]
    exact more
  | [(key, item)] =>
    rw [dumpFields] at dumped
    obtain ⟨name, named, later⟩ := Option.bind_eq_some_iff.mp dumped
    obtain ⟨value, written, same⟩ := Option.bind_eq_some_iff.mp later
    have opened := spells_lexeme (lexeme_of_dumpString named)
      (spells_lexeme (lexeme_mark (rfl : structural.lookup 58 = some .nameSeparator))
        (spells_dump item (each _ List.mem_cons_self) written more))
    rw [membersOf, membersOf, Records.memberTokens, Records.memberTokens, List.append_nil, List.tail_cons,
      ← Option.some.inj same]
    simpa only [List.cons_append, List.append_assoc, List.nil_append] using opened
  | (key, item) :: next :: fields =>
    rw [dumpFields] at dumped
    · obtain ⟨name, named, later⟩ := Option.bind_eq_some_iff.mp dumped
      obtain ⟨value, written, later⟩ := Option.bind_eq_some_iff.mp later
      obtain ⟨others, further, same⟩ := Option.bind_eq_some_iff.mp later
      have behind := spells_dumpFields (next :: fields)
        (fun other member => each other (List.mem_cons_of_mem _ member)) further more
      have separated := spells_lexeme (lexeme_mark (rfl : structural.lookup 44 = some .valueSeparator)) behind
      have opened := spells_lexeme (lexeme_of_dumpString named)
        (spells_lexeme (lexeme_mark (rfl : structural.lookup 58 = some .nameSeparator))
          (spells_dump item (each _ List.mem_cons_self) written separated))
      obtain ⟨after, last⟩ := next
      rw [membersOf, Records.memberTokens, List.tail_cons] at opened
      rw [membersOf, Records.memberTokens, List.tail_cons, membersOf, Records.memberTokens,
        ← Option.some.inj same]
      simpa only [List.cons_append, List.append_assoc, List.nil_append] using opened
    · exact fun absent => nomatch absent

end

mutual

/-- The value that is read back: an integer that is not negative comes as an unsigned one. -/
def normal : Json → Json
  | .integer value => if value.toInt < 0 then .integer value else .unsigned value.toUInt64
  | .array items => .array (normalItems items)
  | .object fields => .object (normalFields fields)
  | j => j

def normalItems : List Json → List Json
  | [] => []
  | item :: items => normal item :: normalItems items

def normalFields : Fields → Fields
  | [] => []
  | (key, item) :: fields => (key, normal item) :: normalFields fields

end

/-- A key behind all others is put at the end. -/
theorem assign_last {fields : Fields} {key : Bytes} {value : Json}
    (greatest : ∀ name ∈ fields.map Prod.fst, name < key) :
    assign fields key value = fields ++ [(key, value)] := by
  induction fields with
  | nil => rfl
  | cons field fields ih =>
    obtain ⟨name, old⟩ := field
    have less : name < key := greatest name List.mem_cons_self
    rw [assign, if_neg less.not_gt, if_neg less.ne',
      ih fun other member => greatest other (List.mem_cons_of_mem _ member), List.cons_append]

theorem Keyed.each_item {items : List Json} (keyed : ReportLanguage.Keyed (.array items)) :
    ∀ item ∈ items, ReportLanguage.Keyed item := by
  cases keyed with
  | array _ each => exact each

theorem Keyed.each_field {fields : Fields} (keyed : ReportLanguage.Keyed (.object fields)) :
    ∀ field ∈ fields, ReportLanguage.Keyed field.2 := by
  cases keyed with
  | object _ _ each => exact each

mutual

theorem value_docOf (j : Json) (keyed : ReportLanguage.Keyed j) : (docOf j).value dom = normal j := by
  match j with
  | .null => rw [docOf, Records.Doc.value]; rfl
  | .boolean value => rw [docOf, Records.Doc.value]; rfl
  | .integer value =>
    rw [docOf, Records.Doc.value, normal]
    split
    next => rfl
    next => rfl
  | .unsigned value => rw [docOf, Records.Doc.value]; rfl
  | .float => rw [docOf, Records.Doc.value]; rfl
  | .string text => rw [docOf, Records.Doc.value]; rfl
  | .array items =>
    rw [docOf, Records.Doc.value, normal, values_docsOf items (Keyed.each_item keyed)]
    rfl
  | .object fields =>
    have all := setAll_membersOf fields [] (Keyed.each_field keyed) keyed.sorted
    rw [docOf, Records.Doc.value, normal]
    exact congrArg Json.object all

theorem values_docsOf (items : List Json) (each : ∀ item ∈ items, ReportLanguage.Keyed item) :
    Records.values dom (docsOf items) = normalItems items := by
  match items with
  | [] => rw [docsOf, Records.values, normalItems]
  | item :: items =>
    rw [docsOf, Records.values, normalItems, value_docOf item (each item List.mem_cons_self),
      values_docsOf items fun other member => each other (List.mem_cons_of_mem _ member)]

theorem setAll_membersOf (fields before : Fields) (each : ∀ field ∈ fields, ReportLanguage.Keyed field.2)
    (sorted : (before.map Prod.fst ++ fields.map Prod.fst).Pairwise (· < ·)) :
    Records.setAll dom before (membersOf fields) = before ++ normalFields fields := by
  match fields with
  | [] => rw [membersOf, Records.setAll, normalFields, List.append_nil]
  | (key, item) :: fields =>
    have greatest : ∀ name ∈ before.map Prod.fst, name < key := fun name member =>
      (List.pairwise_append.mp sorted).2.2 name member key List.mem_cons_self
    have placed : dom.set before key ((docOf item).value dom) = before ++ [(key, normal item)] := by
      rw [value_docOf item (each _ List.mem_cons_self)]
      exact assign_last greatest
    have onward : ((before ++ [(key, normal item)]).map Prod.fst ++ fields.map Prod.fst).Pairwise
        (· < ·) := by
      rw [List.map_append, List.append_assoc]
      exact sorted
    rw [membersOf, Records.setAll, placed,
      setAll_membersOf fields _ (fun other member => each other (List.mem_cons_of_mem _ member)) onward,
      normalFields, List.append_assoc, List.singleton_append]

end

theorem Encoded.each_item {items : List Json} :
    Encoded (.array items) ↔ ∀ item ∈ items, Encoded item := by
  constructor
  · intro encoded
    cases encoded with
    | array _ each => exact each
  · exact fun each => .array items each

theorem Encoded.each_field {fields : Fields} : Encoded (.object fields) ↔
    ∀ field ∈ fields, Utf8.WellFormed field.1 ∧ Encoded field.2 := by
  constructor
  · intro encoded
    cases encoded with
    | object _ keys each => exact fun field member => ⟨keys field member, each field member⟩
  · exact fun each => .object fields (fun field member => (each field member).1)
      fun field member => (each field member).2

theorem encoded_string {text : Bytes} : Encoded (.string text) ↔ Utf8.WellFormed text := by
  constructor
  · intro encoded
    cases encoded with
    | string _ isUtf8 => exact isUtf8
  · exact fun isUtf8 => .string text isUtf8

mutual

/-- Exactly the documents whose strings are UTF-8 can be written. -/
theorem isSome_dump (j : Json) : (dump float j).isSome ↔ Encoded j := by
  match j with
  | .null => rw [dump]; exact iff_of_true rfl .null
  | .boolean value => rw [dump]; exact iff_of_true rfl (.boolean value)
  | .integer value => rw [dump]; exact iff_of_true rfl (.integer value)
  | .unsigned value => rw [dump]; exact iff_of_true rfl (.unsigned value)
  | .float => rw [dump]; exact iff_of_true rfl .float
  | .string text => rw [dump, isSome_dumpString, encoded_string]
  | .array items => rw [dump, Option.isSome_map, isSome_dumpItems items, Encoded.each_item]
  | .object fields => rw [dump, Option.isSome_map, isSome_dumpFields fields, Encoded.each_field]

theorem isSome_dumpItems (items : List Json) :
    (dumpItems float items).isSome ↔ ∀ item ∈ items, Encoded item := by
  match items with
  | [] => rw [dumpItems]; exact iff_of_true rfl fun _ absent => nomatch absent
  | [item] => rw [dumpItems, isSome_dump item, List.forall_mem_singleton]
  | item :: next :: items =>
    rw [dumpItems, List.forall_mem_cons, ← isSome_dump item, ← isSome_dumpItems (next :: items)]
    · cases dump float item <;> cases dumpItems float (next :: items) <;> simp
    · exact fun absent => nomatch absent

theorem isSome_dumpFields (fields : List (Bytes × Json)) : (dumpFields float fields).isSome ↔
    ∀ field ∈ fields, Utf8.WellFormed field.1 ∧ Encoded field.2 := by
  match fields with
  | [] => rw [dumpFields]; exact iff_of_true rfl fun _ absent => nomatch absent
  | [(key, item)] =>
    rw [dumpFields, List.forall_mem_singleton, ← isSome_dump item, ← isSome_dumpString]
    cases dumpString key <;> cases dump float item <;> simp
  | (key, item) :: next :: fields =>
    rw [dumpFields, List.forall_mem_cons, ← isSome_dump item, ← isSome_dumpString,
      ← isSome_dumpFields (next :: fields)]
    · cases dumpString key <;> cases dump float item <;> cases dumpFields float (next :: fields) <;> simp
    · exact fun absent => nomatch absent

end

/-- A document that can be written is read back from its text. -/
theorem parse_dump (float : Bytes) {j : Json} {text : Bytes} (keyed : ReportLanguage.Keyed j)
    (floatFree : FloatFree j) (dumped : dump float j = some text) : parse text = some (normal j) := by
  have spells := spells_dump j floatFree dumped
    (.nil [] [] (fun _ absent => nomatch absent) fun _ absent => nomatch absent)
  simp only [List.append_nil] at spells
  exact (parse_eq_some _ _).mpr ⟨docOf j, .inl spells, value_docOf j keyed⟩

/-! A document and what is read back of it are the same report. -/

theorem get?_normal (j : Json) (key : Bytes) : (normal j).get? key = (j.get? key).map normal := by
  cases j with
  | object fields =>
    rw [normal]
    change (normalFields fields).lookup key = (fields.lookup key).map normal
    induction fields with
    | nil => rw [normalFields]; rfl
    | cons field fields ih =>
      obtain ⟨name, item⟩ := field
      rw [normalFields, List.lookup_cons, List.lookup_cons, ih]
      cases key == name <;> rfl
  | integer value =>
    rw [normal]
    split
    next => rfl
    next => rfl
  | array items => rw [normal]; rfl
  | _ => rfl

theorem integer?_normal (j : Json) : (normal j).integer? = j.integer? := by
  cases j with
  | integer value =>
    rw [normal]
    split
    next => rfl
    next nonneg => exact congrArg some (toInt_of_nonneg nonneg)
  | array items => rw [normal]; rfl
  | object fields => rw [normal]; rfl
  | _ => rfl

theorem string?_normal (j : Json) : (normal j).string? = j.string? := by
  cases j with
  | integer value =>
    rw [normal]
    split
    next => rfl
    next => rfl
  | array items => rw [normal]; rfl
  | object fields => rw [normal]; rfl
  | _ => rfl

theorem array?_normal (j : Json) : (normal j).array? = j.array?.map normalItems := by
  cases j with
  | integer value =>
    rw [normal]
    split
    next => rfl
    next => rfl
  | array items => rw [normal]; rfl
  | object fields => rw [normal]; rfl
  | _ => rfl

theorem bind_array?_normal (j : Json) (key : Bytes) :
    ((normal j).get? key).bind Json.array? = ((j.get? key).bind Json.array?).map normalItems := by
  rw [get?_normal]
  cases j.get? key with
  | none => rfl
  | some item => exact array?_normal item

/-- A field that is read in the same way before and after. -/
theorem bind_get?_normal {α : Type} {read : Json → Option α} (same : ∀ j, read (normal j) = read j)
    (j : Json) (key : Bytes) : ((normal j).get? key).bind read = (j.get? key).bind read := by
  rw [get?_normal, Option.bind_map]
  exact congrArg (Option.bind _) (funext same)

theorem readKey_normal (entry : Report.Entry) (key : Bytes) (item : Json) :
    readKey entry (key, normal item) = readKey entry (key, item) := by
  simp only [readKey, integer?_normal, string?_normal]

theorem foldlM_normalFields (fields : Fields) (entry : Report.Entry) :
    (normalFields fields).foldlM readKey entry = fields.foldlM readKey entry := by
  induction fields generalizing entry with
  | nil => rw [normalFields]
  | cons field fields ih =>
    obtain ⟨key, item⟩ := field
    rw [normalFields, List.foldlM_cons, List.foldlM_cons, readKey_normal]
    exact congrArg _ (funext ih)

theorem parseRegister_normal (j : Json) : parseRegister (normal j) = parseRegister j := by
  cases j with
  | object fields => rw [normal, parseRegister, parseRegister, foldlM_normalFields]
  | integer value =>
    rw [normal]
    split
    next => rfl
    next => rfl
  | array items => rw [normal]; rfl
  | _ => rfl

theorem mapM_normalItems (items : List Json) :
    (normalItems items).mapM parseRegister = items.mapM parseRegister := by
  induction items with
  | nil => rw [normalItems]
  | cons item items ih => rw [normalItems, List.mapM_cons, List.mapM_cons, parseRegister_normal, ih]

theorem map_bind {ε α β γ : Type} (first : Except ε α) (f : α → β) (next : β → Except ε γ) :
    (first.map f >>= next) = first >>= fun value => next (f value) := by
  cases first <;> rfl

/-- Numbers, strings and lists are found as before. -/
theorem parseModbusMsg_normal (j : Json) : parseModbusMsg (normal j) = parseModbusMsg j := by
  have integers : ∀ key, intField (normal j) key = intField j key := fun key => by
    rw [intField, intField, bind_get?_normal integer?_normal]
  have strings : ∀ key, stringField (normal j) key = stringField j key := fun key => by
    rw [stringField, stringField, bind_get?_normal string?_normal]
  have arrays : arrayField (normal j) "register_map" =
      (arrayField j "register_map").map normalItems := by
    rw [arrayField, arrayField, bind_array?_normal]
    cases (j.get? (bytes "register_map")).bind Json.array? with
    | none => rfl
    | some items => rfl
  simp only [parseModbusMsg, integers, strings, arrays, map_bind, mapM_normalItems]

/-- A document that the library builds is either refused because of a string that is not UTF-8,
or written as a text that is read back as the same document and the same report. -/
theorem dump_cases (float : Bytes) {j : Json} (keyed : ReportLanguage.Keyed j) (floatFree : FloatFree j) :
    (Encoded j ∧ ∃ text, dump float j = some text ∧ parse text = some (normal j) ∧
        parseModbusMsg (normal j) = parseModbusMsg j) ∨
      ¬Encoded j ∧ dump float j = none := by
  by_cases encoded : Encoded j
  · have written : (dump float j).isSome := (isSome_dump j).mpr encoded
    obtain ⟨text, dumped⟩ := Option.isSome_iff_exists.mp written
    exact .inl ⟨encoded, text, dumped, parse_dump float keyed floatFree dumped, parseModbusMsg_normal j⟩
  · refine .inr ⟨encoded, ?_⟩
    rw [← Option.not_isSome_iff_eq_none, isSome_dump]
    exact encoded

/-- A response is written and read back. -/
def sampleResponse : Json := .object [(bytes "status", .string (bytes "ready")), (bytes "token", .integer (-7))]

theorem keyed_sampleResponse : ReportLanguage.Keyed sampleResponse := by
  refine .object _ (by decide) ?_
  simp only [List.forall_mem_cons]
  exact ⟨.string _, .integer _, List.forall_mem_nil _⟩

theorem floatFree_sampleResponse : FloatFree sampleResponse := by
  refine .object _ ?_
  simp only [List.forall_mem_cons]
  exact ⟨.string _, .integer _, List.forall_mem_nil _⟩

theorem dump_cases_response :
    ∃ text, dump [] sampleResponse = some text ∧ parse text = some (normal sampleResponse) := by
  rcases dump_cases [] keyed_sampleResponse floatFree_sampleResponse with
    ⟨-, text, dumped, parsed, -⟩ | ⟨-, refused⟩
  · exact ⟨text, dumped, parsed⟩
  · cases refused

end

end ModbusDatabase.JsonRoundTrip
