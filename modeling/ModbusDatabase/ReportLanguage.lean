import Mathlib.Data.Int.ModEq
import Mathlib.Data.List.Forall2
import Mathlib.Data.List.Induction
import Mathlib.Order.Fin.Basic
import ModbusDatabase.Report

/-! The reports `parseModbusMsg` accepts, said without its loops. An object of
the JSON library has distinct keys and hands them out in byte order; the parser
takes every key of a register but two for an address, and the last one counts. -/

namespace ModbusDatabase.ReportLanguage
open Message Report
set_option autoImplicit false

/-- A document as the library builds it. -/
inductive Keyed : Json → Prop
  | null : Keyed .null
  | boolean (value : Bool) : Keyed (.boolean value)
  | integer (value : Int64) : Keyed (.integer value)
  | unsigned (value : UInt64) : Keyed (.unsigned value)
  | float : Keyed .float
  | string (text : Bytes) : Keyed (.string text)
  | array (items : List Json) (each : ∀ item ∈ items, Keyed item) : Keyed (.array items)
  | object (fields : List (Bytes × Json)) (sorted : (fields.map Prod.fst).Pairwise (· < ·))
      (each : ∀ field ∈ fields, Keyed field.2) : Keyed (.object fields)

abbrev Fields := List (Bytes × Json)

def Sorted (fields : Fields) : Prop := (fields.map Prod.fst).Pairwise (· < ·)

theorem Sorted.nodup {fields : Fields} (sorted : Sorted fields) :
    (fields.map Prod.fst).Nodup := List.Pairwise.imp (fun less => ne_of_lt less) sorted

theorem Keyed.sorted {fields : Fields} (keyed : Keyed (.object fields)) : Sorted fields := by
  cases keyed with
  | object _ sorted _ => exact sorted

/-- A register of a well-keyed report is well-keyed itself. -/
theorem Keyed.item {fields inner : Fields} {key : Bytes} {items : List Json}
    (keyed : Keyed (.object fields)) (found : (key, .array items) ∈ fields)
    (member : .object inner ∈ items) : Sorted inner := by
  cases keyed with
  | object _ _ each =>
    cases each _ found with
    | array _ every => exact (every _ member).sorted

/-- With distinct keys a lookup finds what is there. -/
theorem lookup_eq_some {fields : Fields} (distinct : (fields.map Prod.fst).Nodup) {key : Bytes}
    {item : Json} : fields.lookup key = some item ↔ (key, item) ∈ fields := by
  induction fields with
  | nil => simp
  | cons field fields ih =>
    rw [List.map_cons, List.nodup_cons] at distinct
    obtain ⟨name, value⟩ := field
    rw [List.lookup_cons, List.mem_cons, Prod.mk.injEq]
    by_cases same : key = name
    · subst same
      have absent : (key, item) ∉ fields :=
        fun member => distinct.1 (List.mem_map.mpr ⟨_, member, rfl⟩)
      simp only [beq_self_eq_true, Option.some.injEq, true_and, absent, or_false]
      exact eq_comm
    · have differs : (key == name) = false := beq_false_of_ne same
      simp only [differs, same, false_and, false_or]
      exact ih distinct.2

/-- The keys of a register that are taken for addresses. -/
def isAddress (field : Bytes × Json) : Bool :=
  field.1 ≠ bytes "value" ∧ field.1 ≠ bytes "description"

def addressFields (fields : Fields) : Fields := fields.filter isAddress

/-! The loop over one register's keys. -/

/-- The loop goes on after the key. -/
def Passes (field : Bytes × Json) : Prop :=
  if field.1 = bytes "value" then field.2.integer? ≠ none
  else if field.1 = bytes "description" then field.2.string? ≠ none
  else field.2.integer? ≠ none ∧ stoi field.1 ≠ none

/-- What the loop's locals hold after the keys: the last address counts. -/
def locals (fields : Fields) : Entry where
  address := ((addressFields fields).getLast?.bind fun field => stoi field.1).getD (-1)
  mapAddr := (((addressFields fields).getLast?.bind fun field => field.2.integer?).map getInt).getD
    (-1)
  value := (((fields.lookup (bytes "value")).bind Json.integer?).map getInt).getD (-1)
  description := ((fields.lookup (bytes "description")).bind Json.string?).getD []

theorem readKey_blocked {entry : Entry} {field : Bytes × Json} (blocked : ¬Passes field) :
    ∃ rejection, readKey entry field = .error rejection := by
  unfold Passes at blocked
  unfold readKey
  split
  next isValue =>
    rw [if_pos isValue, not_not] at blocked
    exact ⟨_, by rw [blocked]⟩
  next notValue =>
    rw [if_neg notValue] at blocked
    split
    next isDescription =>
      rw [if_pos isDescription, not_not] at blocked
      exact ⟨_, by rw [blocked]⟩
    next other =>
      rw [if_neg other] at blocked
      cases number : field.2.integer? with
      | none => exact ⟨_, rfl⟩
      | some number =>
        have unread : stoi field.1 = none := by
          by_contra read
          exact blocked ⟨by rw [number]; exact Option.some_ne_none _, read⟩
        exact ⟨_, by rw [unread]⟩

section
variable {fields : Fields} {key : Bytes} {item : Json}

theorem lookup_concat_self (fresh : key ∉ fields.map Prod.fst) :
    (fields ++ [(key, item)]).lookup key = some item := by
  have absent : fields.lookup key = none := by
    rw [List.lookup_eq_none_iff]
    intro field member
    exact bne_iff_ne.mpr fun same => fresh (List.mem_map.mpr ⟨field, member, same.symm⟩)
  rw [List.lookup_append, absent, Option.none_or, List.lookup_cons_self]

theorem lookup_concat_ne {other : Bytes} (differs : other ≠ key) :
    (fields ++ [(key, item)]).lookup other = fields.lookup other := by
  rw [List.lookup_append, List.lookup_cons, beq_false_of_ne differs, List.lookup_nil,
    Option.or_none]

theorem addressFields_concat : addressFields (fields ++ [(key, item)]) =
    if isAddress (key, item) then addressFields fields ++ [(key, item)]
    else addressFields fields := by
  rw [addressFields, List.filter_append, addressFields]
  split
  next kept => rw [List.filter_cons_of_pos kept, List.filter_nil]
  next other => rw [List.filter_cons_of_neg other, List.filter_nil, List.append_nil]

/-- One key brings the locals from the keys before it to the keys up to it. -/
theorem readKey_locals (fresh : key ∉ fields.map Prod.fst) (passes : Passes (key, item)) :
    readKey (locals fields) (key, item) = .ok (locals (fields ++ [(key, item)])) := by
  have values : bytes "description" ≠ bytes "value" := by decide
  by_cases isValue : key = bytes "value"
  · subst isValue
    obtain ⟨number, integral⟩ := Option.ne_none_iff_exists'.mp ((if_pos rfl).mp passes)
    have kept : addressFields (fields ++ [(bytes "value", item)]) = addressFields fields :=
      addressFields_concat.trans (if_neg (by simp [isAddress]))
    simp only [readKey, if_true, integral, locals, kept, lookup_concat_self fresh,
      lookup_concat_ne values, Option.bind_some, Option.map_some, Option.getD_some]
  · by_cases isDescription : key = bytes "description"
    · subst isDescription
      simp only [Passes, if_neg values, if_true] at passes
      obtain ⟨text, textual⟩ := Option.ne_none_iff_exists'.mp passes
      have kept : addressFields (fields ++ [(bytes "description", item)]) = addressFields fields :=
        addressFields_concat.trans (if_neg (by simp [isAddress]))
      simp only [readKey, if_neg values, if_true, textual, locals, kept, lookup_concat_self fresh,
        lookup_concat_ne values.symm, Option.bind_some, Option.getD_some]
    · simp only [Passes, if_neg isValue, if_neg isDescription] at passes
      obtain ⟨number, integral⟩ := Option.ne_none_iff_exists'.mp passes.1
      obtain ⟨address, read⟩ := Option.ne_none_iff_exists'.mp passes.2
      have last : addressFields (fields ++ [(key, item)]) = addressFields fields ++ [(key, item)] :=
        addressFields_concat.trans (if_pos (by simp [isAddress, isValue, isDescription]))
      simp only [readKey, if_neg isValue, if_neg isDescription, integral, read, locals, last,
        lookup_concat_ne (Ne.symm isValue), lookup_concat_ne (Ne.symm isDescription),
        List.getLast?_concat, Option.bind_some, Option.map_some, Option.getD_some]

end

/-- The loop ends with `locals` when every key passes, and rejects otherwise. -/
theorem foldlM_readKey {fields : Fields} (distinct : (fields.map Prod.fst).Nodup) :
    ((∀ field ∈ fields, Passes field) → fields.foldlM readKey {} = .ok (locals fields)) ∧
      (¬(∀ field ∈ fields, Passes field) →
        ∃ rejection, fields.foldlM readKey {} = .error rejection) := by
  induction fields using List.reverseRecOn with
  | nil => exact ⟨fun _ => rfl, fun blocked => absurd (fun _ member => nomatch member) blocked⟩
  | append_singleton fields field ih =>
    obtain ⟨key, item⟩ := field
    rw [List.map_append, List.nodup_append] at distinct
    obtain ⟨before, -, apart⟩ := distinct
    have fresh : key ∉ fields.map Prod.fst :=
      fun member => apart key member key List.mem_cons_self rfl
    rw [List.foldlM_append]
    by_cases earlier : ∀ field ∈ fields, Passes field
    · rw [(ih before).1 earlier]
      change (_ → readKey _ _ >>= pure = _) ∧ (_ → ∃ rejection, readKey _ _ >>= pure = _)
      rw [bind_pure]
      constructor
      · intro all
        exact readKey_locals fresh (all _ (List.mem_append_right _ List.mem_cons_self))
      · intro blocked
        refine readKey_blocked fun passes => blocked fun field member => ?_
        rcases List.mem_append.mp member with old | last
        · exact earlier field old
        · exact (List.mem_singleton.mp last) ▸ passes
    · refine ⟨fun all => absurd (fun field member => all field (List.mem_append_left _ member)) earlier,
        fun _ => ?_⟩
      obtain ⟨rejection, stopped⟩ := (ih before).2 earlier
      exact ⟨rejection, by rw [stopped]; rfl⟩

/-! One register. -/

/-- The address key that counts: the last one in byte order. -/
def Last (fields : Fields) (field : Bytes × Json) : Prop :=
  field ∈ fields ∧ isAddress field = true ∧
    ∀ other ∈ fields, isAddress other = true → other.1 ≤ field.1

structure AcceptableEntry (fields : Fields) : Prop where
  value : ∃ item number, (bytes "value", item) ∈ fields ∧ item.integer? = some number ∧
    ¬number ≡ -1 [ZMOD 2 ^ 32]
  description : ∃ text, (bytes "description", .string text) ∈ fields ∧ text ≠ []
  others : ∀ field ∈ fields, isAddress field = true → field.2.integer? ≠ none ∧ stoi field.1 ≠ none
  last : ∃ field number address, Last fields field ∧ field.2.integer? = some number ∧
    ¬number ≡ -1 [ZMOD 2 ^ 32] ∧ stoi field.1 = some address ∧ address ≠ -1

/-- Where the parts of a register come from. -/
structure ReadsEntry (fields : Fields) (reg : RegisterItem) : Prop where
  value : ∃ item number, (bytes "value", item) ∈ fields ∧ item.integer? = some number ∧
    reg.value = getInt number
  description : (bytes "description", .string reg.description) ∈ fields
  last : ∃ field number, Last fields field ∧ field.2.integer? = some number ∧
    reg.mapAddr = getInt number ∧ stoi field.1 = some reg.address

theorem getInt_eq_neg_one (number : Int) : getInt number = -1 ↔ number ≡ -1 [ZMOD 2 ^ 32] := by
  rw [getInt, Int32.ofInt_eq_iff_bmod_eq_toInt]
  change number.bmod (2 ^ 32) = -1 ↔ number % 2 ^ 32 = -1 % 2 ^ 32
  have bound := Int.emod_lt_of_pos number (by decide : (0 : Int) < 2 ^ 32)
  have nonneg := Int.emod_nonneg number (by decide : (2 ^ 32 : Int) ≠ 0)
  rw [Int.bmod_def]
  split <;> omega

theorem string?_eq_some {item : Json} {text : Bytes} :
    item.string? = some text ↔ item = .string text := by
  cases item <;> simp [Json.string?]

theorem array?_eq_some {item : Json} {items : List Json} :
    item.array? = some items ↔ item = .array items := by
  cases item <;> simp [Json.array?]

section
variable {fields : Fields} (sorted : Sorted fields)
include sorted

/-- One key stands for one field. -/
theorem field_unique {first second : Bytes × Json} (left : first ∈ fields) (right : second ∈ fields)
    (same : first.1 = second.1) : first = second := by
  have one : fields.lookup first.1 = some first.2 := (lookup_eq_some sorted.nodup).mpr left
  have other : fields.lookup second.1 = some second.2 := (lookup_eq_some sorted.nodup).mpr right
  rw [same, other] at one
  exact Prod.ext same (Option.some.inj one).symm

theorem last_iff {field : Bytes × Json} :
    (addressFields fields).getLast? = some field ↔ Last fields field := by
  have ordered : (addressFields fields).Pairwise (fun first second => first.1 < second.1) :=
    (List.pairwise_map.mp sorted).sublist List.filter_sublist
  have greatest : ∀ last, (addressFields fields).getLast? = some last → Last fields last := by
    intro last found
    obtain ⟨before, split⟩ := List.getLast?_eq_some_iff.mp found
    have member : last ∈ addressFields fields := split ▸ List.mem_append_right _ List.mem_cons_self
    obtain ⟨known, taken⟩ := List.mem_filter.mp member
    refine ⟨known, taken, fun other present address => ?_⟩
    have listed : other ∈ before ++ [last] := split ▸ List.mem_filter.mpr ⟨present, address⟩
    rcases List.mem_append.mp listed with early | late
    · rw [split, List.pairwise_append] at ordered
      exact le_of_lt (ordered.2.2 other early last List.mem_cons_self)
    · rw [List.mem_singleton.mp late]
  refine ⟨greatest field, fun last => ?_⟩
  have nonempty : addressFields fields ≠ [] :=
    List.ne_nil_of_mem (List.mem_filter.mpr ⟨last.1, last.2.1⟩)
  have found := List.getLast?_eq_some_getLast nonempty
  have other := greatest _ found
  have same := le_antisymm (other.2.2 field last.1 last.2.1) (last.2.2 _ other.1 other.2.1)
  rw [found, field_unique sorted last.1 other.1 same]

theorem AcceptableEntry.passes (acceptable : AcceptableEntry fields) :
    ∀ field ∈ fields, Passes field := by
  intro field member
  unfold Passes
  split
  next isValue =>
    obtain ⟨item, number, known, integral, -⟩ := acceptable.value
    rw [field_unique sorted member known isValue, integral]
    exact Option.some_ne_none _
  next notValue =>
    split
    next isDescription =>
      obtain ⟨text, known, -⟩ := acceptable.description
      rw [field_unique sorted member known isDescription]
      exact Option.some_ne_none _
    next other => exact acceptable.others field member (by simp [isAddress, notValue, other])

theorem locals_value {item : Json} {number : Int} (known : (bytes "value", item) ∈ fields)
    (integral : item.integer? = some number) : (locals fields).value = getInt number := by
  have found := (lookup_eq_some sorted.nodup).mpr known
  simp only [locals, found, Option.bind_some, integral, Option.map_some, Option.getD_some]

theorem value_of_locals (present : (locals fields).value ≠ -1) :
    ∃ item number, (bytes "value", item) ∈ fields ∧ item.integer? = some number := by
  cases found : fields.lookup (bytes "value") with
  | none => simp [locals, found] at present
  | some item =>
    cases integral : item.integer? with
    | none => simp [locals, found, integral] at present
    | some number => exact ⟨item, number, (lookup_eq_some sorted.nodup).mp found, integral⟩

theorem locals_description {text : Bytes} (known : (bytes "description", .string text) ∈ fields) :
    (locals fields).description = text := by
  have found := (lookup_eq_some sorted.nodup).mpr known
  simp only [locals, found, Option.bind_some, Json.string?, Option.getD_some]

theorem description_of_locals (present : (locals fields).description ≠ []) :
    ∃ text, (bytes "description", .string text) ∈ fields := by
  cases found : fields.lookup (bytes "description") with
  | none => simp [locals, found] at present
  | some item =>
    cases textual : item.string? with
    | none => simp [locals, found, textual] at present
    | some text =>
      rw [string?_eq_some.mp textual] at found
      exact ⟨text, (lookup_eq_some sorted.nodup).mp found⟩

theorem locals_last {field : Bytes × Json} {number : Int} {address : Int32}
    (last : Last fields field) (integral : field.2.integer? = some number)
    (read : stoi field.1 = some address) :
    (locals fields).address = address ∧ (locals fields).mapAddr = getInt number := by
  have found := (last_iff sorted).mpr last
  simp only [locals, found, Option.bind_some, integral, read, Option.map_some, Option.getD_some,
    and_self]

theorem last_of_locals (present : (locals fields).address ≠ -1) :
    ∃ field address, Last fields field ∧ stoi field.1 = some address := by
  cases found : (addressFields fields).getLast? with
  | none => simp [locals, found] at present
  | some field =>
    cases read : stoi field.1 with
    | none => simp [locals, found, read] at present
    | some address => exact ⟨field, address, (last_iff sorted).mp found, read⟩

theorem ReadsEntry.eq_locals {reg : RegisterItem} (reads : ReadsEntry fields reg) :
    reg = { address := (locals fields).address, mapAddr := (locals fields).mapAddr,
            value := (locals fields).value, description := (locals fields).description } := by
  obtain ⟨⟨item, number, valued, integral, value⟩, described, field, mapped, last, mapping, mapAddr,
    readable⟩ := reads
  obtain ⟨address, mapping⟩ := locals_last sorted last mapping readable
  rw [address, mapping, locals_value sorted valued integral, locals_description sorted described,
    ← value, ← mapAddr]

omit sorted in
/-- The final check of one register, on what the loop left. -/
theorem parseRegister_locals (ended : fields.foldlM readKey {} = .ok (locals fields)) :
    parseRegister (.object fields) =
      if (locals fields).address = -1 ∨ (locals fields).mapAddr = -1 ∨ (locals fields).value = -1 ∨
        (locals fields).description = [] then .error .entryIncomplete
      else .ok { address := (locals fields).address, mapAddr := (locals fields).mapAddr,
                 value := (locals fields).value, description := (locals fields).description } := by
  simp only [parseRegister, ended]
  rfl

/-- A register with everything present is what the declarative reading asks for. -/
theorem acceptable_of_locals (all : ∀ field ∈ fields, Passes field)
    (address : (locals fields).address ≠ -1) (mapAddr : (locals fields).mapAddr ≠ -1)
    (value : (locals fields).value ≠ -1) (description : (locals fields).description ≠ []) :
    AcceptableEntry fields ∧
      ReadsEntry fields { address := (locals fields).address, mapAddr := (locals fields).mapAddr,
                          value := (locals fields).value,
                          description := (locals fields).description } := by
  obtain ⟨item, number, valued, integral⟩ := value_of_locals sorted value
  obtain ⟨text, described⟩ := description_of_locals sorted description
  obtain ⟨field, read, last, readable⟩ := last_of_locals sorted address
  have others : ∀ field ∈ fields, isAddress field = true →
      field.2.integer? ≠ none ∧ stoi field.1 ≠ none := by
    intro other member taken
    have passes := all other member
    obtain ⟨notValue, notDescription⟩ := of_decide_eq_true taken
    rwa [Passes, if_neg notValue, if_neg notDescription] at passes
  obtain ⟨mapped, mapping⟩ := Option.ne_none_iff_exists'.mp (others field last.1 last.2.1).1
  have ends := locals_last sorted last mapping readable
  have values := locals_value sorted valued integral
  have texts := locals_description sorted described
  constructor
  · refine ⟨⟨item, number, valued, integral, ?_⟩, ⟨text, described, texts ▸ description⟩, others,
      ⟨field, mapped, read, last, mapping, ?_, readable, ends.1 ▸ address⟩⟩
    · rwa [values, ne_eq, getInt_eq_neg_one] at value
    · rwa [ends.2, ne_eq, getInt_eq_neg_one] at mapAddr
  · refine ⟨⟨item, number, valued, integral, values⟩, ?_, ⟨field, mapped, last, mapping, ends.2, ?_⟩⟩
    · rw [texts]
      exact described
    · rw [ends.1]
      exact readable

/-- The declarative reading of one register is what the loop and its final check compute. -/
theorem parseRegister_eq_ok {reg : RegisterItem} :
    parseRegister (.object fields) = .ok reg ↔ AcceptableEntry fields ∧ ReadsEntry fields reg := by
  constructor
  · intro parsed
    by_cases all : ∀ field ∈ fields, Passes field
    · rw [parseRegister_locals ((foldlM_readKey sorted.nodup).1 all)] at parsed
      split at parsed
      next => cases parsed
      next complete =>
        obtain ⟨address, mapAddr, value, description⟩ := by simpa only [not_or] using complete
        cases parsed
        exact acceptable_of_locals sorted all address mapAddr value description
    · obtain ⟨rejection, stopped⟩ := (foldlM_readKey sorted.nodup).2 all
      simp only [parseRegister, stopped] at parsed
      cases parsed
  · rintro ⟨acceptable, reads⟩
    have ended := (foldlM_readKey sorted.nodup).1 (acceptable.passes sorted)
    obtain ⟨item, number, valued, integral, value⟩ := acceptable.value
    obtain ⟨text, described, nonempty⟩ := acceptable.description
    obtain ⟨field, mapped, address, last, mapping, mapAddr, readable, present⟩ := acceptable.last
    have ends := locals_last sorted last mapping readable
    have values := locals_value sorted valued integral
    have texts := locals_description sorted described
    rw [parseRegister_locals ended, if_neg, reads.eq_locals sorted]
    rw [ends.1, ends.2, values, texts, getInt_eq_neg_one, getInt_eq_neg_one]
    rintro (missing | missing | missing | missing)
    · exact present missing
    · exact mapAddr missing
    · exact value missing
    · exact nonempty missing

omit sorted in
theorem AcceptableEntry.reads (acceptable : AcceptableEntry fields) :
    ∃ reg, ReadsEntry fields reg := by
  obtain ⟨item, number, valued, integral, -⟩ := acceptable.value
  obtain ⟨text, described, -⟩ := acceptable.description
  obtain ⟨field, mapped, address, last, mapping, -, readable, -⟩ := acceptable.last
  exact ⟨{ address := address, mapAddr := getInt mapped, value := getInt number,
           description := text },
    ⟨item, number, valued, integral, rfl⟩, described, ⟨field, mapped, last, mapping, rfl, readable⟩⟩

end

/-! One report. -/

theorem bind_eq_ok {ε α β : Type} {first : Except ε α} {next : α → Except ε β} {result : β} :
    (first >>= next) = .ok result ↔ ∃ value, first = .ok value ∧ next value = .ok result := by
  cases first with
  | error rejection =>
    exact ⟨fun stopped => (nomatch stopped), fun ⟨_, ran, _⟩ => (nomatch ran)⟩
  | ok value =>
    constructor
    · exact fun ended => ⟨value, rfl, ended⟩
    · rintro ⟨_, ran, ended⟩
      cases ran
      exact ended

theorem mapM_eq_ok {ε α β : Type} {step : α → Except ε β} {items : List α} {results : List β} :
    items.mapM step = .ok results ↔
      List.Forall₂ (fun item result => step item = .ok result) items results := by
  induction items generalizing results with
  | nil =>
    rw [List.mapM_nil, List.forall₂_nil_left_iff]
    exact ⟨fun same => (Except.ok.inj same).symm, fun same => same ▸ rfl⟩
  | cons item items ih =>
    rw [List.mapM_cons, bind_eq_ok, List.forall₂_cons_left_iff]
    simp only [bind_eq_ok, ih]
    constructor
    · rintro ⟨result, ran, rest, others, same⟩
      exact ⟨result, rest, ran, others, (Except.ok.inj same).symm⟩
    · rintro ⟨result, rest, ran, others, rfl⟩
      exact ⟨result, ran, rest, others, rfl⟩

/-- The integer under a key. -/
def IntegerAt (fields : Fields) (key : String) (number : Int) : Prop :=
  ∃ item, (bytes key, item) ∈ fields ∧ item.integer? = some number

structure AcceptableReport (fields : Fields) : Prop where
  integers : ∀ key ∈ ["id", "channel", "pdu_addr", "pdu_func"], ∃ number, IntegerAt fields key number
  strings : ∀ key ∈ ["pdu_data", "timestamp"], ∃ text, (bytes key, .string text) ∈ fields
  registers : ∃ items, (bytes "register_map", .array items) ∈ fields ∧
    ∀ item ∈ items, ∃ inner, item = .object inner ∧ AcceptableEntry inner

/-- Where the parts of a message come from: one register for each element, in order. -/
structure ReadsReport (fields : Fields) (msg : ModbusMasterMsg) : Prop where
  id : ∃ number, IntegerAt fields "id" number ∧ msg.id = getInt number
  channel : ∃ number, IntegerAt fields "channel" number ∧ msg.channel = getInt number
  pduAddr : ∃ number, IntegerAt fields "pdu_addr" number ∧ msg.pduAddr = getInt number
  pduFunc : ∃ number, IntegerAt fields "pdu_func" number ∧ msg.pduFunc = getInt number
  pduData : (bytes "pdu_data", .string msg.pduData) ∈ fields
  timestamp : (bytes "timestamp", .string msg.timestamp) ∈ fields
  registers : ∃ items, (bytes "register_map", .array items) ∈ fields ∧
    List.Forall₂ (fun item reg => ∃ inner, item = .object inner ∧ ReadsEntry inner reg) items
      msg.registerMap

def Acceptable (j : Json) : Prop := ∃ fields, j = .object fields ∧ AcceptableReport fields

def Reads (j : Json) (msg : ModbusMasterMsg) : Prop :=
  ∃ fields, j = .object fields ∧ ReadsReport fields msg

section
variable {fields : Fields} (sorted : Sorted fields)
include sorted

/-- What one field check finds. -/
theorem field_eq_some {α : Type} {key : String} {read : Json → Option α} {value : α} :
    ((Json.object fields).get? (bytes key)).bind read = some value ↔
      ∃ item, (bytes key, item) ∈ fields ∧ read item = some value := by
  rw [Option.bind_eq_some_iff]
  simp only [Json.get?, lookup_eq_some sorted.nodup]

theorem intField_eq_ok {key : String} {value : Int32} : intField (.object fields) key = .ok value ↔
    ∃ number, IntegerAt fields key number ∧ value = getInt number := by
  simp only [IntegerAt, ← field_eq_some sorted, intField]
  split
  next number found => simp [found, eq_comm]
  next missing => simp [missing]

theorem stringField_eq_ok {key : String} {text : Bytes} :
    stringField (.object fields) key = .ok text ↔ (bytes key, .string text) ∈ fields := by
  have present : (bytes key, .string text) ∈ fields ↔
      ∃ item, (bytes key, item) ∈ fields ∧ item.string? = some text := by
    simp only [string?_eq_some, exists_eq_right]
  rw [present, ← field_eq_some sorted, stringField]
  split
  next read found => simp [found]
  next missing => simp [missing]

theorem arrayField_eq_ok {key : String} {items : List Json} :
    arrayField (.object fields) key = .ok items ↔ (bytes key, .array items) ∈ fields := by
  have present : (bytes key, .array items) ∈ fields ↔
      ∃ item, (bytes key, item) ∈ fields ∧ item.array? = some items := by
    simp only [array?_eq_some, exists_eq_right]
  rw [present, ← field_eq_some sorted, arrayField]
  split
  next read found => simp [found]
  next missing => simp [missing]

end

/-- An array of registers is read element by element. -/
theorem registers_eq_ok {items : List Json} {regs : List RegisterItem}
    (keyed : ∀ inner, .object inner ∈ items → Sorted inner) :
    items.mapM parseRegister = .ok regs ↔
      (∀ item ∈ items, ∃ inner, item = .object inner ∧ AcceptableEntry inner) ∧
        List.Forall₂ (fun item reg => ∃ inner, item = .object inner ∧ ReadsEntry inner reg) items
          regs := by
  rw [mapM_eq_ok, ← List.forall₂_and_left]
  induction items generalizing regs with
  | nil => simp only [List.forall₂_nil_left_iff]
  | cons item items ih =>
    have one : ∀ reg, parseRegister item = .ok reg ↔
        (∃ inner, item = .object inner ∧ AcceptableEntry inner) ∧
          ∃ inner, item = .object inner ∧ ReadsEntry inner reg := by
      intro reg
      cases item with
      | object inner =>
        rw [parseRegister_eq_ok (keyed inner List.mem_cons_self)]
        simp
      | _ => simp [parseRegister]
    simp only [List.forall₂_cons_left_iff, one]
    simp only [ih fun inner member => keyed inner (List.mem_cons_of_mem _ member)]

/-- The declarative reading of a report is what `parseModbusMsg` computes. -/
theorem parseModbusMsg_eq_ok {fields : Fields} (keyed : Keyed (.object fields))
    {msg : ModbusMasterMsg} :
    parseModbusMsg (.object fields) = .ok msg ↔
      AcceptableReport fields ∧ ReadsReport fields msg := by
  have sorted := keyed.sorted
  simp only [parseModbusMsg, bind_eq_ok, intField_eq_ok sorted, stringField_eq_ok sorted,
    arrayField_eq_ok sorted]
  constructor
  · rintro ⟨id, ⟨idNumber, idAt, rfl⟩, channel, ⟨channelNumber, channelAt, rfl⟩, pduAddr,
      ⟨addrNumber, addrAt, rfl⟩, pduFunc, ⟨funcNumber, funcAt, rfl⟩, pduData, dataAt, timestamp,
      timeAt, items, itemsAt, regs, parsed, same⟩
    cases same
    obtain ⟨each, all⟩ := (registers_eq_ok fun inner => keyed.item itemsAt).mp parsed
    constructor
    · refine ⟨?_, ?_, ⟨items, itemsAt, each⟩⟩
      · simp only [List.forall_mem_cons]
        exact ⟨⟨_, idAt⟩, ⟨_, channelAt⟩, ⟨_, addrAt⟩, ⟨_, funcAt⟩, List.forall_mem_nil _⟩
      · simp only [List.forall_mem_cons]
        exact ⟨⟨_, dataAt⟩, ⟨_, timeAt⟩, List.forall_mem_nil _⟩
    · exact ⟨⟨_, idAt, rfl⟩, ⟨_, channelAt, rfl⟩, ⟨_, addrAt, rfl⟩, ⟨_, funcAt, rfl⟩, dataAt, timeAt,
        ⟨items, itemsAt, all⟩⟩
  · rintro ⟨acceptable, reads⟩
    obtain ⟨items, itemsAt, each⟩ := acceptable.registers
    obtain ⟨others, othersAt, all⟩ := reads.registers
    have same := field_unique sorted othersAt itemsAt rfl
    cases same
    exact ⟨msg.id, reads.id, msg.channel, reads.channel, msg.pduAddr, reads.pduAddr, msg.pduFunc,
      reads.pduFunc, msg.pduData, reads.pduData, msg.timestamp, reads.timestamp, items, itemsAt,
      msg.registerMap, (registers_eq_ok fun inner => keyed.item itemsAt).mpr ⟨each, all⟩, rfl⟩

theorem exists_forall₂ {α β : Type} {R : α → β → Prop} (items : List α)
    (each : ∀ item ∈ items, ∃ result, R item result) : ∃ results, List.Forall₂ R items results := by
  induction items with
  | nil => exact ⟨[], .nil⟩
  | cons item items ih =>
    obtain ⟨result, one⟩ := each item List.mem_cons_self
    obtain ⟨results, rest⟩ := ih fun other member => each other (List.mem_cons_of_mem _ member)
    exact ⟨result :: results, .cons one rest⟩

/-- An acceptable report says what its message is. -/
theorem AcceptableReport.reads {fields : Fields} (acceptable : AcceptableReport fields) :
    ∃ msg, ReadsReport fields msg := by
  obtain ⟨items, itemsAt, each⟩ := acceptable.registers
  obtain ⟨regs, all⟩ := exists_forall₂ items
    (R := fun item reg => ∃ inner, item = .object inner ∧ ReadsEntry inner reg) (by
      intro item member
      obtain ⟨inner, same, entry⟩ := each item member
      obtain ⟨reg, reads⟩ := entry.reads
      exact ⟨reg, inner, same, reads⟩)
  obtain ⟨id, idAt⟩ := acceptable.integers "id" (by simp)
  obtain ⟨channel, channelAt⟩ := acceptable.integers "channel" (by simp)
  obtain ⟨addr, addrAt⟩ := acceptable.integers "pdu_addr" (by simp)
  obtain ⟨func, funcAt⟩ := acceptable.integers "pdu_func" (by simp)
  obtain ⟨data, dataAt⟩ := acceptable.strings "pdu_data" (by simp)
  obtain ⟨time, timeAt⟩ := acceptable.strings "timestamp" (by simp)
  exact ⟨{ id := getInt id, channel := getInt channel, pduAddr := getInt addr,
           pduFunc := getInt func, pduData := data, timestamp := time, registerMap := regs },
    ⟨id, idAt, rfl⟩, ⟨channel, channelAt, rfl⟩, ⟨addr, addrAt, rfl⟩, ⟨func, funcAt, rfl⟩, dataAt,
    timeAt, ⟨items, itemsAt, all⟩⟩

theorem object_of_accepted {j : Json} {msg : ModbusMasterMsg} (parsed : parseModbusMsg j = .ok msg) :
    ∃ fields, j = .object fields := by
  cases j with
  | object fields => exact ⟨fields, rfl⟩
  | _ => cases parsed

theorem reads_of_accepted {j : Json} {msg : ModbusMasterMsg} (keyed : Keyed j)
    (parsed : parseModbusMsg j = .ok msg) : Acceptable j ∧ Reads j msg := by
  obtain ⟨fields, rfl⟩ := object_of_accepted parsed
  obtain ⟨acceptable, reads⟩ := (parseModbusMsg_eq_ok keyed).mp parsed
  exact ⟨⟨fields, rfl, acceptable⟩, fields, rfl, reads⟩

theorem accepted_of_acceptable {j : Json} (keyed : Keyed j) (acceptable : Acceptable j) :
    ∃ msg, parseModbusMsg j = .ok msg := by
  obtain ⟨fields, rfl, acceptable⟩ := acceptable
  obtain ⟨msg, reads⟩ := acceptable.reads
  exact ⟨msg, (parseModbusMsg_eq_ok keyed).mpr ⟨acceptable, reads⟩⟩

/-- The accepted language and the message of each report in it; every other
document is rejected, whatever is thrown on the way. -/
theorem accepted_language (j : Json) (keyed : Keyed j) :
    ((∃ msg, parseModbusMsg j = .ok msg) ↔ Acceptable j) ∧
      (∀ msg, parseModbusMsg j = .ok msg → Reads j msg) ∧
      (¬Acceptable j → ∃ rejection, parseModbusMsg j = .error rejection) := by
  refine ⟨⟨fun ⟨msg, parsed⟩ => (reads_of_accepted keyed parsed).1, accepted_of_acceptable keyed⟩,
    fun msg parsed => (reads_of_accepted keyed parsed).2, fun outside => ?_⟩
  cases parsed : parseModbusMsg j with
  | ok msg => exact absurd (reads_of_accepted keyed parsed).1 outside
  | error rejection => exact ⟨rejection, rfl⟩

theorem keyed_register (key : String) (mapAddr value : UInt64) (description : Bytes)
    (sorted : [bytes key, bytes "description", bytes "value"].Pairwise (· < ·)) :
    Keyed (registerObject key mapAddr value description) := by
  refine .object _ sorted ?_
  simp only [List.forall_mem_cons]
  exact ⟨.unsigned _, .string _, .unsigned _, List.forall_mem_nil _⟩

theorem keyed_document (id channel : UInt64) (pduData timestamp : Bytes) {registers : List Json}
    (each : ∀ item ∈ registers, Keyed item) :
    Keyed (document id channel pduData timestamp registers) := by
  have sorted : [bytes "channel", bytes "id", bytes "pdu_addr", bytes "pdu_data", bytes "pdu_func",
      bytes "register_map", bytes "timestamp"].Pairwise (· < ·) := by decide
  refine .object _ sorted ?_
  simp only [List.forall_mem_cons]
  exact ⟨.unsigned _, .unsigned _, .unsigned _, .string _, .unsigned _, .array _ each, .string _,
    List.forall_mem_nil _⟩

/-- A document with two registers, which its message has in the same order. -/
def twoRegisters : Json :=
  document 7 1 (bytes "0C 00") (bytes "20260325180500")
    [registerObject "17" 1 221 (bytes "B"), registerObject "16" 0 220 (bytes "A")]

theorem accepted_language_two : Reads twoRegisters
    { sampleMsg with registerMap := [⟨17, 1, 221, bytes "B"⟩, ⟨16, 0, 220, bytes "A"⟩] } := by
  have keyed : Keyed twoRegisters := keyed_document _ _ _ _ (by
    simp only [List.forall_mem_cons]
    exact ⟨keyed_register _ _ _ _ (by decide), keyed_register _ _ _ _ (by decide), List.forall_mem_nil _⟩)
  exact (accepted_language twoRegisters keyed).2.1 _ (by decide)

end ModbusDatabase.ReportLanguage
