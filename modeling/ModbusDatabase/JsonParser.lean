import ModbusDatabase.JsonSpelling
import ModbusDatabase.ReportLanguage

/-! `json::parse`: from the bytes of a payload to a document, and the JSON texts
that it accepts. -/

namespace ModbusDatabase.JsonParser
open Library Message JsonLexer JsonNumbers JsonSpelling
open Report hiding isDigit
set_option autoImplicit false

abbrev Fields := List (Bytes × Json)

/-- Assignment to `object[key]`; a `std::map` keeps its keys in order. -/
def assign : Fields → Bytes → Json → Fields
  | [], key, value => [(key, value)]
  | (name, old) :: fields, key, value =>
    if key < name then (key, value) :: (name, old) :: fields
    else if key = name then (name, value) :: fields
    else (name, old) :: assign fields key value

def leafValue : Leaf → Json
  | .null => .null
  | .boolean value => .boolean value
  | .integer value => .integer value
  | .unsigned value => .unsigned value
  | .float => .float

/-- What `json_sax_dom_parser` makes of the events. -/
def dom : Records.Builder Bytes Leaf Json Fields where
  leaf := leafValue
  text := .string
  array := .array
  object := .object
  empty := []
  set := assign

abbrev State := Records.State Bytes Json Fields

/-- The value when the input has to end. -/
def result (s : State) : Option Json :=
  match s.control, s.frames with
  | .after value, [] => some value
  | _, _ => none

/-- The loop of `sax_parse_internal`, with one turn for each token, and the check for
the end of the input behind it. -/
def saxParseInternal : Nat → State → Bytes → Option Json
  | 0, _, _ => none
  | fuel + 1, s, text =>
    match scan text with
    | none => none
    | some none => result s
    | some (some (token, rest)) =>
      (Records.step dom s token).bind fun next => saxParseInternal fuel next rest

/-- `none` stands for the exception. -/
def parse (text : Bytes) : Option Json :=
  (skipBom text).bind fun text => saxParseInternal (text.length + 1) Records.start text

/-! The texts. -/

/-- The tokens with white space around them. A NUL ends a text, whatever stands behind it. -/
inductive Spells : List Token → Bytes → Prop
  | nil (blank behind : Bytes) (spaces : ∀ byte ∈ blank, isWhitespace byte = true)
      (ends : ∀ byte ∈ behind.head?, byte = 0) : Spells [] (blank ++ behind)
  | cons (blank word text : Bytes) (token : Token) (tokens : List Token)
      (spaces : ∀ byte ∈ blank, isWhitespace byte = true) (lexeme : Lexeme token word)
      (more : Spells tokens text) : Spells (token :: tokens) (blank ++ word ++ text)

/-- A text of the document, perhaps with a byte order mark in front. -/
def IsText (text : Bytes) (doc : Records.Doc Bytes Leaf) : Prop :=
  Spells doc.tokens text ∨ ∃ body, text = byteOrderMark ++ body ∧ Spells doc.tokens body

/-- The scanner takes the tokens one after the other up to the end of the input. -/
inductive Lexes : Bytes → List Token → Prop
  | nil (text : Bytes) (ends : scan text = some none) : Lexes text []
  | cons (text rest : Bytes) (token : Token) (tokens : List Token)
      (scanned : scan text = some (some (token, rest))) (more : Lexes rest tokens) :
      Lexes text (token :: tokens)

section
variable {text rest : Bytes} {token : Token} {tokens : List Token} {s : State} {j : Json} {fuel : Nat}

theorem of_scan (scanned : scan text = some (some (token, rest))) : ∃ blank word,
    (∀ byte ∈ blank, isWhitespace byte = true) ∧ Lexeme token word ∧ text = blank ++ word ++ rest := by
  rw [scan] at scanned
  split at scanned
  next => cases scanned
  next byte behind opened =>
    split at scanned
    next => cases scanned
    next =>
      obtain ⟨_, inner, same⟩ := Option.map_eq_some_iff.mp scanned
      cases same
      obtain ⟨word, lexeme, split⟩ := of_scanToken inner
      refine ⟨text.takeWhile isWhitespace, word, fun _ member => List.mem_takeWhile_imp member, lexeme, ?_⟩
      rw [List.append_assoc, ← split, ← opened, List.takeWhile_append_dropWhile]

theorem spells_of_ends (ends : scan text = some none) : Spells [] text := by
  rw [← List.takeWhile_append_dropWhile (p := isWhitespace) (l := text)]
  refine .nil _ _ (fun _ member => List.mem_takeWhile_imp member) fun byte first => ?_
  rw [scan] at ends
  split at ends
  next empty => rw [empty] at first; cases first
  next other behind opened =>
    rw [opened] at first
    cases first
    split at ends
    next zero => exact zero
    next =>
      obtain ⟨_, _, same⟩ := Option.map_eq_some_iff.mp ends
      cases same

/-- The scanner passes over white space. -/
theorem scan_append {blank : Bytes} (spaces : ∀ byte ∈ blank, isWhitespace byte = true) (text : Bytes) :
    scan (blank ++ text) = scan text := by
  simp only [scan, List.dropWhile_append_of_pos spaces]

theorem scan_lexeme {word : Bytes} (lexeme : Lexeme token word)
    (stops : (∃ leaf, token = .leaf leaf) → Stops rest) :
    scan (word ++ rest) = some (some (token, rest)) := by
  obtain ⟨byte, more, rfl, visible, nonzero, scanned⟩ := scanToken_lexeme lexeme stops
  have dark : ¬isWhitespace byte = true := by
    rw [visible]
    exact Bool.false_ne_true
  rw [scan, List.cons_append, List.dropWhile_cons_of_neg dark]
  simp only [if_neg nonzero, scanned, Option.map_some]

theorem scan_end {behind : Bytes} (ends : ∀ byte ∈ behind.head?, byte = 0) : scan behind = some none := by
  cases behind with
  | nil => rfl
  | cons byte behind =>
    rw [ends byte rfl]
    rfl

theorem stops_of_spaces {blank : Bytes} (spaces : ∀ byte ∈ blank, isWhitespace byte = true)
    (stops : Stops rest) : Stops (blank ++ rest) := by
  cases blank with
  | nil => exact stops
  | cons space blank =>
    have white : ∀ byte : Byte, isWhitespace byte = true →
        isDigit byte = false ∧ byte ≠ 46 ∧ isMark byte = false := by decide +kernel
    rintro byte ⟨⟩
    exact white _ (spaces _ List.mem_cons_self)

/-- No number goes on behind a token that the document closes or separates with next. -/
theorem stops_of_spells (spells : Spells tokens text) (closes : ∀ next ∈ tokens.head?, next.closes) :
    Stops text := by
  cases spells with
  | nil blank behind spaces ends =>
    refine stops_of_spaces spaces fun byte first => ?_
    rw [ends byte first]
    decide
  | cons blank word text token tokens spaces lexeme more =>
    have closed := closes token rfl
    rw [List.append_assoc]
    refine stops_of_spaces spaces ?_
    cases lexeme with
    | structural byte token listed =>
      have plain : ∀ pair ∈ structural,
          isDigit pair.1 = false ∧ pair.1 ≠ 46 ∧ isMark pair.1 = false := by
        simp only [structural, List.forall_mem_cons, List.not_mem_nil, false_imp_iff, implies_true, and_true]
        decide
      rintro other ⟨⟩
      exact plain _ listed
    | _ => exact closed.elim

theorem spells_of_lexes (lexes : Lexes text tokens) : Spells tokens text := by
  induction lexes with
  | nil text ends => exact spells_of_ends ends
  | cons text rest token tokens scanned more ih =>
    obtain ⟨blank, word, spaces, lexeme, rfl⟩ := of_scan scanned
    exact .cons blank word rest token tokens spaces lexeme ih

theorem lexes_of_spells (spells : Spells tokens text) (guarded : Records.Guarded tokens) :
    Lexes text tokens := by
  induction spells with
  | nil blank behind spaces ends =>
    apply Lexes.nil
    rw [scan_append spaces, scan_end ends]
  | cons blank word text token tokens spaces lexeme more ih =>
    obtain ⟨next, rest⟩ := List.isChain_cons.mp guarded
    refine .cons _ text token tokens ?_ (ih rest)
    rw [List.append_assoc, scan_append spaces]
    refine scan_lexeme lexeme ?_
    rintro ⟨leaf, rfl⟩
    exact stops_of_spells more fun other first => next other first ⟨leaf, rfl⟩

/-! The loop. -/

theorem result_eq_some : result s = some j ↔ s = ⟨.after j, []⟩ := by
  obtain ⟨control, frames⟩ := s
  constructor
  · intro found
    cases control with
    | after value =>
      cases frames with
      | nil => cases found; rfl
      | cons => cases found
    | _ => cases found
  · intro same
    cases same
    rfl

theorem of_saxParseInternal (parsed : saxParseInternal fuel s text = some j) :
    ∃ tokens, Lexes text tokens ∧ Records.run dom s tokens = some ⟨.after j, []⟩ := by
  induction fuel generalizing s text with
  | zero => cases parsed
  | succ fuel ih =>
    rw [saxParseInternal] at parsed
    split at parsed
    next => cases parsed
    next ends => exact ⟨[], .nil text ends, congrArg some (result_eq_some.mp parsed)⟩
    next token rest scanned =>
      obtain ⟨next, stepped, later⟩ := Option.bind_eq_some_iff.mp parsed
      obtain ⟨tokens, lexes, ran⟩ := ih later
      refine ⟨token :: tokens, .cons text rest token tokens scanned lexes, ?_⟩
      rw [Records.run_cons, stepped, Option.bind_some, ran]

theorem length_of_scan (scanned : scan text = some (some (token, rest))) : rest.length < text.length := by
  obtain ⟨blank, word, spaces, lexeme, rfl⟩ := of_scan scanned
  have nonempty : 0 < word.length := by
    cases lexeme with
    | number n leaf denotes =>
      obtain ⟨byte, more, opened, -⟩ := numeral_head n
      rw [opened]
      exact Nat.succ_pos _
    | _ => exact Nat.succ_pos _
  rw [List.length_append, List.length_append]
  omega

/-- With a turn for every byte the loop comes to the end of the tokens. -/
theorem saxParseInternal_of_lexes (lexes : Lexes text tokens) (enough : text.length < fuel)
    (ran : Records.run dom s tokens = some ⟨.after j, []⟩) : saxParseInternal fuel s text = some j := by
  induction lexes generalizing fuel s with
  | nil text ends =>
    cases fuel with
    | zero => cases enough
    | succ fuel =>
      rw [saxParseInternal]
      simp only [ends]
      exact result_eq_some.mpr (Option.some.inj ran)
  | cons text rest token tokens scanned more ih =>
    cases fuel with
    | zero => cases enough
    | succ fuel =>
      rw [Records.run_cons] at ran
      obtain ⟨next, stepped, later⟩ := Option.bind_eq_some_iff.mp ran
      have shorter := length_of_scan scanned
      rw [saxParseInternal]
      simp only [scanned, stepped, Option.bind_some]
      exact ih (by omega) later

/-- The loop succeeds exactly on the texts of documents. -/
theorem saxParseInternal_eq_some (enough : text.length < fuel) :
    saxParseInternal fuel Records.start text = some j ↔
      ∃ doc : Records.Doc Bytes Leaf, Spells doc.tokens text ∧ doc.value dom = j := by
  constructor
  · intro parsed
    obtain ⟨tokens, lexes, ran⟩ := of_saxParseInternal parsed
    obtain ⟨doc, rfl, value⟩ := Records.run_eq_some.mp ran
    exact ⟨doc, spells_of_lexes lexes, value⟩
  · rintro ⟨doc, spells, rfl⟩
    have ran : Records.run dom Records.start doc.tokens = some ⟨.after (doc.value dom), []⟩ :=
      Records.run_tokens doc []
    exact saxParseInternal_of_lexes (lexes_of_spells spells (Records.guarded_tokens doc)) enough ran

/-- The byte order mark opens no token. -/
theorem not_spells_mark (doc : Records.Doc Bytes Leaf) (mark : text.head? = some 0xEF) :
    ¬Spells doc.tokens text := by
  intro spells
  obtain ⟨first, tokens, opened, -⟩ := Records.tokens_head doc
  rw [opened] at spells
  cases spells with
  | cons blank word text _ _ spaces lexeme more =>
    rw [List.append_assoc] at mark
    cases blank with
    | cons space blank =>
      have white := spaces space List.mem_cons_self
      rw [List.cons_append, List.head?_cons, Option.some.injEq] at mark
      rw [mark] at white
      exact absurd white (by decide)
    | nil =>
      cases lexeme with
      | structural byte token listed =>
        have other : ∀ pair ∈ structural, pair.1 ≠ (0xEF : Byte) := by
          simp only [structural, List.forall_mem_cons, List.not_mem_nil, false_imp_iff, implies_true, and_true]
          decide
        exact other _ listed (Option.some.inj mark)
      | number n leaf denotes =>
        obtain ⟨byte, rest, word, begins⟩ := numeral_head n
        rw [word] at mark
        rw [Option.some.inj mark] at begins
        exact absurd begins (by decide)
      | _ => exact absurd (Option.some.inj mark) (by decide)

/-- The payloads that parse are the texts of documents, and they parse to what the
documents stand for. -/
theorem parse_eq_some (text : Bytes) (j : Json) :
    parse text = some j ↔ ∃ doc, IsText text doc ∧ doc.value dom = j := by
  rw [parse, skipBom]
  by_cases mark : text.head? = some 0xEF
  · rw [if_pos mark]
    constructor
    · intro parsed
      obtain ⟨body, skipped, parsed⟩ := Option.bind_eq_some_iff.mp parsed
      obtain ⟨⟨_, _⟩, inner, rfl⟩ := Option.map_eq_some_iff.mp skipped
      obtain ⟨_, ⟨-, rfl⟩, rfl⟩ := (Scanner.exact_literal _ _ _ _ _).mp inner
      obtain ⟨doc, spells, value⟩ := (saxParseInternal_eq_some (Nat.lt_succ_self _)).mp parsed
      exact ⟨doc, .inr ⟨_, rfl, spells⟩, value⟩
    · rintro ⟨doc, spells | ⟨body, rfl, spells⟩, value⟩
      · exact absurd spells (not_spells_mark doc mark)
      · rw [(Scanner.exact_literal byteOrderMark ()).scan_append ⟨rfl, rfl⟩, Option.map_some,
          Option.bind_some]
        exact (saxParseInternal_eq_some (Nat.lt_succ_self _)).mpr ⟨doc, spells, value⟩
  · rw [if_neg mark, Option.bind_some, saxParseInternal_eq_some (Nat.lt_succ_self _)]
    constructor
    · rintro ⟨doc, spells, value⟩
      exact ⟨doc, .inl spells, value⟩
    · rintro ⟨doc, spells | ⟨body, rfl, -⟩, value⟩
      · exact ⟨doc, spells, value⟩
      · exact absurd rfl mark

end

/-- A text has the one meaning that its document has; whatever is no text is refused. -/
theorem texts_parse (text : Bytes) :
    (∀ doc, IsText text doc → parse text = some (doc.value dom)) ∧
      ((¬∃ doc, IsText text doc) → parse text = none) := by
  constructor
  · intro doc isText
    exact (parse_eq_some text _).mpr ⟨doc, isText, rfl⟩
  · intro none
    rw [Option.eq_none_iff_forall_ne_some]
    intro j parsed
    obtain ⟨doc, isText, -⟩ := (parse_eq_some text j).mp parsed
    exact none ⟨doc, isText⟩

/-! What a parsed document looks like. -/

/-- Strings and keys are UTF-8. -/
inductive Encoded : Json → Prop
  | null : Encoded .null
  | boolean (value : Bool) : Encoded (.boolean value)
  | integer (value : Int64) : Encoded (.integer value)
  | unsigned (value : UInt64) : Encoded (.unsigned value)
  | float : Encoded .float
  | string (text : Bytes) (isUtf8 : Utf8.WellFormed text) : Encoded (.string text)
  | array (items : List Json) (each : ∀ item ∈ items, Encoded item) : Encoded (.array items)
  | object (fields : Fields) (keys : ∀ field ∈ fields, Utf8.WellFormed field.1)
      (each : ∀ field ∈ fields, Encoded field.2) : Encoded (.object fields)

section
variable {fields : Fields} {key : Bytes} {value : Json}

theorem mem_assign {field : Bytes × Json} (member : field ∈ assign fields key value) :
    field = (key, value) ∨ field ∈ fields := by
  induction fields with
  | nil => exact .inl (List.mem_singleton.mp member)
  | cons first fields ih =>
    obtain ⟨name, old⟩ := first
    rw [assign] at member
    split at member
    next => exact List.mem_cons.mp member
    next =>
    split at member
    next same =>
      subst same
      exact (List.mem_cons.mp member).imp id (List.mem_cons_of_mem _)
    next =>
      rcases List.mem_cons.mp member with here | later
      · exact .inr (here ▸ List.mem_cons_self)
      · exact (ih later).imp id (List.mem_cons_of_mem _)

theorem sorted_assign (sorted : ReportLanguage.Sorted fields) (key : Bytes) (value : Json) :
    ReportLanguage.Sorted (assign fields key value) := by
  unfold ReportLanguage.Sorted at *
  induction fields with
  | nil => exact List.pairwise_singleton _ _
  | cons first fields ih =>
    obtain ⟨name, old⟩ := first
    obtain ⟨least, rest⟩ := List.pairwise_cons.mp sorted
    rw [assign]
    split
    next less =>
      refine List.pairwise_cons.mpr ⟨fun other member => ?_, sorted⟩
      rcases List.mem_cons.mp member with here | later
      · exact here ▸ less
      · exact less.trans (least other later)
    next notLess =>
    split
    next same => exact sorted
    next differs =>
      refine List.pairwise_cons.mpr ⟨fun other member => ?_, ih rest⟩
      obtain ⟨field, known, rfl⟩ := List.mem_map.mp member
      rcases mem_assign known with rfl | old
      · exact lt_of_le_of_ne (not_lt.mp notLess) (Ne.symm differs)
      · exact least _ (List.mem_map_of_mem old)

/-- Looking a key up finds what was assigned to it last. -/
theorem lookup_assign (sorted : ReportLanguage.Sorted fields) (other : Bytes) :
    (assign fields key value).lookup other = if other = key then some value else fields.lookup other := by
  induction fields with
  | nil =>
    rw [assign, List.lookup_cons, List.lookup_nil]
    split
    next found => rw [if_pos (beq_iff_eq.mp found)]
    next missed => rw [if_neg (by simpa using missed)]
  | cons first fields ih =>
    obtain ⟨name, old⟩ := first
    obtain ⟨least, rest⟩ := List.pairwise_cons.mp sorted
    rw [assign]
    split
    next less =>
      rw [List.lookup_cons]
      split
      next found => rw [if_pos (beq_iff_eq.mp found)]
      next missed => rw [if_neg (by simpa using missed)]
    next =>
    split
    next same =>
      subst same
      rw [List.lookup_cons, List.lookup_cons]
      split
      next found => rw [if_pos (beq_iff_eq.mp found)]
      next missed => rw [if_neg (by simpa using missed)]
    next differs =>
      rw [List.lookup_cons, List.lookup_cons, ih rest]
      split
      next found =>
        rw [if_neg]
        intro same
        exact differs (same.symm.trans (beq_iff_eq.mp found))
      next => rfl

/-- A key of a text that occurs more than once counts where it occurs last. -/
theorem lookup_setAll (sorted : ReportLanguage.Sorted fields)
    (members : List (Bytes × Records.Doc Bytes Leaf)) (key : Bytes) :
    (Records.setAll dom fields members).lookup key =
      (((members.filter fun member => member.1 = key).getLast?).map fun member =>
        member.2.value dom).or (fields.lookup key) := by
  induction members generalizing fields with
  | nil => rw [Records.setAll]; rfl
  | cons member members ih =>
    obtain ⟨name, doc⟩ := member
    have kept := sorted_assign sorted name (doc.value dom)
    rw [Records.setAll]
    refine (ih kept).trans ?_
    rw [lookup_assign sorted]
    by_cases same : name = key
    · rw [if_pos same.symm, List.filter_cons, if_pos (decide_eq_true same), List.getLast?_cons]
      cases (members.filter fun member => member.1 = key).getLast? <;> rfl
    · rw [if_neg (Ne.symm same), List.filter_cons, if_neg (by simpa using same)]

theorem lexeme_of_spells {tokens : List Token} {text : Bytes} (spells : Spells tokens text) :
    ∀ token ∈ tokens, ∃ word, Lexeme token word := by
  induction spells with
  | nil => exact fun _ absent => nomatch absent
  | cons blank word text token tokens spaces lexeme more ih =>
    intro other member
    rcases List.mem_cons.mp member with rfl | later
    · exact ⟨word, lexeme⟩
    · exact ih other later

theorem wellFormed_of_lexeme {text word : Bytes} (lexeme : Lexeme (.text text) word) :
    Utf8.WellFormed text := by
  cases lexeme with
  | structural byte token listed =>
    have other : ∀ pair ∈ structural, ∀ text, pair.2 ≠ .text text := by
      simp only [structural, List.forall_mem_cons, List.not_mem_nil, false_imp_iff, implies_true, and_true]
      refine ⟨?_, ?_, ?_, ?_, ?_, ?_⟩ <;> intro text same <;> cases same
    exact absurd rfl (other _ listed text)
  | text value word spells => exact wellFormed_of_text spells

/-- The documents the library builds, with UTF-8 in all strings. -/
def Proper (j : Json) : Prop := ReportLanguage.Keyed j ∧ Encoded j

def ProperFields (fields : Fields) : Prop :=
  ReportLanguage.Sorted fields ∧ ∀ field ∈ fields, Utf8.WellFormed field.1 ∧ Proper field.2

theorem preserves_proper :
    Records.Preserves dom (fun token => ∃ word, Lexeme token word) Proper ProperFields where
  leaf value _ := by
    cases value with
    | null => exact ⟨.null, .null⟩
    | boolean value => exact ⟨.boolean value, .boolean value⟩
    | integer value => exact ⟨.integer value, .integer value⟩
    | unsigned value => exact ⟨.unsigned value, .unsigned value⟩
    | float => exact ⟨.float, .float⟩
  text key spelled := by
    obtain ⟨word, lexeme⟩ := spelled
    exact ⟨.string key, .string key (wellFormed_of_lexeme lexeme)⟩
  array items each :=
    ⟨.array items fun item member => (each item member).1, .array items fun item member => (each item member).2⟩
  object fields kept :=
    ⟨.object fields kept.1 fun field member => (kept.2 field member).2.1,
      .object fields (fun field member => (kept.2 field member).1) fun field member =>
        (kept.2 field member).2.2⟩
  empty := ⟨List.Pairwise.nil, fun _ absent => nomatch absent⟩
  set fields key value kept spelled proper := by
    obtain ⟨word, lexeme⟩ := spelled
    refine ⟨sorted_assign kept.1 key value, fun field member => ?_⟩
    rcases mem_assign member with rfl | old
    · exact ⟨wellFormed_of_lexeme lexeme, proper⟩
    · exact kept.2 field old

theorem proper_of_isText {text : Bytes} {doc : Records.Doc Bytes Leaf} (isText : IsText text doc) :
    Proper (doc.value dom) := by
  refine Records.holds_value preserves_proper doc ?_
  rcases isText with spells | ⟨_, -, spells⟩
  · exact lexeme_of_spells spells
  · exact lexeme_of_spells spells

theorem proper_of_parse {text : Bytes} {j : Json} (parsed : parse text = some j) : Proper j := by
  obtain ⟨doc, isText, rfl⟩ := (parse_eq_some text j).mp parsed
  exact proper_of_isText isText

/-- A parsed object has its keys in order and once, and UTF-8 in all strings inside. Under each
key stands what the text has under it last. -/
theorem parsed_object {text : Bytes} {fields : Fields} (parsed : parse text = some (.object fields)) :
    Proper (.object fields) ∧ ∃ members, IsText text (.object members) ∧
      ∀ key, fields.lookup key = ((members.filter fun member => member.1 = key).getLast?).map
        fun member => member.2.value dom := by
  obtain ⟨doc, isText, value⟩ := (parse_eq_some text _).mp parsed
  refine ⟨proper_of_parse parsed, ?_⟩
  cases doc with
  | object members =>
    rw [Records.Doc.value] at value
    refine ⟨members, isText, fun key => ?_⟩
    have empty : ReportLanguage.Sorted [] := List.Pairwise.nil
    have looked := lookup_setAll empty members key
    rw [List.lookup_nil, Option.or_none] at looked
    rw [← Json.object.inj value]
    exact looked
  | leaf leaf =>
    rw [Records.Doc.value] at value
    cases leaf <;> cases value
  | text text =>
    rw [Records.Doc.value] at value
    cases value
  | array items =>
    rw [Records.Doc.value] at value
    cases value

theorem parsed_object_twice :
    Proper (.object [(bytes "a", .integer (-2)), (bytes "b", .array [.boolean true])]) := by
  have parsed : parse (bytes "\x7b\"b\":1,\"a\":-2,\"b\":[true]\x7d") =
      some (.object [(bytes "a", .integer (-2)), (bytes "b", .array [.boolean true])]) := rfl
  exact (parsed_object parsed).1

end

end ModbusDatabase.JsonParser
