import ModbusDatabase.JsonNumbers

/-! How the tokens of a JSON text are spelled, and that the lexer takes exactly these
spellings off the front of its input. -/

namespace ModbusDatabase.JsonSpelling
open Library Library.Scanner Message JsonLexer JsonNumbers
set_option autoImplicit false

variable {word rest : Bytes}

/-! Strings. -/

inductive Hex : Spelling Byte Nat
  | mk (c1 c2 c3 c4 : Byte) (value : Nat) (reads : codePoint c1 c2 c3 c4 = some value) :
      Hex value [c1, c2, c3, c4]

/-- What can follow the `u` of an escape. Code points beyond the first plane take a second one. -/
inductive Unicode : Spelling Byte Bytes
  | single (value : Nat) (digits : Bytes) (hex : Hex value digits) (scalar : Utf8.IsScalar value) :
      Unicode (Utf8.encode value) digits
  | pair (high low : Nat) (first second : Bytes) (left : Hex high first) (right : Hex low second)
      (isHigh : IsHigh high) (isLow : IsLow low) :
      Unicode (Utf8.encode (0x10000 + (high - 0xD800) * 0x400 + (low - 0xDC00)))
        (first ++ (bytes "\\u" ++ second))

inductive Escape : Spelling Byte Bytes
  | short (kind byte : Byte) (known : (kind, byte) ∈ escapes) : Escape [byte] [kind]
  | unicode (value word : Bytes) (unicode : Unicode value word) : Escape value (117 :: word)

inductive Character : Spelling Byte Bytes
  | plain (lead : Byte) (more : Bytes) (isChar : Utf8.IsChar (lead :: more)) (visible : 32 ≤ lead)
      (unquoted : lead ≠ 34) (unescaped : lead ≠ 92) : Character (lead :: more) (lead :: more)
  | escape (value word : Bytes) (escape : Escape value word) : Character value (92 :: word)

theorem exact_getCodepoint : Exact getCodepoint Hex := by
  intro text value rest
  constructor
  · intro scanned
    match text, scanned with
    | c1 :: c2 :: c3 :: c4 :: behind, scanned =>
      obtain ⟨_, reads, same⟩ := Option.map_eq_some_iff.mp scanned
      cases same
      exact ⟨[c1, c2, c3, c4], .mk c1 c2 c3 c4 value reads, rfl⟩
  · rintro ⟨_, ⟨c1, c2, c3, c4, _, reads⟩, rfl⟩
    exact Option.map_eq_some_iff.mpr ⟨value, reads, rfl⟩

theorem hexDigit_lt {byte : Byte} {digit : Nat} (reads : hexDigit byte = some digit) : digit < 16 := by
  unfold hexDigit at reads
  have bound := byte.isLt
  split at reads
  next low =>
    cases reads
    have upper := Fin.le_def.mp low.2
    change byte.val ≤ 57 at upper
    omega
  next =>
  split at reads
  next low =>
    cases reads
    have upper := Fin.le_def.mp low.2
    change byte.val ≤ 70 at upper
    omega
  next =>
  split at reads
  next low =>
    cases reads
    have upper := Fin.le_def.mp low.2
    change byte.val ≤ 102 at upper
    omega
  next => cases reads

theorem Hex.lt {value : Nat} (hex : Hex value word) : value < 0x10000 := by
  obtain ⟨c1, c2, c3, c4, _, reads⟩ := hex
  obtain ⟨d1, first, reads⟩ := Option.bind_eq_some_iff.mp reads
  obtain ⟨d2, second, reads⟩ := Option.bind_eq_some_iff.mp reads
  obtain ⟨d3, third, reads⟩ := Option.bind_eq_some_iff.mp reads
  obtain ⟨d4, fourth, reads⟩ := Option.bind_eq_some_iff.mp reads
  cases reads
  have b1 := hexDigit_lt first
  have b2 := hexDigit_lt second
  have b3 := hexDigit_lt third
  have b4 := hexDigit_lt fourth
  omega

theorem combined_eq {high low : Nat} (isHigh : IsHigh high) (isLow : IsLow low) :
    combined high low = 0x10000 + (high - 0xD800) * 0x400 + (low - 0xDC00) := by
  unfold combined IsHigh IsLow at *
  omega

theorem isScalar_combined {high low : Nat} (isHigh : IsHigh high) (isLow : IsLow low) :
    Utf8.IsScalar (0x10000 + (high - 0xD800) * 0x400 + (low - 0xDC00)) := by
  unfold IsHigh IsLow Utf8.IsScalar at *
  omega

theorem isScalar_iff {value : Nat} (hex : Hex value word) :
    Utf8.IsScalar value ↔ ¬IsHigh value ∧ ¬IsLow value := by
  have bound := hex.lt
  unfold IsHigh IsLow Utf8.IsScalar
  omega

theorem exact_scanUnicode : Exact scanUnicode Unicode := by
  intro text value rest
  constructor
  · intro scanned
    obtain ⟨first, digits, between, hex, rfl, further⟩ := of_andThen exact_getCodepoint scanned
    by_cases isHigh : IsHigh first
    · rw [if_pos isHigh] at further
      obtain ⟨_, _, behind, ⟨-, rfl⟩, rfl, onward⟩ := of_andThen (exact_literal _ _) further
      obtain ⟨second, others, last, also, rfl, kept⟩ := of_andThen exact_getCodepoint onward
      obtain ⟨same, rfl⟩ := keep_eq_some.mp kept
      obtain ⟨isLow, same⟩ := Option.ite_none_right_eq_some.mp same
      rw [← Option.some.inj same, combined_eq isHigh isLow]
      refine ⟨_, .pair first second digits others hex also isHigh isLow, ?_⟩
      rw [List.append_assoc, List.append_assoc]
    · rw [if_neg isHigh] at further
      obtain ⟨same, rfl⟩ := keep_eq_some.mp further
      obtain ⟨notLow, same⟩ := Option.ite_none_left_eq_some.mp same
      rw [← Option.some.inj same]
      exact ⟨digits, .single first digits hex ((isScalar_iff hex).mpr ⟨isHigh, notLow⟩), rfl⟩
  · rintro ⟨word, spells, rfl⟩
    cases spells with
    | single first digits hex scalar =>
      obtain ⟨notHigh, notLow⟩ := (isScalar_iff hex).mp scalar
      rw [scanUnicode, andThen_append exact_getCodepoint hex, if_neg notHigh, if_neg notLow]
      rfl
    | pair high low first second left right isHigh isLow =>
      rw [scanUnicode, List.append_assoc, andThen_append exact_getCodepoint left, if_pos isHigh,
        List.append_assoc, andThen_append (exact_literal _ ()) ⟨rfl, rfl⟩,
        andThen_append exact_getCodepoint right, if_pos isLow, combined_eq isHigh isLow]
      rfl

theorem mem_of_lookup {Value : Type} {table : List (Byte × Value)} {key : Byte} {value : Value}
    (found : table.lookup key = some value) : (key, value) ∈ table := by
  obtain ⟨before, behind, rfl, -⟩ := List.lookup_eq_some_iff.mp found
  exact List.mem_append_right _ List.mem_cons_self

theorem lookup_of_mem {Value : Type} {table : List (Byte × Value)}
    (distinct : (table.map Prod.fst).Nodup) {key : Byte} {value : Value}
    (member : (key, value) ∈ table) : table.lookup key = some value := by
  obtain ⟨before, behind, rfl⟩ := List.append_of_mem member
  rw [List.map_append, List.nodup_append] at distinct
  refine List.lookup_eq_some_iff.mpr ⟨before, behind, rfl, fun pair early => bne_iff_ne.mpr ?_⟩
  intro same
  exact distinct.2.2 _ (List.mem_map_of_mem early) key List.mem_cons_self same.symm

theorem exact_scanEscape : Exact scanEscape Escape := by
  intro text value rest
  constructor
  · intro scanned
    match text, scanned with
    | kind :: behind, scanned =>
      rw [scanEscape] at scanned
      split at scanned
      next byte found =>
        cases scanned
        exact ⟨[kind], .short kind byte (mem_of_lookup found), rfl⟩
      next =>
        obtain ⟨rfl, inner⟩ := Option.ite_none_right_eq_some.mp scanned
        obtain ⟨word, unicode, rfl⟩ := (exact_scanUnicode _ _ _).mp inner
        exact ⟨117 :: word, .unicode value word unicode, rfl⟩
  · rintro ⟨word, spells, rfl⟩
    cases spells with
    | short kind byte known =>
      have found := lookup_of_mem (by decide : (escapes.map Prod.fst).Nodup) known
      rw [List.singleton_append, scanEscape]
      simp only [found]
    | unicode value word unicode =>
      have absent : escapes.lookup 117 = none := by decide
      rw [List.cons_append, scanEscape]
      simp only [absent, if_true]
      exact exact_scanUnicode.scan_append unicode rest

theorem exact_nextByteInRange (ranges : List (Byte × Byte)) :
    Exact (nextByteInRange ranges) fun value word => value = word ∧ Glob.fits ranges word = true := by
  induction ranges with
  | nil =>
    intro text value rest
    constructor
    · intro scanned
      cases scanned
      exact ⟨[], ⟨rfl, rfl⟩, rfl⟩
    · rintro ⟨word, ⟨rfl, fit⟩, rfl⟩
      cases value with
      | nil => rfl
      | cons => cases fit
  | cons range ranges ih =>
    obtain ⟨low, high⟩ := range
    intro text value rest
    cases text with
    | nil =>
      constructor
      · intro scanned
        cases scanned
      rintro ⟨word, ⟨rfl, fit⟩, split⟩
      obtain ⟨rfl, -⟩ := List.append_eq_nil_iff.mp split.symm
      cases fit
    | cons byte text =>
      rw [nextByteInRange]
      constructor
      · intro scanned
        obtain ⟨within, inner⟩ := Option.ite_none_right_eq_some.mp scanned
        obtain ⟨⟨more, behind⟩, opened, same⟩ := Option.map_eq_some_iff.mp inner
        cases same
        obtain ⟨_, ⟨rfl, fit⟩, rfl⟩ := (ih _ _ _).mp opened
        exact ⟨byte :: more, ⟨rfl, Glob.fits_cons.mpr ⟨within, fit⟩⟩, rfl⟩
      · rintro ⟨word, ⟨rfl, fit⟩, split⟩
        cases value with
        | nil => cases fit
        | cons first more =>
          obtain ⟨rfl, rfl⟩ := List.cons.inj split
          obtain ⟨within, fit⟩ := Glob.fits_cons.mp fit
          have inner : nextByteInRange ranges (more ++ rest) = some (more, rest) :=
            ih.scan_append ⟨rfl, fit⟩ rest
          rw [if_pos within]
          exact Option.map_eq_some_iff.mpr ⟨_, inner, rfl⟩

theorem exact_scanChar : Exact scanChar Character := by
  intro text value rest
  constructor
  · intro scanned
    match text, scanned with
    | lead :: behind, scanned =>
      rw [scanChar] at scanned
      obtain ⟨visible, scanned⟩ := Option.ite_none_left_eq_some.mp scanned
      obtain ⟨unquoted, visible⟩ := not_or.mp visible
      split at scanned
      next backslash =>
        subst backslash
        obtain ⟨word, escape, rfl⟩ := (exact_scanEscape _ _ _).mp scanned
        exact ⟨92 :: word, .escape value word escape, rfl⟩
      next unescaped =>
        split at scanned
        next ranges follow =>
          obtain ⟨⟨more, last⟩, opened, same⟩ := Option.map_eq_some_iff.mp scanned
          cases same
          obtain ⟨_, ⟨rfl, fit⟩, rfl⟩ := (exact_nextByteInRange _ _ _ _).mp opened
          exact ⟨lead :: more, .plain lead more (.mk lead more ranges follow fit) (not_lt.mp visible)
            unquoted unescaped, rfl⟩
        next => cases scanned
  · rintro ⟨word, spells, rfl⟩
    cases spells with
    | plain lead more isChar visible unquoted unescaped =>
      obtain ⟨_, _, ranges, follow, fit⟩ := isChar
      have inner : nextByteInRange ranges (more ++ rest) = some (more, rest) :=
        (exact_nextByteInRange ranges).scan_append ⟨rfl, fit⟩ rest
      have shown : ¬(lead = 34 ∨ lead < 32) := not_or.mpr ⟨unquoted, not_lt.mpr visible⟩
      rw [List.cons_append, scanChar, if_neg shown, if_neg unescaped]
      simp only [follow, inner, Option.map_some]
    | escape value word escape =>
      rw [List.cons_append, scanChar, if_neg (by decide), if_pos rfl]
      exact exact_scanEscape.scan_append escape rest

/-- A string literal behind its opening quote. -/
abbrev Text : Spelling Byte Bytes := Series Character 34

theorem exact_scanString : Exact scanString Text := by
  refine exact_series exact_scanChar fun value word spells => ?_
  cases spells with
  | plain lead more isChar visible unquoted unescaped => exact ⟨lead, more, rfl, unquoted⟩
  | escape value word escape => exact ⟨92, word, rfl, by decide⟩

theorem Escape.wellFormed {value : Bytes} (escape : Escape value word) : Utf8.WellFormed value := by
  cases escape with
  | short kind byte known =>
    have ascii : ∀ pair ∈ escapes, pair.2 ≤ (0x7F : Byte) := by
      simp only [escapes, List.forall_mem_cons, List.not_mem_nil, false_imp_iff, implies_true, and_true]
      decide
    exact (Utf8.isChar_ascii (ascii _ known)).wellFormed
  | unicode value word unicode =>
    cases unicode with
    | single point digits hex scalar => exact (Utf8.isChar_encode scalar).wellFormed
    | pair high low first second left right isHigh isLow =>
      exact (Utf8.isChar_encode (isScalar_combined isHigh isLow)).wellFormed

/-- A string literal stands for well-formed UTF-8. -/
theorem wellFormed_of_text {value : Bytes} (spells : Text value word) : Utf8.WellFormed value := by
  induction spells with
  | stop => exact .nil
  | item first later word behind spells rest ih =>
    refine Utf8.WellFormed.append ?_ ih
    cases spells with
    | plain lead more isChar visible unquoted unescaped => exact isChar.wellFormed
    | escape value word escape => exact escape.wellFormed

/-! Tokens. -/

inductive Lexeme : Spelling Byte Token
  | structural (byte : Byte) (token : Token) (listed : (byte, token) ∈ structural) :
      Lexeme token [byte]
  | null : Lexeme (.leaf .null) (bytes "null")
  | true : Lexeme (.leaf (.boolean true)) (bytes "true")
  | false : Lexeme (.leaf (.boolean false)) (bytes "false")
  | text (value word : Bytes) (spells : Text value word) : Lexeme (.text value) (34 :: word)
  | number (n : Numeral) (leaf : Leaf) (denotes : Denotes n leaf) : Lexeme (.leaf leaf) n.text

section
variable {token : Token} {byte : Byte}

theorem of_scanToken (scanned : scanToken byte word = some (token, rest)) :
    ∃ lexeme, Lexeme token lexeme ∧ byte :: word = lexeme ++ rest := by
  rw [scanToken] at scanned
  split at scanned
  next known found =>
    cases scanned
    exact ⟨[byte], .structural byte token (mem_of_lookup found), rfl⟩
  next =>
  split at scanned
  next letter =>
    obtain ⟨_, ⟨rfl, rfl⟩, rfl⟩ := (exact_literal _ _ _ _ _).mp scanned
    subst letter
    exact ⟨_, .true, rfl⟩
  next =>
  split at scanned
  next letter =>
    obtain ⟨_, ⟨rfl, rfl⟩, rfl⟩ := (exact_literal _ _ _ _ _).mp scanned
    subst letter
    exact ⟨_, .false, rfl⟩
  next =>
  split at scanned
  next letter =>
    obtain ⟨_, ⟨rfl, rfl⟩, rfl⟩ := (exact_literal _ _ _ _ _).mp scanned
    subst letter
    exact ⟨_, .null, rfl⟩
  next =>
  split at scanned
  next quote =>
    obtain ⟨⟨value, behind⟩, inner, same⟩ := Option.map_eq_some_iff.mp scanned
    cases same
    obtain ⟨spelled, spells, rfl⟩ := (exact_scanString _ _ _).mp inner
    subst quote
    exact ⟨34 :: spelled, .text value spelled spells, rfl⟩
  next =>
    obtain ⟨begins, inner⟩ := Option.ite_none_right_eq_some.mp scanned
    obtain ⟨⟨leaf, behind⟩, inner, same⟩ := Option.map_eq_some_iff.mp inner
    cases same
    obtain ⟨n, denotes, split⟩ := of_scanNumber inner
    exact ⟨n.text, .number n leaf denotes, split⟩

/-- How the character that opens a number looks. -/
theorem numeral_head (n : Numeral) : ∃ byte more, n.text = byte :: more ∧ (byte = 45 ∨ isDigit byte = true) := by
  obtain ⟨first, digits, whole⟩ := List.exists_cons_of_ne_nil n.isWhole.1.1
  cases negative : n.negative with
  | true => exact ⟨45, _, by simp only [Numeral.text, negative, signText]; rfl, .inl rfl⟩
  | false =>
    have digit := n.isWhole.1.2 first (whole ▸ List.mem_cons_self)
    exact ⟨first, _, by simp only [Numeral.text, negative, signText, whole]; rfl, .inr digit⟩

/-- A token is scanned to its end where no number could go on behind it. -/
theorem scanToken_lexeme (lexeme : Lexeme token word)
    (stops : (∃ leaf, token = .leaf leaf) → Stops rest) : ∃ byte more, word = byte :: more ∧
      isWhitespace byte = false ∧ byte ≠ 0 ∧ scanToken byte (more ++ rest) = some (token, rest) := by
  cases lexeme with
  | structural byte token listed =>
    have visible : ∀ pair ∈ structural, isWhitespace pair.1 = false ∧ pair.1 ≠ 0 := by
      simp only [structural, List.forall_mem_cons, List.not_mem_nil, false_imp_iff, implies_true, and_true]
      decide
    have found := lookup_of_mem (by decide : (structural.map Prod.fst).Nodup) listed
    refine ⟨byte, [], rfl, (visible _ listed).1, (visible _ listed).2, ?_⟩
    rw [scanToken]
    simp only [found, List.nil_append]
  | null =>
    have inner := (exact_literal (bytes "ull") (.leaf .null : Token)).scan_append ⟨rfl, rfl⟩ rest
    exact ⟨110, bytes "ull", rfl, by decide, by decide, inner⟩
  | true =>
    have inner := (exact_literal (bytes "rue") (.leaf (.boolean true) : Token)).scan_append ⟨rfl, rfl⟩ rest
    exact ⟨116, bytes "rue", rfl, by decide, by decide, inner⟩
  | false =>
    have inner := (exact_literal (bytes "alse") (.leaf (.boolean false) : Token)).scan_append ⟨rfl, rfl⟩ rest
    exact ⟨102, bytes "alse", rfl, by decide, by decide, inner⟩
  | text value word spells =>
    refine ⟨34, word, rfl, by decide, by decide, ?_⟩
    have inner := exact_scanString.scan_append spells rest
    change (scanString (word ++ rest)).map _ = _
    rw [inner]
    rfl
  | number n leaf denotes =>
    obtain ⟨byte, more, opened, begins⟩ := numeral_head n
    have inner := scanNumber_append denotes (stops ⟨leaf, rfl⟩)
    have other : ∀ byte : Byte, byte = 45 ∨ isDigit byte = true → structural.lookup byte = none ∧
        byte ≠ 116 ∧ byte ≠ 102 ∧ byte ≠ 110 ∧ byte ≠ 34 ∧ isWhitespace byte = false ∧ byte ≠ 0 := by
      decide +kernel
    obtain ⟨unlisted, notTrue, notFalse, notNull, unquoted, visible, nonzero⟩ := other byte begins
    refine ⟨byte, more, opened, visible, nonzero, ?_⟩
    rw [opened, List.cons_append] at inner
    rw [scanToken]
    simp only [unlisted, if_neg notTrue, if_neg notFalse, if_neg notNull, if_neg unquoted, if_pos begins,
      inner, Option.map_some]

end

end ModbusDatabase.JsonSpelling
