import Mathlib.Data.List.Basic

/-! Scanners that take a word off the front of their input, and the languages of
the words they take. -/

namespace ModbusDatabase.Library.Scanner
set_option autoImplicit false

variable {Char α β : Type*}

/-- A scanner gives a value and the rest of the input, or fails. -/
abbrev Scan (Char α : Type*) := List Char → Option (α × List Char)

/-- The words that stand for a value. -/
abbrev Spelling (Char α : Type*) := α → List Char → Prop

/-- The scanner succeeds exactly where a word of the language starts, and takes that word. -/
def Exact (scan : Scan Char α) (spelling : Spelling Char α) : Prop :=
  ∀ text value rest, scan text = some (value, rest) ↔ ∃ word, spelling value word ∧ text = word ++ rest

/-- Where a word stands in front, the scanner takes it. -/
theorem Exact.scan_append {scan : Scan Char α} {spelling : Spelling Char α} (exact : Exact scan spelling)
    {value : α} {word : List Char} (spells : spelling value word) (rest : List Char) :
    scan (word ++ rest) = some (value, rest) := (exact _ _ _).mpr ⟨word, spells, rfl⟩

/-! Scanners one behind the other. -/

def andThen (first : Scan Char α) (second : α → Scan Char β) : Scan Char β :=
  fun text => (first text).bind fun (value, rest) => second value rest

section
variable {first : Scan Char α} {second : α → Scan Char β} {spelling : Spelling Char α}

theorem of_andThen (exact : Exact first spelling) {text rest : List Char} {last : β}
    (scanned : andThen first second text = some (last, rest)) : ∃ value word between,
      spelling value word ∧ text = word ++ between ∧ second value between = some (last, rest) := by
  obtain ⟨⟨value, between⟩, opened, further⟩ := Option.bind_eq_some_iff.mp scanned
  obtain ⟨word, spells, split⟩ := (exact _ _ _).mp opened
  exact ⟨value, word, between, spells, split, further⟩

theorem andThen_append (exact : Exact first spelling) {value : α} {word : List Char}
    (spells : spelling value word) (rest : List Char) :
    andThen first second (word ++ rest) = second value rest := by
  rw [andThen, exact.scan_append spells, Option.bind_some]

end

/-- A scanner that keeps a value under a condition. -/
def keep (value : Option α) : Scan Char α := fun text => value.map fun value => (value, text)

theorem keep_eq_some {value : Option α} {last : α} {text rest : List Char} :
    keep value text = some (last, rest) ↔ value = some last ∧ text = rest := by
  rw [keep, Option.map_eq_some_iff]
  constructor
  · rintro ⟨_, found, same⟩
    cases same
    exact ⟨found, rfl⟩
  · rintro ⟨found, rfl⟩
    exact ⟨last, found, rfl⟩

/-! Fixed words. -/

variable [DecidableEq Char]

def literal (word : List Char) (value : α) : Scan Char α :=
  fun text => if word.isPrefixOf text then some (value, text.drop word.length) else none

theorem exact_literal (word : List Char) (value : α) :
    Exact (literal word value) fun other found => other = value ∧ found = word := by
  intro text other rest
  rw [literal]
  constructor
  · intro scanned
    obtain ⟨front, same⟩ := Option.ite_none_right_eq_some.mp scanned
    obtain ⟨behind, rfl⟩ := List.isPrefixOf_iff_prefix.mp front
    rw [List.drop_left] at same
    obtain ⟨rfl, rfl⟩ := Prod.mk.inj (Option.some.inj same)
    exact ⟨word, ⟨rfl, rfl⟩, rfl⟩
  · rintro ⟨_, ⟨rfl, rfl⟩, rfl⟩
    rw [if_pos (List.isPrefixOf_iff_prefix.mpr (List.prefix_append _ _)), List.drop_left]

/-! A series of items up to a closing character. -/

def series (item : Scan Char (List β)) (stop : Char) : Nat → Scan Char (List β)
  | 0, _ => none
  | fuel + 1, text =>
    if text.head? = some stop then some ([], text.tail)
    else (item text).bind fun (first, rest) =>
      (series item stop fuel rest).map fun (later, rest) => (first ++ later, rest)

/-- The items one behind the other, and the closing character. -/
inductive Series (spelling : Spelling Char (List β)) (stop : Char) : Spelling Char (List β)
  | stop : Series spelling stop [] [stop]
  | item (first later : List β) (word behind : List Char) (spells : spelling first word)
      (rest : Series spelling stop later behind) :
      Series spelling stop (first ++ later) (word ++ behind)

variable {item : Scan Char (List β)} {spelling : Spelling Char (List β)} {stop : Char}

theorem of_series (exact : Exact item spelling) {fuel : Nat} {text rest : List Char} {value : List β}
    (scanned : series item stop fuel text = some (value, rest)) :
    ∃ word, Series spelling stop value word ∧ text = word ++ rest := by
  induction fuel generalizing text value with
  | zero => cases scanned
  | succ fuel ih =>
    rw [series] at scanned
    split at scanned
    next closed =>
      cases scanned
      obtain ⟨behind, rfl⟩ := List.head?_eq_some_iff.mp closed
      exact ⟨[stop], .stop, rfl⟩
    next =>
      obtain ⟨⟨first, between⟩, opened, further⟩ := Option.bind_eq_some_iff.mp scanned
      obtain ⟨⟨later, last⟩, inner, same⟩ := Option.map_eq_some_iff.mp further
      cases same
      obtain ⟨word, spells, rfl⟩ := (exact _ _ _).mp opened
      obtain ⟨behind, rest, rfl⟩ := ih inner
      exact ⟨word ++ behind, .item first later word behind spells rest, (List.append_assoc _ _ _).symm⟩

/-- With fuel for every character the series is scanned to its end. -/
theorem series_append (exact : Exact item spelling)
    (opens : ∀ value word, spelling value word → ∃ char more, word = char :: more ∧ char ≠ stop)
    {fuel : Nat} {value : List β} {word : List Char} (spells : Series spelling stop value word)
    (rest : List Char) (enough : word.length ≤ fuel) :
    series item stop fuel (word ++ rest) = some (value, rest) := by
  induction spells generalizing fuel with
  | stop =>
    cases fuel with
    | zero => cases enough
    | succ fuel => rw [series, List.singleton_append, List.head?_cons, if_pos rfl, List.tail_cons]
  | item first later word behind spells more ih =>
    obtain ⟨char, others, rfl, other⟩ := opens first word spells
    rw [List.length_append, List.length_cons] at enough
    cases fuel with
    | zero => omega
    | succ fuel =>
      have front : (char :: others ++ (behind ++ rest)).head? ≠ some stop :=
        fun same => other (Option.some.inj same)
      have inner : series item stop fuel (behind ++ rest) = some (later, rest) := ih (by omega)
      rw [List.append_assoc, series, if_neg front, exact.scan_append spells, Option.bind_some]
      simp only [inner, Option.map_some]

theorem exact_series (exact : Exact item spelling)
    (opens : ∀ value word, spelling value word → ∃ char more, word = char :: more ∧ char ≠ stop) :
    Exact (fun text => series item stop text.length text) (Series spelling stop) := by
  intro text value rest
  constructor
  · exact of_series exact
  · rintro ⟨word, spells, rfl⟩
    apply series_append exact opens spells
    rw [List.length_append]
    exact Nat.le_add_right _ _

/-! The longest word that an automaton accepts on the way. -/

section
variable {Label : Type*} (next : Label → Char → Option Label) (done : Label → Bool)

/-- The labels are followed for as long as there is one; the last has to be a final one. -/
def munch (label : Label) : Scan Char (Label × List Char)
  | [] => if done label then some ((label, []), []) else none
  | char :: text =>
    match next label char with
    | some onward => (munch onward text).map fun ((final, word), rest) => ((final, char :: word), rest)
    | none => if done label then some ((label, []), char :: text) else none

/-- The label behind a word. -/
def follow (label : Label) (word : List Char) : Option Label := word.foldlM next label

variable {next done} {label final : Label} {word text rest : List Char}

omit [DecidableEq Char] in
theorem follow_cons (char : Char) : follow next label (char :: word) =
    (next label char).bind fun onward => follow next onward word := List.foldlM_cons

omit [DecidableEq Char] in
theorem follow_append (behind : List Char) : follow next label (word ++ behind) =
    (follow next label word).bind fun onward => follow next onward behind := List.foldlM_append

omit [DecidableEq Char] in
/-- The word ends at a final label that the rest of the input does not lead away from. -/
theorem munch_eq_some : munch next done label text = some ((final, word), rest) ↔
    text = word ++ rest ∧ follow next label word = some final ∧ done final = true ∧
      ∀ char ∈ rest.head?, next final char = none := by
  induction text generalizing label word with
  | nil =>
    rw [munch]
    constructor
    · intro scanned
      obtain ⟨ends, same⟩ := Option.ite_none_right_eq_some.mp scanned
      cases same
      exact ⟨rfl, rfl, ends, fun _ absent => nomatch absent⟩
    · rintro ⟨split, followed, ends, -⟩
      obtain ⟨rfl, rfl⟩ := List.append_eq_nil_iff.mp split.symm
      cases followed
      rw [if_pos ends]
  | cons char text ih =>
    rw [munch]
    constructor
    · intro scanned
      split at scanned
      next onward leads =>
        obtain ⟨⟨⟨last, behind⟩, after⟩, inner, same⟩ := Option.map_eq_some_iff.mp scanned
        cases same
        obtain ⟨rfl, followed, ends, stops⟩ := ih.mp inner
        exact ⟨rfl, by rw [follow_cons, leads, Option.bind_some, followed], ends, stops⟩
      next stuck =>
        obtain ⟨ends, same⟩ := Option.ite_none_right_eq_some.mp scanned
        cases same
        refine ⟨rfl, rfl, ends, fun other found => ?_⟩
        rw [← Option.some.inj found]
        exact stuck
    · rintro ⟨split, followed, ends, stops⟩
      cases word with
      | nil =>
        cases followed
        have stuck : next final char = none := by
          rw [List.nil_append] at split
          rw [← split] at stops
          exact stops char rfl
        rw [List.nil_append] at split
        simp only [stuck, ends, if_true, split]
      | cons first word =>
        obtain ⟨rfl, rfl⟩ := List.cons.inj split
        rw [follow_cons] at followed
        obtain ⟨onward, leads, later⟩ := Option.bind_eq_some_iff.mp followed
        have inner := ih.mpr ⟨rfl, later, ends, stops⟩
        simp only [leads, inner, Option.map_some]

end

end ModbusDatabase.Library.Scanner
