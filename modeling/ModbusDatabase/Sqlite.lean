import Mathlib.Data.List.Sort
import Mathlib.Order.Interval.Finset.Fin
import ModbusDatabase.Library.Glob
import ModbusDatabase.Tables

/-! The SQL texts the program sends and what SQLite makes of them. SQLite is not
part of the repository: it is a parameter here, and `Documented` collects what
is relied on. Only names whose quoted form reads back are spoken for; what any
other text does is left open. -/

namespace ModbusDatabase.Sqlite
open Message Tables Library
set_option autoImplicit false

def quote : Byte := 34

/-- A quoted identifier, read from behind its opening quote: the name and the
text behind the closing quote. A doubled quote stands for one. -/
def readIdentifier : Bytes → Option (Bytes × Bytes)
  | [] => none
  | [byte] => if byte = quote then some ([], []) else none
  | byte :: next :: rest =>
    if byte ≠ quote then (readIdentifier (next :: rest)).map fun read => (byte :: read.1, read.2)
    else if next = quote then (readIdentifier rest).map fun read => (quote :: read.1, read.2)
    else some ([], next :: rest)

theorem readIdentifier_cons {byte : Byte} (plain : byte ≠ quote) (text : Bytes) :
    readIdentifier (byte :: text) =
      (readIdentifier text).map fun read => (byte :: read.1, read.2) := by
  cases text with
  | nil => simp only [readIdentifier, if_neg plain, Option.map_none]
  | cons next rest => rw [readIdentifier, if_pos plain]

theorem readIdentifier_unterminated {text : Bytes} (plain : quote ∉ text) :
    readIdentifier text = none := by
  induction text with
  | nil => rfl
  | cons byte text ih =>
    rw [readIdentifier_cons (Ne.symm (List.ne_of_not_mem_cons plain)),
      ih (List.not_mem_of_not_mem_cons plain), Option.map_none]

/-- A name without quotes reads back. -/
theorem readIdentifier_plain {name tail : Bytes} (plain : quote ∉ name)
    (closed : tail.head? ≠ some quote) :
    readIdentifier (name ++ quote :: tail) = some (name, tail) := by
  induction name with
  | nil =>
    cases tail with
    | nil => rfl
    | cons next rest =>
      rw [List.nil_append, readIdentifier, if_neg (not_not.mpr rfl),
        if_neg (fun same => closed (congrArg some same))]
  | cons byte name ih =>
    rw [List.cons_append, readIdentifier_cons (Ne.symm (List.ne_of_not_mem_cons plain)),
      ih (List.not_mem_of_not_mem_cons plain), Option.map_some]

/-- A statement about one table: the text before and behind its quoted name. -/
structure Form where
  head : Bytes
  tail : Bytes
  headFree : NulFree head
  tailFree : NulFree tail
  closed : tail.head? ≠ some quote

namespace Form

def text (form : Form) (name : Bytes) : Bytes := form.head ++ (name ++ quote :: form.tail)

theorem cStr_text (form : Form) {name : Bytes} (free : NulFree name) :
    cStr (form.text name) = form.text name := by
  apply cStr_eq_self.mpr
  refine nulFree_append.mpr ⟨form.headFree, nulFree_append.mpr ⟨free, ?_⟩⟩
  exact List.not_mem_cons_of_ne_of_not_mem (by decide) form.tailFree

/-- A NUL in the name cuts the statement off inside its identifier. -/
theorem cStr_text_of_nul (form : Form) {name : Bytes} (nul : ¬NulFree name) :
    cStr (form.text name) = form.head ++ cStr name := by
  rw [text, cStr_append_of_nulFree form.headFree, cStr_append_of_nul nul]

/-- The name of the table a text of this form is about. -/
def read (form : Form) (text : Bytes) : Option Bytes :=
  if form.head.isPrefixOf text then
    (readIdentifier (text.drop form.head.length)).bind fun read =>
      if read.2 = form.tail then some read.1 else none
  else none

theorem read_head (form : Form) (rest : Bytes) :
    form.read (form.head ++ rest) =
      (readIdentifier rest).bind fun read => if read.2 = form.tail then some read.1 else none := by
  rw [read, if_pos (List.isPrefixOf_iff_prefix.mpr (List.prefix_append _ _)), List.drop_left]

theorem read_name {form : Form} {rest name : Bytes}
    (named : readIdentifier rest = some (name, form.tail)) :
    form.read (form.head ++ rest) = some name := by
  rw [read_head, named, Option.bind_some, if_pos rfl]

theorem read_unterminated {form : Form} {rest : Bytes} (unnamed : readIdentifier rest = none) :
    form.read (form.head ++ rest) = none := by
  rw [read_head, unnamed, Option.bind_none]

/-- A text that begins otherwise is not read as this form. -/
theorem read_other {form : Form} {first other : Byte} {text : Bytes}
    (begins : form.head.head? = some first) (starts : text.head? = some other)
    (differs : other ≠ first) : form.read text = none := by
  rw [read, if_neg]
  intro front
  obtain ⟨rest, rfl⟩ := List.isPrefixOf_iff_prefix.mp front
  rw [List.head?_append, begins, Option.some_or] at starts
  exact differs (Option.some.inj starts).symm

end Form

def createForm : Form where
  head := bytes "CREATE TABLE IF NOT EXISTS \""
  tail := bytes " (id INTEGER, pdu_addr INTEGER, pdu_func INTEGER, pdu_data TEXT, timestamp TEXT, " ++
    bytes "address INTEGER, map_addr INTEGER, value INTEGER, description TEXT);"
  headFree := by decide
  tailFree := by decide
  closed := by decide

def dropForm : Form where
  head := bytes "DROP TABLE IF EXISTS \""
  tail := bytes ";"
  headFree := by decide
  tailFree := by decide
  closed := by decide

def insertForm : Form where
  head := bytes "INSERT INTO \""
  tail :=
    bytes " (id, pdu_addr, pdu_func, pdu_data, timestamp, address, map_addr, value, description)" ++
    bytes " VALUES (?,?,?,?,?,?,?,?,?);"
  headFree := by decide
  tailFree := by decide
  closed := by decide

def selectForm : Form where
  head := bytes "SELECT id, pdu_addr, pdu_func, pdu_data, timestamp, " ++
    bytes "address, map_addr, value, description FROM \""
  tail := bytes " WHERE id=?;"
  headFree := by decide
  tailFree := by decide
  closed := by decide

def tableCheckSql : Bytes := bytes "SELECT name FROM sqlite_master WHERE type='table' AND name=?;"

def dateGlob : Bytes := bytes "20[0-9][0-9][0-1][0-9][0-3][0-9]"

def tableListSql : Bytes :=
  bytes "SELECT name FROM sqlite_master WHERE type='table' AND name GLOB '" ++ dateGlob ++
    bytes "' ORDER BY name ASC;"

/-- A GLOB pattern of single bytes and bracketed ranges. -/
def parseGlob : Bytes → List (Byte × Byte)
  | 91 :: low :: 45 :: high :: 93 :: rest => (low, high) :: parseGlob rest
  | byte :: rest => (byte, byte) :: parseGlob rest
  | [] => []

def isDated (name : Bytes) : Bool := Glob.fits (parseGlob dateGlob) name

theorem parse_dateGlob : parseGlob dateGlob =
    [(50, 50), (48, 48), (48, 57), (48, 57), (48, 49), (48, 57), (48, 51), (48, 57)] := rfl

theorem digits_of_isDated {name : Bytes} (dated : isDated name = true) : Digits name := by
  intro byte member
  obtain ⟨range, known, low, high⟩ := Glob.range_of_fits dated member
  rw [parse_dateGlob] at known
  have inside : ∀ range ∈ ([(50, 50), (48, 48), (48, 57), (48, 57), (48, 49), (48, 57), (48, 51),
      (48, 57)] : List (Byte × Byte)), 48 ≤ range.1 ∧ range.2 ≤ 57 := by simp
  exact ⟨(inside range known).1.trans low, high.trans (inside range known).2⟩

theorem length_of_isDated {name : Bytes} (dated : isDated name = true) : name.length = 8 := by
  rw [Glob.length_of_fits dated, parse_dateGlob]
  rfl

theorem nulFree_of_digits {name : Bytes} (digits : Digits name) : NulFree name :=
  fun member => absurd (digits 0 member) (by decide)

theorem quote_not_mem_of_digits {name : Bytes} (digits : Digits name) : quote ∉ name :=
  fun member => absurd (digits quote member) (by decide)

theorem not_reserved_of_digits {name : Bytes} (digits : Digits name) : reserved name = false := by
  rw [reserved, fold_digits digits]
  by_contra known
  have member := (List.isPrefixOf_iff_prefix.mp (Bool.not_eq_false _ ▸ known)).subset
    (by decide : (115 : Byte) ∈ bytes "sqlite_")
  exact absurd (digits 115 member) (by decide)

/-- There are fewer dated names than an `int` can count. -/
theorem length_dated_lt {list : List Bytes} (distinct : list.Nodup)
    (dated : ∀ name ∈ list, isDated name = true) : list.length < 2 ^ 31 := by
  have bound := Glob.length_le_choices distinct dated
  have size : Glob.choices (parseGlob dateGlob) = 80000 := by
    rw [parse_dateGlob]
    decide
  omega

/-- The answer to the table list query. -/
def listing (db : Database) : List Bytes := (db.names.filter isDated).insertionSort (· ≤ ·)

/-- What a statement leaves behind, and whether it succeeded. -/
def outcome (db : Database) : Option Database → Database × Bool
  | some next => (next, true)
  | none => (db, false)

/-- What the program uses of SQLite, on one connection. -/
structure Engine where
  /-- `sqlite3_exec`, with whether it returned `SQLITE_OK`. -/
  exec : Database → Bytes → Database × Bool
  /-- A query for table names, run to its end. Here and below `none` is a failure. -/
  list : Database → Bytes → Option (List Bytes)
  /-- Whether a query with one bound text has a row. -/
  check : Database → Bytes → Bytes → Option Bool
  /-- An INSERT of bound values. -/
  insert : Database → Bytes → Row → Option Database
  /-- A query with one bound integer, run to its end. -/
  select : Database → Bytes → Int32 → Option (List Row)

structure Documented (engine : Engine) : Prop where
  list : ∀ db, engine.list db tableListSql = some (listing db)
  check : ∀ db name, engine.check db tableCheckSql name = some (decide (name ∈ db.names))
  create : ∀ db rest name, readIdentifier rest = some (name, createForm.tail) →
    engine.exec db (createForm.head ++ rest) = outcome db (db.create name)
  -- of other names some are SQLite's own and cannot be dropped
  drop : ∀ db rest name, readIdentifier rest = some (name, dropForm.tail) → Digits name →
    engine.exec db (dropForm.head ++ rest) = (db.drop name, true)
  insert : ∀ db rest name row, readIdentifier rest = some (name, insertForm.tail) →
    engine.insert db (insertForm.head ++ rest) row = db.insert name row
  select : ∀ db rest name id, readIdentifier rest = some (name, selectForm.tail) →
    engine.select db (selectForm.head ++ rest) id =
      (db.rows? name).map fun rows => rows.filter fun row => row.id = id
  createUnterminated : ∀ db rest, readIdentifier rest = none →
    engine.exec db (createForm.head ++ rest) = (db, false)
  insertUnterminated : ∀ db rest row, readIdentifier rest = none →
    engine.insert db (insertForm.head ++ rest) row = none

/-- The names that SQLite has in every file. -/
def builtIn (name : Bytes) : Bool :=
  decide (fold name ∈ [bytes "sqlite_master", bytes "sqlite_schema", bytes "sqlite_temp_master",
    bytes "sqlite_temp_schema", bytes "json_each", bytes "json_tree"]) ||
  (bytes "pragma_").isPrefixOf (fold name)

theorem not_builtIn_of_digits {name : Bytes} (digits : Digits name) : builtIn name = false := by
  have letters (letter : Byte) (above : 57 < letter) : letter ∉ name := fun member =>
    absurd (digits letter member).2 (not_le.mpr above)
  rw [builtIn, fold_digits digits, Bool.or_eq_false_iff]
  constructor
  · rw [decide_eq_false_iff_not]
    intro known
    have spelled : ∀ own ∈ [bytes "sqlite_master", bytes "sqlite_schema", bytes "sqlite_temp_master",
        bytes "sqlite_temp_schema", bytes "json_each", bytes "json_tree"], (115 : Byte) ∈ own := by decide
    exact letters 115 (by decide) (spelled name known)
  · by_contra known
    have front := List.isPrefixOf_iff_prefix.mp ((Bool.not_eq_false _).mp known)
    exact letters 112 (by decide) (front.subset (by decide))

/-- SQLite as far as the program's own texts go; anything else is a syntax error. -/
def reference : Engine where
  exec db text :=
    match createForm.read text with
    | some name => outcome db (db.create name)
    | none =>
      match dropForm.read text with
      | some name =>
          if builtIn name = true ∧ db.table? name = none then (db, false) else (db.drop name, true)
      | none => (db, false)
  list db text := if text = tableListSql then some (listing db) else none
  check db text name := if text = tableCheckSql then some (decide (name ∈ db.names)) else none
  insert db text row := (insertForm.read text).bind fun name => db.insert name row
  select db text id := (selectForm.read text).bind fun name =>
    (db.rows? name).map fun rows => rows.filter fun row => row.id = id

theorem reference_documented : Documented reference where
  list db := by
    simp only [reference, if_true]
  check db name := by
    simp only [reference, if_true]
  create db rest name named := by
    simp only [reference, Form.read_name named]
  drop db rest name named digits := by
    have other : createForm.read (dropForm.head ++ rest) = none :=
      Form.read_other rfl rfl (by decide : (68 : Byte) ≠ 67)
    simp only [reference, other, Form.read_name named, not_builtIn_of_digits digits,
      Bool.false_eq_true, false_and, if_false]
  insert db rest name row named := by
    simp only [reference, Form.read_name named, Option.bind_some]
  select db rest name id named := by
    simp only [reference, Form.read_name named, Option.bind_some]
  createUnterminated db rest unnamed := by
    have other : dropForm.read (createForm.head ++ rest) = none :=
      Form.read_other rfl rfl (by decide : (67 : Byte) ≠ 68)
    simp only [reference, Form.read_unterminated unnamed, other]
  insertUnterminated db rest row unnamed := by
    simp only [reference, Form.read_unterminated unnamed, Option.bind_none]

end ModbusDatabase.Sqlite
