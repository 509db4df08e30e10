import Mathlib.Data.List.Nodup
import ModbusDatabase.Message

/-! One SQLite database file: its tables, their rows, and what the statements
the program uses do to them. SQLite takes two names for the same table when
they differ in the case of ASCII letters only, and keeps names that begin with
`sqlite_` for itself. -/

namespace ModbusDatabase.Tables
open Message
set_option autoImplicit false

/-- A row of the program's nine columns. -/
structure Row where
  id : Int32
  pduAddr : Int32
  pduFunc : Int32
  pduData : Bytes
  timestamp : Bytes
  address : Int32
  mapAddr : Int32
  value : Int32
  description : Bytes
  deriving DecidableEq

structure Table where
  name : Bytes
  rows : List Row

def lower (byte : Byte) : Byte := if 65 ≤ byte ∧ byte ≤ 90 then byte + 32 else byte

def fold (name : Bytes) : Bytes := name.map lower

def reserved (name : Bytes) : Bool := (bytes "sqlite_").isPrefixOf (fold name)

structure Database where
  tables : List Table
  distinct : (tables.map fun table => fold table.name).Nodup
  permitted : ∀ table ∈ tables, reserved table.name = false

namespace Database

def empty : Database := ⟨[], List.nodup_nil, fun _ member => absurd member List.not_mem_nil⟩

def names (db : Database) : List Bytes := db.tables.map Table.name

/-- The table a statement naming `name` is about. -/
def table? (db : Database) (name : Bytes) : Option Table :=
  db.tables.find? fun table => fold table.name = fold name

def rows? (db : Database) (name : Bytes) : Option (List Row) := (db.table? name).map Table.rows

theorem table?_eq_none {db : Database} {name : Bytes} :
    db.table? name = none ↔ ∀ table ∈ db.tables, fold table.name ≠ fold name := by
  simp only [table?, List.find?_eq_none, decide_eq_true_eq, ne_eq]

/-- `CREATE TABLE IF NOT EXISTS`. -/
def create (db : Database) (name : Bytes) : Option Database :=
  if allowed : reserved name = false then
    if absent : db.table? name = none then
      some { tables := db.tables ++ [⟨name, []⟩]
             distinct := by
              rw [List.map_append, List.nodup_append]
              refine ⟨db.distinct, List.nodup_singleton _, ?_⟩
              intro old known new fresh same
              obtain ⟨table, member, rfl⟩ := List.mem_map.mp known
              exact table?_eq_none.mp absent table member (same.trans (List.mem_singleton.mp fresh))
             permitted := by
              intro table member
              rcases List.mem_append.mp member with old | new
              · exact db.permitted table old
              · exact (List.mem_singleton.mp new) ▸ allowed }
    else some db
  else none

/-- `DROP TABLE IF EXISTS`. -/
def drop (db : Database) (name : Bytes) : Database where
  tables := db.tables.filter fun table => fold table.name ≠ fold name
  distinct := db.distinct.sublist (List.filter_sublist.map _)
  permitted table member := db.permitted table (List.mem_filter.mp member).1

def append (name : Bytes) (row : Row) (table : Table) : Table :=
  if fold table.name = fold name then { table with rows := table.rows ++ [row] } else table

@[simp] theorem append_name (name : Bytes) (row : Row) (table : Table) :
    (append name row table).name = table.name := by
  unfold append
  split <;> rfl

/-- `INSERT INTO`, which fails when there is no such table. -/
def insert (db : Database) (name : Bytes) (row : Row) : Option Database :=
  if (db.table? name).isSome then
    some { tables := db.tables.map (append name row)
           distinct := by
            rw [List.map_map]
            simpa only [Function.comp_def, append_name] using db.distinct
           permitted := by
            intro table member
            obtain ⟨old, known, rfl⟩ := List.mem_map.mp member
            rw [append_name]
            exact db.permitted old known }
  else none

variable {db next : Database} {name other : Bytes}

theorem names_nodup (db : Database) : db.names.Nodup := by
  apply List.Nodup.of_map fold
  rw [names, List.map_map]
  exact db.distinct

theorem rows?_of_mem_names (member : name ∈ db.names) : db.rows? name ≠ none := by
  obtain ⟨table, known, rfl⟩ := List.mem_map.mp member
  rw [rows?, ne_eq, Option.map_eq_none_iff, table?_eq_none]
  exact fun other => other table known rfl

theorem not_reserved_of_mem_names (member : name ∈ db.names) : reserved name = false := by
  obtain ⟨table, known, rfl⟩ := List.mem_map.mp member
  exact db.permitted table known

/-- What creation leaves: the table is there, and every other one is as it was. -/
theorem create_rows? (created : db.create name = some next) (other : Bytes) :
    next.rows? other = if fold other = fold name then some ((db.rows? other).getD [])
      else db.rows? other := by
  unfold create at created
  split at created
  next allowed =>
    split at created
    next absent =>
      cases created
      by_cases same : fold other = fold name
      · have missing : db.table? other = none := by
          rw [table?, same]
          exact absent
        have found : (db.tables ++ [Table.mk name []]).find? (fun table =>
            fold table.name = fold other) = some ⟨name, []⟩ := by
          rw [List.find?_append, ← table?, missing, List.find?_singleton,
            if_pos (decide_eq_true same.symm)]
          rfl
        rw [if_pos same, rows?, table?, found, rows?, missing]
        rfl
      · simp [rows?, table?, List.find?_append, same, Ne.symm same]
    next present =>
      cases created
      by_cases same : fold other = fold name
      · obtain ⟨table, found⟩ := Option.ne_none_iff_exists'.mp present
        have known : db.table? other = some table := by
          rw [table?, same]
          exact found
        rw [if_pos same, rows?, known]
        rfl
      · rw [if_neg same]
  next => exact absurd created (Option.some_ne_none _).symm

theorem create_names (created : db.create name = some next) :
    next.names = if db.rows? name = none then db.names ++ [name] else db.names := by
  unfold create at created
  split at created
  next allowed =>
    split at created
    next absent =>
      cases created
      rw [if_pos (by rw [rows?, absent]; rfl), names, List.map_append]
      rfl
    next present =>
      cases created
      rw [if_neg (by rw [rows?, Option.map_eq_none_iff]; exact present)]
  next => exact absurd created (Option.some_ne_none _).symm

theorem create_isSome (db : Database) (allowed : reserved name = false) :
    ∃ next, db.create name = some next := by
  unfold create
  rw [dif_pos allowed]
  split
  next => exact ⟨_, rfl⟩
  next => exact ⟨_, rfl⟩

theorem create_reserved (db : Database) (kept : reserved name = true) : db.create name = none := by
  unfold create
  rw [dif_neg (by rw [kept]; exact Bool.noConfusion)]

theorem drop_rows? (db : Database) (name other : Bytes) :
    (db.drop name).rows? other = if fold other = fold name then none else db.rows? other := by
  by_cases same : fold other = fold name
  · rw [if_pos same, rows?, Option.map_eq_none_iff, table?_eq_none]
    intro table member
    rw [same]
    simpa using (List.mem_filter.mp member).2
  · rw [if_neg same, rows?, rows?, table?, table?, drop]
    simp only [List.find?_filter]
    congr 2
    funext table
    by_cases hit : fold table.name = fold other
    · simp [hit, same]
    · simp [hit]

theorem drop_names (db : Database) (name : Bytes) :
    (db.drop name).names = db.names.filter fun known => fold known ≠ fold name := by
  rw [names, names, List.filter_map]
  rfl

theorem insert_eq_none {row : Row} : db.insert name row = none ↔ db.rows? name = none := by
  unfold insert rows?
  cases db.table? name with
  | none => simp
  | some table => simp

theorem insert_names {row : Row} (inserted : db.insert name row = some next) :
    next.names = db.names := by
  unfold insert at inserted
  split at inserted
  next =>
    cases inserted
    simp [names, Function.comp_def]
  next => exact absurd inserted (Option.some_ne_none _).symm

theorem insert_rows? {row : Row} (inserted : db.insert name row = some next) (other : Bytes) :
    next.rows? other = if fold other = fold name then (db.rows? other).map (· ++ [row])
      else db.rows? other := by
  unfold insert at inserted
  split at inserted
  next =>
    cases inserted
    have found : (db.tables.map (append name row)).find? (fun table => fold table.name = fold other)
        = (db.table? other).map (append name row) := by
      rw [List.find?_map, table?]
      simp only [Function.comp_def, append_name]
    rw [rows?, table?, found, rows?]
    by_cases same : fold other = fold name
    · rw [if_pos same]
      cases hit : db.table? other with
      | none => rfl
      | some table =>
        have named : fold table.name = fold other := by simpa using List.find?_some hit
        simp only [Option.map_some, append, if_pos (named.trans same)]
    · rw [if_neg same]
      cases hit : db.table? other with
      | none => rfl
      | some table =>
        have named : fold table.name = fold other := by simpa using List.find?_some hit
        simp only [Option.map_some, append, if_neg (named ▸ same)]
  next => exact absurd inserted (Option.some_ne_none _).symm

end Database

/-! Names made of digits, which no change of case can confuse. -/

def Digits (name : Bytes) : Prop := ∀ byte ∈ name, 48 ≤ byte ∧ byte ≤ 57

theorem lower_eq_digit {byte digit : Byte} (range : 48 ≤ digit ∧ digit ≤ 57) :
    lower byte = digit ↔ byte = digit := by
  unfold lower
  split
  next letter =>
    have bounds : 48 ≤ digit.val ∧ digit.val ≤ 57 := range
    have letters : 65 ≤ byte.val ∧ byte.val ≤ 90 := letter
    have raised : (byte + 32).val = (byte.val + 32) % 256 := Fin.val_add _ _
    rw [Fin.ext_iff, Fin.ext_iff]
    omega
  next => rfl

/-- A name that folds to digits is those digits. -/
theorem fold_eq_digits {name other : Bytes} (digits : Digits name) :
    fold other = name ↔ other = name := by
  induction name generalizing other with
  | nil => exact List.map_eq_nil_iff
  | cons digit name ih =>
    have range := digits digit List.mem_cons_self
    have later : Digits name := fun byte member => digits byte (List.mem_cons_of_mem _ member)
    cases other with
    | nil => exact ⟨fun same => absurd same (List.cons_ne_nil _ _).symm,
        fun same => absurd same (List.cons_ne_nil _ _).symm⟩
    | cons byte other =>
      rw [fold, List.map_cons, List.cons.injEq, List.cons.injEq, lower_eq_digit range, ← fold, ih later]

theorem fold_digits {name : Bytes} (digits : Digits name) : fold name = name :=
  (fold_eq_digits digits).mpr rfl

/-- A statement about digits is about the table of exactly that name. -/
theorem fold_eq_fold_digits {name other : Bytes} (digits : Digits name) :
    fold other = fold name ↔ other = name := by
  rw [fold_digits digits, fold_eq_digits digits]

theorem mem_names_digits {db : Database} {name : Bytes} (digits : Digits name) :
    name ∈ db.names ↔ db.rows? name ≠ none := by
  rw [Database.rows?, ne_eq, Option.map_eq_none_iff, Database.table?_eq_none, Database.names,
    List.mem_map]
  simp only [ne_eq, fold_eq_fold_digits digits, not_forall, not_not, exists_prop]

end ModbusDatabase.Tables
