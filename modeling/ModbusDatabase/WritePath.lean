import ModbusDatabase.DbManager
import ModbusDatabase.Library.Largest

/-! What each function on the way from `writeMessage` to the tables does, given
that SQLite behaves as documented. -/

namespace ModbusDatabase.WritePath
open Message Tables Sqlite DbManager
open Library.Largest
set_option autoImplicit false

/-- The dates a database has tables for. -/
def dates (db : Database) : Finset Bytes := (db.names.filter isDated).toFinset

theorem mem_dates {db : Database} {name : Bytes} :
    name ∈ dates db ↔ name ∈ db.names ∧ isDated name = true := by
  rw [dates, List.mem_toFinset, List.mem_filter]

theorem mem_dates_iff_rows? {db : Database} {date : Bytes} (dated : isDated date = true) :
    date ∈ dates db ↔ db.rows? date ≠ none := by
  rw [mem_dates, ← mem_names_digits (digits_of_isDated dated)]
  exact and_iff_left dated

theorem mem_listing {db : Database} {name : Bytes} : name ∈ listing db ↔ name ∈ dates db := by
  rw [listing, List.mem_insertionSort, dates, List.mem_toFinset]

theorem listing_nodup (db : Database) : (listing db).Nodup :=
  (List.perm_insertionSort _ _).nodup_iff.mpr (db.names_nodup.filter _)

theorem listing_sorted (db : Database) : (listing db).Pairwise (· < ·) :=
  (List.sortedLE_insertionSort.sortedLT_of_nodup (listing_nodup db)).pairwise

theorem listing_toFinset (db : Database) : (listing db).toFinset = dates db := by
  ext name
  rw [List.mem_toFinset, mem_listing]

theorem isDated_of_listed {db : Database} {name : Bytes} (listed : name ∈ listing db) :
    isDated name = true := (mem_dates.mp (mem_listing.mp listed)).2

theorem length_listing_lt (db : Database) : (listing db).length < 2 ^ 31 :=
  length_dated_lt (listing_nodup db) fun _ => isDated_of_listed

/-- The dates that `cleanOldTables` leaves of a set of them; a negative limit,
converted to `size_t`, is no limit. -/
def keep (maxTablesPerDb : Int32) (known : Finset Bytes) : Finset Bytes :=
  if maxTablesPerDb < 0 then known else largest maxTablesPerDb.toInt.toNat known

/-- The dates with a table once `date` has been asked for. -/
def kept (maxTablesPerDb : Int32) (db : Database) (date : Bytes) : Finset Bytes :=
  if date ∈ dates db then dates db else keep maxTablesPerDb (insert date (dates db))

theorem keep_subset (maxTablesPerDb : Int32) (known : Finset Bytes) :
    keep maxTablesPerDb known ⊆ known := by
  unfold keep
  split
  next => exact subset_rfl
  next => exact largest_subset _ _

theorem mem_dates_of_kept {maxTablesPerDb : Int32} {db : Database} {date day : Bytes}
    (room : day ∈ kept maxTablesPerDb db date) (other : day ≠ date) : day ∈ dates db := by
  unfold kept at room
  split at room
  next => exact room
  next => exact Finset.mem_of_mem_insert_of_ne (keep_subset _ _ room) other

/-- The tables `cleanOldTables` drops. -/
def oldest (maxTablesPerDb : Int32) (db : Database) : List Bytes :=
  if maxTablesPerDb < 0 then []
  else (listing db).take ((listing db).length - maxTablesPerDb.toInt.toNat)

theorem mem_listing_of_oldest {maxTablesPerDb : Int32} {db : Database} {name : Bytes}
    (old : name ∈ oldest maxTablesPerDb db) : name ∈ listing db := by
  unfold oldest at old
  split at old
  next => exact absurd old List.not_mem_nil
  next => exact List.mem_of_mem_take old

/-- A date is dropped exactly when it is not kept. -/
theorem mem_oldest {maxTablesPerDb : Int32} {db : Database} {date : Bytes} (known : date ∈ dates db) :
    date ∈ oldest maxTablesPerDb db ↔ date ∉ keep maxTablesPerDb (dates db) := by
  unfold oldest keep
  split
  next => exact ⟨fun old => absurd old List.not_mem_nil, fun lost => absurd known lost⟩
  next =>
    rw [← listing_toFinset, ← toFinset_drop (listing_sorted db), List.mem_toFinset]
    have listed := mem_listing.mpr known
    have distinct := listing_nodup db
    rw [← List.take_append_drop ((listing db).length - maxTablesPerDb.toInt.toNat) (listing db)]
      at listed distinct
    rcases List.mem_append.mp listed with early | late
    · exact ⟨fun _ late => List.disjoint_of_nodup_append distinct early late, fun _ => early⟩
    · exact ⟨fun early => absurd late (List.disjoint_of_nodup_append distinct early),
        fun lost => absurd late lost⟩

theorem foldl_drop_rows? {list : List Bytes} (digits : ∀ name ∈ list, Digits name) (db : Database)
    (other : Bytes) :
    (list.foldl Database.drop db).rows? other = if other ∈ list then none else db.rows? other := by
  induction list generalizing db with
  | nil => rw [List.foldl_nil, if_neg List.not_mem_nil]
  | cons name list ih =>
    rw [List.foldl_cons, ih (fun later member => digits later (List.mem_cons_of_mem _ member)),
      Database.drop_rows?]
    simp only [fold_eq_fold_digits (digits name List.mem_cons_self), List.mem_cons]
    by_cases same : other = name
    · simp [same]
    · simp [same]

theorem mem_foldl_drop {list : List Bytes} (digits : ∀ name ∈ list, Digits name) (db : Database)
    (other : Bytes) :
    other ∈ (list.foldl Database.drop db).names ↔ other ∈ db.names ∧ other ∉ list := by
  induction list generalizing db with
  | nil => rw [List.foldl_nil, and_iff_left List.not_mem_nil]
  | cons name list ih =>
    rw [List.foldl_cons, ih (fun later member => digits later (List.mem_cons_of_mem _ member)),
      Database.drop_names, List.mem_filter, List.mem_cons, not_or, decide_eq_true_eq, ne_eq,
      fold_eq_fold_digits (digits name List.mem_cons_self), and_assoc]

theorem digits_of_oldest {maxTablesPerDb : Int32} {db : Database} (name : Bytes)
    (old : name ∈ oldest maxTablesPerDb db) : Digits name :=
  digits_of_isDated (isDated_of_listed (mem_listing_of_oldest old))

/-- The rows of a message, as they are bound. -/
def rowsOf (msg : ModbusMasterMsg) : List Row := msg.registerMap.map (bindRow msg)

/-- What is left of `db` once the table of `date` has been asked for and rows
have been added to it. -/
structure Leaves (maxTablesPerDb : Int32) (db : Database) (date : Bytes) (added : List Row)
    (next : Database) : Prop where
  rows : ∀ day, isDated day = true → next.rows? day =
    if day ∈ kept maxTablesPerDb db date then
      if day = date then some ((db.rows? day).getD [] ++ added) else db.rows? day
    else none
  others : ∀ name, isDated name = false → (name ∈ next.names ↔ name ∈ db.names)

theorem insertRows_failing {engine : Engine} {db : Database} {date : Bytes} {msg : ModbusMasterMsg}
    (fails : ∀ reg, insertRow engine db date msg reg = (db, false)) :
    insertRows engine db date msg = (db, msg.registerMap.isEmpty) := by
  have run : ∀ (regs : List RegisterItem) (success : Bool), regs.foldl (fun written reg =>
      let inserted := insertRow engine written.1 date msg reg
      (inserted.1, written.2 && inserted.2)) (db, success) = (db, success && regs.isEmpty) := by
    intro regs
    induction regs with
    | nil => intro success; rw [List.foldl_nil, List.isEmpty_nil, Bool.and_true]
    | cons reg regs ih =>
      intro success
      rw [List.foldl_cons, fails]
      dsimp only
      rw [Bool.and_false, ih, List.isEmpty_cons, Bool.and_false, Bool.false_and]
  rw [insertRows, run, Bool.true_and]

theorem Leaves.dates_eq {maxTablesPerDb : Int32} {db next : Database} {date : Bytes} {added : List Row}
    (left : Leaves maxTablesPerDb db date added next) (dated : isDated date = true) :
    dates next = kept maxTablesPerDb db date := by
  ext day
  by_cases valid : isDated day = true
  · rw [mem_dates_iff_rows? valid, left.rows day valid]
    by_cases room : day ∈ kept maxTablesPerDb db date
    · refine iff_of_true ?_ room
      rw [if_pos room]
      by_cases same : day = date
      · rw [if_pos same]
        exact Option.some_ne_none _
      · rw [if_neg same, ← mem_dates_iff_rows? valid]
        exact mem_dates_of_kept room same
    · rw [if_neg room]
      exact iff_of_false (fun present => present rfl) room
  · refine iff_of_false (fun member => valid (mem_dates.mp member).2) (fun room => valid ?_)
    by_cases same : day = date
    · exact same ▸ dated
    · exact (mem_dates.mp (mem_dates_of_kept room same)).2

theorem writeTo_ensured {engine : Engine} {maxTablesPerDb : Int32} {db ensured : Database}
    {msg : ModbusMasterMsg} {success : Bool} (nonempty : getDateFromTimestamp msg.timestamp ≠ [])
    (asked : ensureTableExists engine maxTablesPerDb db (getDateFromTimestamp msg.timestamp) =
      (ensured, success)) :
    writeTo engine maxTablesPerDb db msg =
      if success then insertRows engine ensured (getDateFromTimestamp msg.timestamp) msg
      else (ensured, false) := by
  simp only [writeTo, if_neg nonempty, asked]

section
variable {engine : Engine} (documented : Documented engine)
include documented

theorem getAllTableNames_eq (db : Database) : getAllTableNames engine db = listing db := by
  have whole : cStr tableListSql = tableListSql := cStr_eq_self.mpr (by decide)
  rw [getAllTableNames, whole, documented.list, Option.getD_some]
  refine (List.map_congr_left ?_).trans (List.map_id _)
  intro name listed
  exact cStr_eq_self.mpr (nulFree_of_digits (digits_of_isDated (isDated_of_listed listed)))

theorem check_eq (db : Database) (date : Bytes) :
    engine.check db (cStr tableCheckSql) (cStr date) = some (decide (cStr date ∈ db.names)) := by
  have whole : cStr tableCheckSql = tableCheckSql := cStr_eq_self.mpr (by decide)
  rw [whole, documented.check]

theorem createTable_eq (db : Database) {date : Bytes} (unquoted : quote ∉ date) (free : NulFree date) :
    createTable engine db date = outcome db (db.create date) := by
  rw [createTable, createForm.cStr_text free]
  exact documented.create db _ date (readIdentifier_plain unquoted createForm.closed)

theorem drop_eq (db : Database) {date : Bytes} (dated : isDated date = true) :
    (engine.exec db (cStr (dropForm.text date))).1 = db.drop date := by
  have digits := digits_of_isDated dated
  rw [dropForm.cStr_text (nulFree_of_digits digits)]
  exact congrArg Prod.fst (documented.drop db _ date
    (readIdentifier_plain (quote_not_mem_of_digits digits) dropForm.closed) digits)

theorem insertRow_eq (db : Database) {table : Bytes} (unquoted : quote ∉ table) (free : NulFree table)
    (msg : ModbusMasterMsg) (reg : RegisterItem) :
    insertRow engine db table msg reg = outcome db (db.insert table (bindRow msg reg)) := by
  rw [insertRow, insertForm.cStr_text free]
  rw [Form.text, documented.insert db _ table _ (readIdentifier_plain unquoted insertForm.closed)]

theorem select_eq (db : Database) {date : Bytes} (dated : isDated date = true) (id : Int32) :
    engine.select db (cStr (selectForm.text date)) id =
      (db.rows? date).map fun rows => rows.filter fun row => row.id = id := by
  have digits := digits_of_isDated dated
  rw [selectForm.cStr_text (nulFree_of_digits digits)]
  exact documented.select db _ date id
    (readIdentifier_plain (quote_not_mem_of_digits digits) selectForm.closed)

/-- The conversions of `cleanOldTables` lose nothing: there are too few dates. -/
theorem cleanOldTables_eq (maxTablesPerDb : Int32) (db : Database) :
    cleanOldTables engine maxTablesPerDb db = (oldest maxTablesPerDb db).foldl Database.drop db := by
  have few := length_listing_lt db
  have low := maxTablesPerDb.le_toInt
  have high := maxTablesPerDb.toInt_lt
  have drops : ∀ list : List Bytes, (∀ name ∈ list, name ∈ listing db) →
      list.foldl (fun db table => (engine.exec db (cStr (dropForm.text table))).1) db =
        list.foldl Database.drop db := by
    intro list listed
    apply List.foldl_ext
    intro now name member
    exact drop_eq documented now (isDated_of_listed (listed name member))
  unfold cleanOldTables oldest
  rw [getAllTableNames_eq documented, sizeT]
  by_cases negative : maxTablesPerDb < 0
  · rw [if_pos negative, if_pos, List.foldl_nil]
    rw [Int32.lt_iff_toInt_lt, Int32.toInt_zero] at negative
    omega
  · rw [if_neg negative]
    dsimp only
    rw [Int32.lt_iff_toInt_lt, Int32.toInt_zero] at negative
    split
    next enough =>
      have none_left : (listing db).length - maxTablesPerDb.toInt.toNat = 0 := by omega
      rw [none_left, List.take_zero, List.foldl_nil]
    next many =>
      have exact_count : (Int32.ofInt ((listing db).length - maxTablesPerDb.toInt)).toInt.toNat =
          (listing db).length - maxTablesPerDb.toInt.toNat := by
        rw [Int32.toInt_ofInt_of_le (by omega) (by omega)]
        omega
      rw [exact_count]
      exact drops _ fun name member => List.mem_of_mem_take member

theorem cleanOldTables_rows? (maxTablesPerDb : Int32) (db : Database) {date : Bytes}
    (dated : isDated date = true) :
    (cleanOldTables engine maxTablesPerDb db).rows? date =
      if date ∈ keep maxTablesPerDb (dates db) then db.rows? date else none := by
  rw [cleanOldTables_eq documented, foldl_drop_rows? digits_of_oldest]
  by_cases known : date ∈ dates db
  · by_cases lost : date ∈ keep maxTablesPerDb (dates db)
    · rw [if_pos lost, if_neg (fun old => (mem_oldest known).mp old lost)]
    · rw [if_neg lost, if_pos ((mem_oldest known).mpr lost)]
  · have missing : db.rows? date = none := by
      by_contra present
      exact known ((mem_dates_iff_rows? dated).mpr present)
    rw [missing, ite_self, ite_self]

theorem cleanOldTables_others (maxTablesPerDb : Int32) (db : Database) {name : Bytes}
    (undated : isDated name = false) :
    (name ∈ (cleanOldTables engine maxTablesPerDb db).names ↔ name ∈ db.names) ∧
      (cleanOldTables engine maxTablesPerDb db).rows? name = db.rows? name := by
  have spared : name ∉ oldest maxTablesPerDb db := by
    intro old
    rw [isDated_of_listed (mem_listing_of_oldest old)] at undated
    exact Bool.noConfusion undated
  rw [cleanOldTables_eq documented, mem_foldl_drop digits_of_oldest, foldl_drop_rows? digits_of_oldest,
    if_neg spared]
  exact ⟨and_iff_left spared, rfl⟩

theorem createTable_unterminated (db : Database) {date : Bytes} (unquoted : quote ∉ date)
    (nul : ¬NulFree date) : createTable engine db date = (db, false) := by
  rw [createTable, createForm.cStr_text_of_nul nul]
  exact documented.createUnterminated db _ (readIdentifier_unterminated
    fun member => unquoted ((List.takeWhile_sublist _).subset member))

theorem insertRow_unterminated (db : Database) {table : Bytes} (unquoted : quote ∉ table)
    (nul : ¬NulFree table) (msg : ModbusMasterMsg) (reg : RegisterItem) :
    insertRow engine db table msg reg = (db, false) := by
  rw [insertRow, insertForm.cStr_text_of_nul nul, documented.insertUnterminated]
  · rfl
  · exact readIdentifier_unterminated
      fun member => unquoted ((List.takeWhile_sublist _).subset member)

theorem ensureTableExists_known (maxTablesPerDb : Int32) {db : Database} {date : Bytes}
    (known : cStr date ∈ db.names) : ensureTableExists engine maxTablesPerDb db date = (db, true) := by
  rw [ensureTableExists, check_eq documented, decide_eq_true known]

theorem ensureTableExists_unknown (maxTablesPerDb : Int32) {db : Database} {date : Bytes}
    (unknown : cStr date ∉ db.names) :
    ensureTableExists engine maxTablesPerDb db date =
      if (createTable engine db date).2 then
        (cleanOldTables engine maxTablesPerDb (createTable engine db date).1, true)
      else ((createTable engine db date).1, false) := by
  rw [ensureTableExists, check_eq documented, decide_eq_false unknown]

/-- A reserved name is refused before anything is created. -/
theorem ensureTableExists_reserved (maxTablesPerDb : Int32) (db : Database) {date : Bytes}
    (unquoted : quote ∉ date) (free : NulFree date) (kept : reserved date = true) :
    ensureTableExists engine maxTablesPerDb db date = (db, false) := by
  have unknown : cStr date ∉ db.names := by
    intro member
    rw [cStr_eq_self.mpr free] at member
    rw [Database.not_reserved_of_mem_names member] at kept
    exact Bool.noConfusion kept
  rw [ensureTableExists_unknown documented _ unknown, createTable_eq documented _ unquoted free,
    Database.create_reserved _ kept]
  rfl

/-- A dated table can always be asked for, and what it takes is room. -/
theorem ensureTableExists_dated (maxTablesPerDb : Int32) (db : Database) {date : Bytes}
    (dated : isDated date = true) :
    ∃ next, ensureTableExists engine maxTablesPerDb db date = (next, true) ∧
      Leaves maxTablesPerDb db date [] next := by
  have digits := digits_of_isDated dated
  have whole : cStr date = date := cStr_eq_self.mpr (nulFree_of_digits digits)
  by_cases known : date ∈ db.names
  · have listed : date ∈ dates db := mem_dates.mpr ⟨known, dated⟩
    refine ⟨db, ensureTableExists_known documented _ (whole.symm ▸ known), ?_, fun _ _ => Iff.rfl⟩
    intro day valid
    rw [kept, if_pos listed]
    by_cases member : day ∈ dates db
    · obtain ⟨rows, found⟩ := Option.ne_none_iff_exists'.mp ((mem_dates_iff_rows? valid).mp member)
      rw [if_pos member, found, Option.getD_some, List.append_nil, ite_self]
    · rw [if_neg member]
      by_contra present
      exact member ((mem_dates_iff_rows? valid).mpr present)
  · have unlisted : date ∉ dates db := fun listed => known (mem_dates.mp listed).1
    obtain ⟨created, made⟩ := db.create_isSome (not_reserved_of_digits digits)
    have made_names := Database.create_names made
    have missing : db.rows? date = none := by
      by_contra present
      exact unlisted ((mem_dates_iff_rows? dated).mpr present)
    rw [if_pos missing] at made_names
    have known_dates : dates created = insert date (dates db) := by
      ext day
      rw [mem_dates, made_names, List.mem_append, List.mem_singleton, Finset.mem_insert, mem_dates]
      constructor
      · rintro ⟨old | rfl, valid⟩
        · exact .inr ⟨old, valid⟩
        · exact .inl rfl
      · rintro (rfl | ⟨old, valid⟩)
        · exact ⟨.inr rfl, dated⟩
        · exact ⟨.inl old, valid⟩
    refine ⟨cleanOldTables engine maxTablesPerDb created, ?_, ?_, ?_⟩
    · rw [ensureTableExists_unknown documented _ (whole.symm ▸ known),
        createTable_eq documented db (quote_not_mem_of_digits digits) (nulFree_of_digits digits), made]
      rfl
    · intro day valid
      rw [cleanOldTables_rows? documented _ _ valid, kept, if_neg unlisted, known_dates,
        Database.create_rows? made, List.append_nil]
      simp only [fold_eq_fold_digits digits]
    · intro name undated
      rw [(cleanOldTables_others documented _ _ undated).1, made_names, List.mem_append,
        List.mem_singleton]
      refine or_iff_left fun same => ?_
      rw [same, dated] at undated
      exact Bool.noConfusion undated

theorem insertRows_present {db : Database} {date : Bytes} (unquoted : quote ∉ date)
    (free : NulFree date) (present : db.rows? date ≠ none) (msg : ModbusMasterMsg) :
    ∃ next, insertRows engine db date msg = (next, true) ∧ next.names = db.names ∧
      ∀ other, next.rows? other = if fold other = fold date then
        (db.rows? other).map (· ++ rowsOf msg) else db.rows? other := by
  unfold insertRows rowsOf
  generalize msg.registerMap = regs
  induction regs generalizing db with
  | nil =>
    refine ⟨db, rfl, rfl, fun other => ?_⟩
    simp
  | cons reg regs ih =>
    have possible : db.insert date (bindRow msg reg) ≠ none :=
      fun failed => present (Database.insert_eq_none.mp failed)
    obtain ⟨first, inserted⟩ := Option.ne_none_iff_exists'.mp possible
    have there : first.rows? date ≠ none := by
      rw [Database.insert_rows? inserted, if_pos rfl, ne_eq, Option.map_eq_none_iff]
      exact present
    obtain ⟨next, rest, names, rows⟩ := ih there
    refine ⟨next, ?_, names.trans (Database.insert_names inserted), fun other => ?_⟩
    · rw [List.foldl_cons, insertRow_eq documented db unquoted free, inserted]
      exact rest
    · rw [rows, Database.insert_rows? inserted]
      by_cases same : fold other = fold date
      · simp only [if_pos same, Option.map_map, List.map_cons]
        congr 1
        funext old
        simp
      · simp only [if_neg same]

theorem insertRows_absent {db : Database} {date : Bytes} (unquoted : quote ∉ date)
    (free : NulFree date) (absent : db.rows? date = none) (msg : ModbusMasterMsg) :
    insertRows engine db date msg = (db, msg.registerMap.isEmpty) := by
  apply insertRows_failing
  intro reg
  rw [insertRow_eq documented db unquoted free, Database.insert_eq_none.mpr absent]
  rfl

/-- A NUL in the name cuts the statements off: nothing is written, and at most an
empty message is taken for written. -/
theorem writeTo_nul (maxTablesPerDb : Int32) (db : Database) (msg : ModbusMasterMsg)
    (unquoted : quote ∉ getDateFromTimestamp msg.timestamp)
    (nul : ¬NulFree (getDateFromTimestamp msg.timestamp)) :
    writeTo engine maxTablesPerDb db msg =
      (db, decide (cStr (getDateFromTimestamp msg.timestamp) ∈ db.names) &&
        msg.registerMap.isEmpty) := by
  have nonempty : getDateFromTimestamp msg.timestamp ≠ [] := by
    intro empty
    rw [empty] at nul
    exact nul List.not_mem_nil
  by_cases known : cStr (getDateFromTimestamp msg.timestamp) ∈ db.names
  · rw [writeTo_ensured nonempty (ensureTableExists_known documented maxTablesPerDb known),
      if_pos rfl, insertRows_failing (insertRow_unterminated documented db unquoted nul msg),
      decide_eq_true known, Bool.true_and]
  · have asked := ensureTableExists_unknown documented maxTablesPerDb known
    rw [createTable_unterminated documented db unquoted nul] at asked
    rw [writeTo_ensured nonempty asked, decide_eq_false known]
    rfl

/-- A write on a dated timestamp: its rows are stored exactly when its date is kept. -/
theorem writeTo_dated (maxTablesPerDb : Int32) (db : Database) (msg : ModbusMasterMsg)
    (dated : isDated (getDateFromTimestamp msg.timestamp) = true) :
    Leaves maxTablesPerDb db (getDateFromTimestamp msg.timestamp) (rowsOf msg)
        (writeTo engine maxTablesPerDb db msg).1 ∧
      ((writeTo engine maxTablesPerDb db msg).2 = true ↔
        getDateFromTimestamp msg.timestamp ∈ kept maxTablesPerDb db
          (getDateFromTimestamp msg.timestamp) ∨ msg.registerMap = []) := by
  have nonempty : getDateFromTimestamp msg.timestamp ≠ [] := by
    intro empty
    exact absurd (length_of_isDated (empty ▸ dated)) (by decide)
  obtain ⟨ensured, asked, rows, others⟩ := ensureTableExists_dated documented maxTablesPerDb db dated
  rw [writeTo_ensured nonempty asked, if_pos rfl]
  generalize getDateFromTimestamp msg.timestamp = date at dated rows others ⊢
  have digits := digits_of_isDated dated
  have found := rows date dated
  by_cases room : date ∈ kept maxTablesPerDb db date
  · rw [if_pos room, if_pos rfl] at found
    obtain ⟨next, written, names, after⟩ := insertRows_present documented
      (quote_not_mem_of_digits digits) (nulFree_of_digits digits)
      (found.symm ▸ Option.some_ne_none _) msg
    rw [written]
    refine ⟨⟨fun day valid => ?_, fun name undated => names ▸ others name undated⟩, by simp [room]⟩
    simp only [after, fold_eq_fold_digits digits, rows day valid]
    by_cases same : day = date
    · simp [same, room]
    · simp [same]
  · rw [if_neg room] at found
    rw [insertRows_absent documented (quote_not_mem_of_digits digits) (nulFree_of_digits digits) found]
    refine ⟨⟨fun day valid => ?_, others⟩, by simp [room]⟩
    rw [rows day valid]
    by_cases same : day = date
    · simp [same, room]
    · simp [same]

end

end ModbusDatabase.WritePath
