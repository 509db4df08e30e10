import ModbusDatabase.Library.Shelf
import ModbusDatabase.Query

/-! The channels of the database manager over runs of all its calls, from any contents on.
To the caller each channel is a shelf of days. -/

namespace ModbusDatabase.Store
open Message Tables Sqlite DbManager WritePath Retention Query
open Library Library.Largest
set_option autoImplicit false

inductive Operation where
  | write (msg : ModbusMasterMsg)
  | drop (channel : Int32) (table : Bytes)
  | select (channel id : Int32) (outMsg : ModbusMasterMsg)

def Operation.channel : Operation → Int32
  | .write msg => msg.channel
  | .drop channel _ => channel
  | .select channel _ _ => channel

/-- What a call returns, and the message that a query leaves behind its reference. -/
abbrev Reply := Bool × Option ModbusMasterMsg

def perform (engine : Engine) (manager : DataBaseManager) : Operation → DataBaseManager × Reply
  | .write msg =>
      let written := writeMessage engine manager msg
      (written.1, written.2, none)
  | .drop channel table =>
      let dropped := dropTable engine manager channel table
      (dropped.1, dropped.2, none)
  | .select channel id outMsg =>
      let found := selectByIdAndChannel engine manager channel id outMsg
      (manager, found.1, some found.2)

/-! Shelves of days. -/

structure Calendar where
  maxChannels : Int32
  maxTablesPerDb : Int32
  shelf : Int32 → Shelf Bytes Row

def Calendar.change (calendar : Calendar) (channel : Int32) (shelf : Shelf Bytes Row) : Calendar :=
  { calendar with shelf := Function.update calendar.shelf channel shelf }

/-- The registers of an id are those of the first day that has any. -/
def answer (shelf : Shelf Bytes Row) (channel id : Int32) (outMsg : ModbusMasterMsg) :
    Bool × ModbusMasterMsg :=
  if shelf.keys = ∅ then (false, outMsg) else
    match shelf.search fun row => row.id = id with
    | none => (false, default)
    | some rows => assemble channel rows

/-- A write puts the rows of a message under its day, and what comes after the newest days goes. -/
def Calendar.perform (calendar : Calendar) : Operation → Calendar × Reply
  | .write msg =>
      if InRange calendar.maxChannels msg.channel ∧ 8 ≤ msg.timestamp.length then
        let shelf := (calendar.shelf msg.channel).put (room calendar.maxTablesPerDb) (day msg) (rowsOf msg)
        (calendar.change msg.channel shelf, decide (day msg ∈ shelf.keys) || msg.registerMap.isEmpty, none)
      else (calendar, false, none)
  | .drop channel table =>
      if InRange calendar.maxChannels channel then
        (calendar.change channel ((calendar.shelf channel).remove table), true, none)
      else (calendar, false, none)
  | .select channel id outMsg =>
      if InRange calendar.maxChannels channel then
        let found := answer (calendar.shelf channel) channel id outMsg
        (calendar, found.1, some found.2)
      else (calendar, false, some outMsg)

/-- The dated tables of a database. -/
def shelfOf (db : Database) : Shelf Bytes Row where
  page date := if isDated date = true then db.rows? date else none
  keys := dates db
  mem_keys date := by
    by_cases dated : isDated date = true
    · rw [if_pos dated]
      exact mem_dates_iff_rows? dated
    · rw [if_neg dated]
      exact iff_of_false (fun member => dated (mem_dates.mp member).2) fun present => present rfl

theorem page_shelfOf {date : Bytes} (dated : isDated date = true) (db : Database) :
    (shelfOf db).page date = db.rows? date := if_pos dated

def calendarOf (manager : DataBaseManager) : Calendar where
  maxChannels := manager.maxChannels
  maxTablesPerDb := manager.maxTablesPerDb
  shelf channel := shelfOf (manager.channelDb channel)

theorem calendarOf_store (manager : DataBaseManager) (channel : Int32) (db : Database) :
    calendarOf (store manager channel db) = (calendarOf manager).change channel (shelfOf db) := by
  have shelves : (fun other => shelfOf (Function.update manager.channelDb channel db other)) =
      Function.update (fun other => shelfOf (manager.channelDb other)) channel (shelfOf db) := by
    funext other
    by_cases same : other = channel
    · rw [same, Function.update_self, Function.update_self]
    · rw [Function.update_of_ne same, Function.update_of_ne same]
  exact congrArg (Calendar.mk manager.maxChannels manager.maxTablesPerDb) shelves

theorem store_self (manager : DataBaseManager) (channel : Int32) :
    store manager channel (manager.channelDb channel) = manager := by
  rw [store, Function.update_eq_self]

/-- The limit as a number leaves of the known dates what `cleanOldTables` leaves. -/
theorem kept_eq (maxTablesPerDb : Int32) (db : Database) {date : Bytes} (dated : isDated date = true) :
    kept maxTablesPerDb db date = Shelf.kept (room maxTablesPerDb) (dates db) date := by
  unfold kept Shelf.kept
  split
  next => rfl
  next =>
    apply keep_eq_largest
    intro other member
    rcases Finset.mem_insert.mp member with rfl | old
    · exact dated
    · exact (mem_dates.mp old).2

/-- What a write leaves is a shelf with the rows put on it. -/
theorem shelfOf_leaves {maxTablesPerDb : Int32} {db next : Database} {date : Bytes} {added : List Row}
    (left : Leaves maxTablesPerDb db date added next) (dated : isDated date = true) :
    shelfOf next = (shelfOf db).put (room maxTablesPerDb) date added := by
  apply Shelf.ext_page
  intro other
  have keys : Shelf.kept (room maxTablesPerDb) (shelfOf db).keys date = kept maxTablesPerDb db date :=
    (kept_eq maxTablesPerDb db dated).symm
  by_cases valid : isDated other = true
  · rw [Shelf.page_put, keys, page_shelfOf valid, page_shelfOf valid]
    exact left.rows other valid
  · have outside : other ∉ kept maxTablesPerDb db date := by
      intro stays
      by_cases same : other = date
      · exact valid (same ▸ dated)
      · exact valid (mem_dates.mp (mem_dates_of_kept stays same)).2
    rw [Shelf.page_put, keys, if_neg outside]
    exact if_neg valid

theorem shelfOf_drop (db : Database) {table : Bytes} (dated : isDated table = true) :
    shelfOf (db.drop table) = (shelfOf db).remove table := by
  apply Shelf.ext_page
  intro other
  by_cases valid : isDated other = true
  · rw [page_shelfOf valid]
    simp only [Database.drop_rows?, fold_eq_fold_digits (digits_of_isDated dated)]
    exact congrArg (ite _ _) (page_shelfOf valid db).symm
  · have blank : (shelfOf db).page other = none := if_neg valid
    rw [Shelf.remove]
    dsimp only
    rw [blank, ite_self]
    exact if_neg valid

theorem sort_dates (db : Database) : (dates db).sort (· ≤ ·) = listing db := by
  rw [← listing_toFinset]
  exact (List.toFinset_sort _ (listing_nodup db)).mpr ((listing_sorted db).imp le_of_lt)

theorem search_shelfOf (db : Database) (id : Int32) :
    (shelfOf db).search (fun row => row.id = id) =
      ((listing db).find? fun table => rowsWith db id table ≠ []).map (rowsWith db id) := by
  have pages : ((shelfOf db).keys.sort (· ≤ ·)).map (fun key =>
      (((shelfOf db).page key).getD []).filter fun row => row.id = id) =
        (listing db).map (rowsWith db id) := by
    change ((dates db).sort (· ≤ ·)).map _ = _
    rw [sort_dates]
    apply List.map_congr_left
    intro date listed
    rw [page_shelfOf (isDated_of_listed listed), rowsWith]
  rw [Shelf.search, pages, List.find?_map]
  congr 2
  funext table
  rw [Function.comp_apply, Bool.eq_iff_iff]
  simp

/-- Calls that name days where they name tables. Where a call is refused anyway they need not. -/
def Operation.Dated (maxChannels : Int32) : Operation → Prop
  | .write msg => InRange maxChannels msg.channel → 8 ≤ msg.timestamp.length → isDated (day msg) = true
  | .drop channel table => InRange maxChannels channel → isDated table = true
  | .select _ _ _ => True

instance (maxChannels : Int32) : (operation : Operation) → Decidable (operation.Dated maxChannels)
  | .write _ => inferInstanceAs (Decidable (_ → _ → _ = true))
  | .drop _ _ => inferInstanceAs (Decidable (_ → _ = true))
  | .select _ _ _ => inferInstanceAs (Decidable True)

section
variable {engine : Engine} (documented : Documented engine)
include documented

theorem write_calendarOf (manager : DataBaseManager) {msg : ModbusMasterMsg}
    (dated : (Operation.write msg).Dated manager.maxChannels) :
    calendarOf (perform engine manager (.write msg)).1 = ((calendarOf manager).perform (.write msg)).1 ∧
      (perform engine manager (.write msg)).2 = ((calendarOf manager).perform (.write msg)).2 := by
  by_cases inside : InRange manager.maxChannels msg.channel
  · by_cases long : 8 ≤ msg.timestamp.length
    · have valid := dated inside long
      have date := date_of_dated valid
      obtain ⟨left, success⟩ := writeTo_dated documented manager.maxTablesPerDb
        (manager.channelDb msg.channel) msg (date.symm ▸ valid)
      rw [date] at left success
      have shelf := shelfOf_leaves left valid
      have writes : (calendarOf manager).perform (.write msg) =
          ((calendarOf manager).change msg.channel
            (shelfOf (writeTo engine manager.maxTablesPerDb (manager.channelDb msg.channel) msg).1),
            decide (day msg ∈ (shelfOf (writeTo engine manager.maxTablesPerDb
              (manager.channelDb msg.channel) msg).1).keys) || msg.registerMap.isEmpty, none) := by
        rw [shelf]
        exact if_pos ⟨inside, long⟩
      rw [writes, perform, writeMessage_inRange engine inside]
      refine ⟨calendarOf_store _ _ _, Prod.ext ?_ rfl⟩
      rw [Bool.eq_iff_iff]
      refine success.trans ?_
      rw [Bool.or_eq_true, decide_eq_true_eq, List.isEmpty_iff]
      exact or_congr_left (Finset.ext_iff.mp (left.dates_eq valid).symm (day msg))
    · have short := @writeTo_short engine manager.maxTablesPerDb (manager.channelDb msg.channel) msg
        (not_le.mp long)
      have fails : (calendarOf manager).perform (.write msg) = (calendarOf manager, false, none) :=
        if_neg fun both => long both.2
      rw [fails, perform, writeMessage_inRange engine inside, short, store_self]
      exact ⟨rfl, rfl⟩
  · have fails : (calendarOf manager).perform (.write msg) = (calendarOf manager, false, none) :=
      if_neg fun both => inside both.1
    rw [fails, perform, writeMessage_outside engine inside]
    exact ⟨rfl, rfl⟩

theorem drop_calendarOf (manager : DataBaseManager) {channel : Int32} {table : Bytes}
    (dated : (Operation.drop channel table).Dated manager.maxChannels) :
    calendarOf (perform engine manager (.drop channel table)).1 =
        ((calendarOf manager).perform (.drop channel table)).1 ∧
      (perform engine manager (.drop channel table)).2 =
        ((calendarOf manager).perform (.drop channel table)).2 := by
  by_cases inside : InRange manager.maxChannels channel
  · have digits := digits_of_isDated (dated inside)
    have dropped : engine.exec (manager.channelDb channel) (cStr (dropForm.text table)) =
        ((manager.channelDb channel).drop table, true) := by
      rw [dropForm.cStr_text (nulFree_of_digits digits)]
      exact documented.drop _ _ table
        (readIdentifier_plain (quote_not_mem_of_digits digits) dropForm.closed) digits
    have removes : (calendarOf manager).perform (.drop channel table) =
        ((calendarOf manager).change channel ((shelfOf (manager.channelDb channel)).remove table), true,
          none) := if_pos inside
    have drops : dropTable engine manager channel table =
        (store manager channel ((manager.channelDb channel).drop table), true) := by
      rw [dropTable, getDbHandle_eq, if_pos inside]
      dsimp only
      rw [dropped]
    rw [removes, perform, drops, ← shelfOf_drop _ (dated inside)]
    exact ⟨calendarOf_store _ _ _, rfl⟩
  · have fails : (calendarOf manager).perform (.drop channel table) = (calendarOf manager, false, none) :=
      if_neg inside
    have refused : dropTable engine manager channel table = (manager, false) := by
      rw [dropTable, getDbHandle_eq, if_neg inside]
    rw [fails, perform, refused]
    exact ⟨rfl, rfl⟩

theorem select_calendarOf (manager : DataBaseManager) (channel id : Int32) (outMsg : ModbusMasterMsg) :
    (perform engine manager (.select channel id outMsg)).2 =
      ((calendarOf manager).perform (.select channel id outMsg)).2 := by
  by_cases inside : InRange manager.maxChannels channel
  · have finds : ((calendarOf manager).perform (.select channel id outMsg)).2 =
        ((answer (shelfOf (manager.channelDb channel)) channel id outMsg).1,
          some (answer (shelfOf (manager.channelDb channel)) channel id outMsg).2) :=
      congrArg Prod.snd (if_pos inside)
    have same : selectByIdAndChannel engine manager channel id outMsg =
        answer (shelfOf (manager.channelDb channel)) channel id outMsg := by
      have none_ : (shelfOf (manager.channelDb channel)).keys = ∅ ↔
          listing (manager.channelDb channel) = [] := by
        rw [← List.toFinset_eq_empty_iff, listing_toFinset]
        rfl
      rw [select_answer documented manager id inside, answer, search_shelfOf]
      simp only [none_]
      congr 1
      cases (listing (manager.channelDb channel)).find?
          fun table => rowsWith (manager.channelDb channel) id table ≠ [] with
      | none => rfl
      | some table => rfl
    rw [finds, perform, same]
  · have fails : ((calendarOf manager).perform (.select channel id outMsg)).2 = (false, some outMsg) :=
      congrArg Prod.snd (if_neg inside)
    have refused : selectByIdAndChannel engine manager channel id outMsg = (false, outMsg) := by
      rw [selectByIdAndChannel, getDbHandle_eq, if_neg inside]
    rw [fails, perform, refused]

/-- One call does to the shelves what the calendar says, and returns what it says. -/
theorem perform_calendarOf (manager : DataBaseManager) {operation : Operation}
    (dated : operation.Dated manager.maxChannels) :
    calendarOf (perform engine manager operation).1 = ((calendarOf manager).perform operation).1 ∧
      (perform engine manager operation).2 = ((calendarOf manager).perform operation).2 := by
  cases operation with
  | write msg => exact write_calendarOf documented manager dated
  | drop channel table => exact drop_calendarOf documented manager dated
  | select channel id outMsg =>
    refine ⟨?_, select_calendarOf documented manager channel id outMsg⟩
    have same : ((calendarOf manager).perform (.select channel id outMsg)).1 = calendarOf manager := by
      unfold Calendar.perform
      dsimp only
      split <;> rfl
    exact same.symm

end

theorem perform_settings (engine : Engine) (manager : DataBaseManager) (operation : Operation) :
    (perform engine manager operation).1.maxChannels = manager.maxChannels ∧
      (perform engine manager operation).1.maxTablesPerDb = manager.maxTablesPerDb := by
  cases operation with
  | write msg =>
    rw [perform, writeMessage, getDbHandle_eq]
    by_cases inside : InRange manager.maxChannels msg.channel
    · rw [if_pos inside]
      exact ⟨rfl, rfl⟩
    · rw [if_neg inside]
      exact ⟨rfl, rfl⟩
  | drop channel table =>
    rw [perform, dropTable, getDbHandle_eq]
    by_cases inside : InRange manager.maxChannels channel
    · rw [if_pos inside]
      exact ⟨rfl, rfl⟩
    · rw [if_neg inside]
      exact ⟨rfl, rfl⟩
  | select channel id outMsg => exact ⟨rfl, rfl⟩

/-- A channel that there is not is never written to. -/
theorem perform_blank (engine : Engine) (manager : DataBaseManager) (operation : Operation)
    {channel : Int32} (outside : ¬InRange manager.maxChannels channel) :
    (perform engine manager operation).1.channelDb channel = manager.channelDb channel := by
  have spared {other : Int32} (inside : InRange manager.maxChannels other) (db : Database) :
      (store manager other db).channelDb channel = manager.channelDb channel := by
    have apart : channel ≠ other := fun same => outside (same ▸ inside)
    exact Function.update_of_ne apart _ _
  cases operation with
  | write msg =>
    rw [perform, writeMessage, getDbHandle_eq]
    by_cases inside : InRange manager.maxChannels msg.channel
    · rw [if_pos inside]
      exact spared inside _
    · rw [if_neg inside]
  | drop other table =>
    rw [perform, dropTable, getDbHandle_eq]
    by_cases inside : InRange manager.maxChannels other
    · rw [if_pos inside]
      exact spared inside _
    · rw [if_neg inside]
  | select other id outMsg => rfl

theorem calendar_after {engine : Engine} (documented : Documented engine) (manager : DataBaseManager)
    {operations : List Operation}
    (dated : ∀ operation ∈ operations, operation.Dated manager.maxChannels) :
    calendarOf (Machine.run (perform engine) manager operations).1 =
        (Machine.run Calendar.perform (calendarOf manager) operations).1 ∧
      (Machine.run (perform engine) manager operations).2 =
        (Machine.run Calendar.perform (calendarOf manager) operations).2 := by
  let Related (now : DataBaseManager) (calendar : Calendar) : Prop :=
    calendarOf now = calendar ∧ now.maxChannels = manager.maxChannels
  have agree : ∀ now calendar (operation : Operation), operation.Dated manager.maxChannels →
      Related now calendar →
      Related (perform engine now operation).1 (calendar.perform operation).1 ∧
        (perform engine now operation).2 = (calendar.perform operation).2 := by
    rintro now calendar operation allowed ⟨rfl, settings⟩
    obtain ⟨next, reply⟩ := perform_calendarOf documented now (settings.symm ▸ allowed)
    exact ⟨⟨next, (perform_settings engine now operation).1.trans settings⟩, reply⟩
  have start : Related manager (calendarOf manager) := ⟨rfl, rfl⟩
  obtain ⟨last, replies⟩ := Machine.run_simulation_on agree start dated
  exact ⟨last.1, replies⟩

/-! What writes alone leave. -/

/-- What a message adds to its channel's shelf. -/
def addition (msg : ModbusMasterMsg) : Bytes × List Row := (day msg, rowsOf msg)

theorem keysOf_additions (history : List ModbusMasterMsg) :
    Shelf.keysOf (history.map addition) = daysOf history := by
  rw [Shelf.keysOf, List.map_map]
  rfl

theorem under_additions (date : Bytes) (history : List ModbusMasterMsg) :
    Shelf.under date (history.map addition) = boundOn date history := by
  rw [Shelf.under, boundOn, List.filter_map, List.flatMap_map]
  rfl

/-- A message that is written to a day of a channel that there is. -/
def Writable (maxChannels : Int32) (msg : ModbusMasterMsg) : Prop :=
  InRange maxChannels msg.channel ∧ isDated (day msg) = true

instance (maxChannels : Int32) (msg : ModbusMasterMsg) : Decidable (Writable maxChannels msg) :=
  inferInstanceAs (Decidable (_ ∧ _))

theorem Writable.long {maxChannels : Int32} {msg : ModbusMasterMsg} (valid : Writable maxChannels msg) :
    8 ≤ msg.timestamp.length := by
  have size := length_of_isDated valid.2
  rw [day, List.length_take] at size
  omega

theorem shelf_writes (calendar : Calendar) {messages : List ModbusMasterMsg}
    (valid : ∀ msg ∈ messages, Writable calendar.maxChannels msg) (channel : Int32) :
    (Machine.run Calendar.perform calendar (messages.map .write)).1.shelf channel =
      (calendar.shelf channel).puts (room calendar.maxTablesPerDb)
        ((onChannel channel messages).map addition) := by
  induction messages generalizing calendar with
  | nil => rfl
  | cons msg rest ih =>
    have first := valid msg List.mem_cons_self
    have shelves : (calendar.perform (.write msg)).1 = calendar.change msg.channel
        ((calendar.shelf msg.channel).put (room calendar.maxTablesPerDb) (day msg) (rowsOf msg)) :=
      congrArg Prod.fst (if_pos ⟨first.1, first.long⟩)
    have onward := ih (calendar.perform (.write msg)).1 (by
      rw [shelves]
      exact fun later member => valid later (List.mem_cons_of_mem _ member))
    rw [List.map_cons, Machine.run]
    refine onward.trans ?_
    rw [shelves, Calendar.change]
    dsimp only
    by_cases same : msg.channel = channel
    · rw [← same, Function.update_self, onChannel, onChannel, List.filter_cons_of_pos (by simp)]
      rfl
    · rw [Function.update_of_ne (Ne.symm same), onChannel, onChannel,
        List.filter_cons_of_neg (by simpa using same)]

/-- The manager after writing messages, whose files it may have found as it was started. -/
def written (engine : Engine) (manager : DataBaseManager) (messages : List ModbusMasterMsg) :
    DataBaseManager := (Machine.run (writeMessage engine) manager messages).1

theorem written_eq (engine : Engine) (manager : DataBaseManager) (messages : List ModbusMasterMsg) :
    written engine manager messages =
      (Machine.run (perform engine) manager (messages.map .write)).1 := by
  rw [written, Machine.run_state, Machine.run_state, List.foldl_map]
  rfl

theorem filled_written {engine : Engine} (documented : Documented engine) (manager : DataBaseManager)
    {messages : List ModbusMasterMsg} (valid : ∀ msg ∈ messages, Writable manager.maxChannels msg)
    (channel : Int32) :
    Shelf.Filled (room manager.maxTablesPerDb) (shelfOf (manager.channelDb channel))
      ((onChannel channel messages).map addition)
      (shelfOf ((written engine manager messages).channelDb channel)) := by
  have dated : ∀ operation ∈ messages.map Operation.write, operation.Dated manager.maxChannels := by
    intro operation member
    obtain ⟨msg, known, rfl⟩ := List.mem_map.mp member
    exact fun _ _ => (valid msg known).2
  have related := (calendar_after documented manager dated).1
  have shelf : shelfOf ((written engine manager messages).channelDb channel) =
      (shelfOf (manager.channelDb channel)).puts (room manager.maxTablesPerDb)
        ((onChannel channel messages).map addition) := by
    rw [written_eq]
    exact (congrArg (fun calendar => Calendar.shelf calendar channel) related).trans
      (shelf_writes (calendarOf manager) valid channel)
  rw [shelf]
  exact Shelf.filled_puts _ _ _

/-- The days of a channel after writes, and their rows. -/
theorem days_after {engine : Engine} (documented : Documented engine) (manager : DataBaseManager)
    {messages : List ModbusMasterMsg} (valid : ∀ msg ∈ messages, Writable manager.maxChannels msg)
    (channel : Int32) :
    dates ((written engine manager messages).channelDb channel) =
        Shelf.keptOf (room manager.maxTablesPerDb) (dates (manager.channelDb channel))
          (daysOf (onChannel channel messages)) ∧
      ∀ date ∈ dates ((written engine manager messages).channelDb channel),
        ((written engine manager messages).channelDb channel).rows? date =
          some (((manager.channelDb channel).rows? date).getD [] ++
            boundOn date (onChannel channel messages)) := by
  have filled := filled_written documented manager valid channel
  refine ⟨?_, fun date member => ?_⟩
  · have keys := filled.keys
    rw [keysOf_additions] at keys
    exact keys
  · have dated := (mem_dates.mp member).2
    have page := filled.page date member
    rwa [page_shelfOf dated, page_shelfOf dated, under_additions] at page

/-! Channels do not touch each other. -/

/-- What the calls on a channel depend on. -/
def side (channel : Int32) (manager : DataBaseManager) : Int32 × Int32 × Database :=
  (manager.maxChannels, manager.maxTablesPerDb, manager.channelDb channel)

theorem side_store {channel other : Int32} (apart : channel ≠ other) (manager : DataBaseManager)
    (db : Database) : side channel (store manager other db) = side channel manager := by
  simp only [side, store, Function.update_of_ne apart]

/-- A call on another channel. -/
theorem side_perform (engine : Engine) {channel : Int32} (manager : DataBaseManager)
    {operation : Operation} (apart : operation.channel ≠ channel) :
    side channel (perform engine manager operation).1 = side channel manager := by
  cases operation with
  | write msg =>
    rw [perform, writeMessage, getDbHandle_eq]
    by_cases inside : InRange manager.maxChannels msg.channel
    · rw [if_pos inside]
      exact side_store (Ne.symm apart) manager _
    · rw [if_neg inside]
  | drop other table =>
    rw [perform, dropTable, getDbHandle_eq]
    by_cases inside : InRange manager.maxChannels other
    · rw [if_pos inside]
      exact side_store (Ne.symm apart) manager _
    · rw [if_neg inside]
  | select other id outMsg => rfl

theorem getDbHandle_alike {left right : DataBaseManager} {channel : Int32}
    (same : side channel left = side channel right) :
    getDbHandle left channel = getDbHandle right channel := by
  have channels : left.maxChannels = right.maxChannels := congrArg Prod.fst same
  have db : left.channelDb channel = right.channelDb channel := congrArg (fun part => part.2.2) same
  rw [getDbHandle, getDbHandle, channels, db]

theorem store_alike {left right : DataBaseManager} {channel : Int32}
    (same : side channel left = side channel right) (db : Database) :
    side channel (store left channel db) = side channel (store right channel db) := by
  have channels : left.maxChannels = right.maxChannels := congrArg Prod.fst same
  have tables : left.maxTablesPerDb = right.maxTablesPerDb := congrArg (fun part => part.2.1) same
  simp only [side, store, Function.update_self, channels, tables]

theorem perform_alike (engine : Engine) {left right : DataBaseManager} {operation : Operation}
    (same : side operation.channel left = side operation.channel right) :
    side operation.channel (perform engine left operation).1 =
        side operation.channel (perform engine right operation).1 ∧
      (perform engine left operation).2 = (perform engine right operation).2 := by
  have tables : left.maxTablesPerDb = right.maxTablesPerDb := congrArg (fun part => part.2.1) same
  cases operation with
  | write msg =>
    have handle : getDbHandle left msg.channel = getDbHandle right msg.channel := getDbHandle_alike same
    rw [perform, perform, writeMessage, writeMessage, handle, tables]
    cases getDbHandle right msg.channel with
    | none => exact ⟨same, rfl⟩
    | some current => exact ⟨store_alike same _, rfl⟩
  | drop channel table =>
    have handle : getDbHandle left channel = getDbHandle right channel := getDbHandle_alike same
    rw [perform, perform, dropTable, dropTable, handle]
    cases getDbHandle right channel with
    | none => exact ⟨same, rfl⟩
    | some current => exact ⟨store_alike same _, rfl⟩
  | select channel id outMsg =>
    have handle : getDbHandle left channel = getDbHandle right channel := getDbHandle_alike same
    have finds : selectByIdAndChannel engine left channel id outMsg =
        selectByIdAndChannel engine right channel id outMsg := by
      rw [selectByIdAndChannel, selectByIdAndChannel, handle]
    refine ⟨same, ?_⟩
    rw [perform, perform, finds]

theorem own_after (engine : Engine) (manager : DataBaseManager) (operations : List Operation)
    (channel : Int32) :
    (Machine.run (perform engine) manager operations).1.channelDb channel =
        (Machine.run (perform engine) manager
          (operations.filter fun operation => operation.channel = channel)).1.channelDb channel ∧
      Machine.repliesTo (fun operation : Operation => decide (operation.channel = channel)) operations
          (Machine.run (perform engine) manager operations).2 =
        (Machine.run (perform engine) manager
          (operations.filter fun operation => operation.channel = channel)).2 := by
  let own (operation : Operation) : Bool := operation.channel = channel
  have spared (now : DataBaseManager) (operation : Operation) (other : own operation = false) :
      side channel (perform engine now operation).1 = side channel now :=
    side_perform engine now (of_decide_eq_false other)
  have alike (left right : DataBaseManager) (operation : Operation) (mine : own operation = true)
      (same : side channel left = side channel right) :
      side channel (perform engine left operation).1 = side channel (perform engine right operation).1 ∧
        (perform engine left operation).2 = (perform engine right operation).2 := by
    have here : operation.channel = channel := of_decide_eq_true mine
    subst here
    exact perform_alike engine same
  have start : side channel manager = side channel manager := rfl
  obtain ⟨file, replies⟩ := Machine.run_own spared alike start operations
  exact ⟨congrArg (fun part => part.2.2) file, replies⟩

end ModbusDatabase.Store
