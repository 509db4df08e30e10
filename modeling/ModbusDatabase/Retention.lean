import ModbusDatabase.Library.Transition
import ModbusDatabase.WritePath

/-! Which days a run of `writeMessage` calls keeps: the newest ones it has seen,
with every row, as long as all tables are named by dates. -/

namespace ModbusDatabase.Retention
open Message Tables Sqlite DbManager WritePath
open Library Library.Largest
set_option autoImplicit false

def day (msg : ModbusMasterMsg) : Bytes := msg.timestamp.take 8

theorem date_of_dated {msg : ModbusMasterMsg} (dated : isDated (day msg) = true) :
    getDateFromTimestamp msg.timestamp = day msg := by
  have size := length_of_isDated dated
  rw [day, List.length_take] at size
  rw [getDateFromTimestamp, if_pos (by omega), day]

def onChannel (channel : Int32) (history : List ModbusMasterMsg) : List ModbusMasterMsg :=
  history.filter fun msg => msg.channel = channel

def daysOf (history : List ModbusMasterMsg) : Finset Bytes := (history.map day).toFinset

/-- The rows a day's messages bind, in call order. -/
def boundOn (date : Bytes) (history : List ModbusMasterMsg) : List Row :=
  (history.filter fun msg => day msg = date).flatMap rowsOf

theorem daysOf_concat (history : List ModbusMasterMsg) (msg : ModbusMasterMsg) :
    daysOf (history ++ [msg]) = insert (day msg) (daysOf history) := by
  ext date
  simp [daysOf, eq_comm]

theorem boundOn_concat (date : Bytes) (history : List ModbusMasterMsg) (msg : ModbusMasterMsg) :
    boundOn date (history ++ [msg]) =
      if date = day msg then boundOn date history ++ rowsOf msg else boundOn date history := by
  by_cases same : date = day msg
  · simp [boundOn, same]
  · simp [boundOn, same, Ne.symm same]

theorem boundOn_of_unseen {date : Bytes} {history : List ModbusMasterMsg}
    (unseen : date ∉ daysOf history) : boundOn date history = [] := by
  rw [boundOn, List.filter_eq_nil_iff.mpr, List.flatMap_nil]
  intro msg member same
  apply unseen
  rw [daysOf, List.mem_toFinset, List.mem_map]
  exact ⟨msg, member, of_decide_eq_true same⟩

/-- The database of a channel after its messages: the newest days, with all their rows. -/
structure Retains (limit : Nat) (history : List ModbusMasterMsg) (db : Database) : Prop where
  rows : ∀ date, isDated date = true → db.rows? date =
    if date ∈ largest limit (daysOf history) then some (boundOn date history) else none
  named : ∀ name ∈ db.names, isDated name = true
  seen : ∀ date ∈ daysOf history, isDated date = true

theorem Retains.dates_eq {limit : Nat} {history : List ModbusMasterMsg} {db : Database}
    (retains : Retains limit history db) : dates db = largest limit (daysOf history) := by
  ext date
  by_cases valid : isDated date = true
  · rw [mem_dates_iff_rows? valid, retains.rows date valid]
    split
    next member => exact iff_of_true (Option.some_ne_none _) member
    next outside => exact iff_of_false (fun present => present rfl) outside
  · refine iff_of_false (fun member => valid (mem_dates.mp member).2) (fun member => valid ?_)
    exact retains.seen date (largest_subset _ _ member)

theorem retains_empty (limit : Nat) : Retains limit [] .empty where
  rows _ _ := rfl
  named _ member := absurd member List.not_mem_nil
  seen _ member := absurd member (Finset.notMem_empty _)

theorem names_of_leaves {maxTablesPerDb : Int32} {db next : Database} {date : Bytes}
    {added : List Row} (left : Leaves maxTablesPerDb db date added next)
    (named : ∀ name ∈ db.names, isDated name = true) :
    ∀ name ∈ next.names, isDated name = true := by
  intro name member
  by_contra undated
  have undated := Bool.eq_false_of_not_eq_true undated
  have before := named name ((left.others name undated).mp member)
  rw [undated] at before
  exact Bool.noConfusion before

theorem not_negative {maxTablesPerDb : Int32} (positive : 1 ≤ maxTablesPerDb) :
    ¬maxTablesPerDb < 0 := by
  rw [Int32.lt_iff_toInt_lt]
  rw [Int32.le_iff_toInt_le] at positive
  exact not_lt.mpr (le_trans (by decide) positive)

/-- A limit that keeps what `keep` keeps: without one there is room for every date. -/
def room (maxTablesPerDb : Int32) : Nat :=
  if maxTablesPerDb < 0 then 2 ^ 31 else maxTablesPerDb.toInt.toNat

theorem room_of_positive {maxTablesPerDb : Int32} (positive : 1 ≤ maxTablesPerDb) :
    room maxTablesPerDb = maxTablesPerDb.toInt.toNat := if_neg (not_negative positive)

theorem keep_eq_largest {known : Finset Bytes} (dated : ∀ date ∈ known, isDated date = true)
    (maxTablesPerDb : Int32) : keep maxTablesPerDb known = largest (room maxTablesPerDb) known := by
  unfold keep room
  split
  next =>
    have few := length_dated_lt known.nodup_toList
      fun date member => dated date (Finset.mem_toList.mp member)
    rw [Finset.length_toList] at few
    exact (largest_of_card_le few.le).symm
  next => rfl

/-- What is kept of the tables and the new day is what is newest of all days seen. -/
theorem kept_of_retains {maxTablesPerDb : Int32} {history : List ModbusMasterMsg} {db : Database}
    (retains : Retains (room maxTablesPerDb) history db) {date : Bytes}
    (dated : isDated date = true) :
    kept maxTablesPerDb db date =
      largest (room maxTablesPerDb) (insert date (daysOf history)) := by
  have known : ∀ other ∈ insert date (dates db), isDated other = true := by
    intro other member
    rcases Finset.mem_insert.mp member with rfl | old
    · exact dated
    · exact (mem_dates.mp old).2
  rw [kept, keep_eq_largest known, retains.dates_eq]
  split
  next old => rw [Finset.insert_eq_of_mem (largest_subset _ _ old)]
  next => exact largest_insert _ _ _

theorem retains_write {engine : Engine} (documented : Documented engine) {maxTablesPerDb : Int32}
    {history : List ModbusMasterMsg} {db : Database}
    (retains : Retains (room maxTablesPerDb) history db)
    {msg : ModbusMasterMsg} (dated : isDated (day msg) = true) :
    Retains (room maxTablesPerDb) (history ++ [msg]) (writeTo engine maxTablesPerDb db msg).1 ∧
      ((writeTo engine maxTablesPerDb db msg).2 = true ↔
        day msg ∈ largest (room maxTablesPerDb) (daysOf (history ++ [msg])) ∨
          msg.registerMap = []) := by
  have date := date_of_dated dated
  have written := writeTo_dated documented maxTablesPerDb db msg (date.symm ▸ dated)
  rw [date, kept_of_retains retains dated, ← daysOf_concat] at written
  obtain ⟨left, success⟩ := written
  refine ⟨⟨?_, names_of_leaves left retains.named, ?_⟩, success⟩
  · intro other valid
    rw [left.rows other valid, kept_of_retains retains dated, ← daysOf_concat, boundOn_concat]
    by_cases newest : other ∈ largest (room maxTablesPerDb) (daysOf (history ++ [msg]))
    · rw [if_pos newest, if_pos newest, retains.rows other valid]
      -- a newest day seen before was newest then too, so none of its rows is gone
      have before : other ∈ daysOf history →
          other ∈ largest (room maxTablesPerDb) (daysOf history) := by
        refine mem_largest_of_subset ?_ newest
        rw [daysOf_concat]
        exact Finset.subset_insert _ _
      by_cases same : other = day msg
      · rw [if_pos same, if_pos same]
        split
        next => rfl
        next lost => rw [boundOn_of_unseen (fun known => lost (before known)), Option.getD_none]
      · have known : other ∈ daysOf history := by
          have member := largest_subset _ _ newest
          rw [daysOf_concat] at member
          exact Finset.mem_of_mem_insert_of_ne member same
        rw [if_neg same, if_neg same, if_pos (before known)]
    · rw [if_neg newest, if_neg newest]
  · intro other member
    rw [daysOf_concat] at member
    rcases Finset.mem_insert.mp member with rfl | old
    · exact dated
    · exact retains.seen other old

/-! Whole runs, from empty databases. -/

/-- The manager after a list of calls, and what each returned. -/
def writeAll (engine : Engine) (maxChannels maxTablesPerDb : Int32)
    (messages : List ModbusMasterMsg) : DataBaseManager × List Bool :=
  Machine.run (writeMessage engine) (new maxChannels maxTablesPerDb) messages

theorem writeAll_concat (engine : Engine) (maxChannels maxTablesPerDb : Int32)
    (messages : List ModbusMasterMsg) (msg : ModbusMasterMsg) :
    writeAll engine maxChannels maxTablesPerDb (messages ++ [msg]) =
      ((writeMessage engine (writeAll engine maxChannels maxTablesPerDb messages).1 msg).1,
        (writeAll engine maxChannels maxTablesPerDb messages).2 ++
          [(writeMessage engine (writeAll engine maxChannels maxTablesPerDb messages).1 msg).2]) :=
  Machine.run_concat _ _ _ _

theorem writeAll_settings (engine : Engine) (maxChannels maxTablesPerDb : Int32)
    (messages : List ModbusMasterMsg) :
    (writeAll engine maxChannels maxTablesPerDb messages).1.maxChannels = maxChannels ∧
      (writeAll engine maxChannels maxTablesPerDb messages).1.maxTablesPerDb = maxTablesPerDb := by
  induction messages using List.reverseRecOn with
  | nil => exact ⟨rfl, rfl⟩
  | append_singleton before msg ih =>
    rw [writeAll_concat]
    by_cases inside :
      InRange (writeAll engine maxChannels maxTablesPerDb before).1.maxChannels msg.channel
    · rw [writeMessage_inRange engine inside]
      exact ih
    · rw [writeMessage_outside engine inside]
      exact ih

theorem onChannel_concat (channel : Int32) (history : List ModbusMasterMsg) (msg : ModbusMasterMsg) :
    onChannel channel (history ++ [msg]) =
      if channel = msg.channel then onChannel channel history ++ [msg]
      else onChannel channel history := by
  by_cases same : channel = msg.channel
  · simp [onChannel, same]
  · simp [onChannel, same, Ne.symm same]

/-- The induction rule for one channel: what each of its writes keeps holds of its database. -/
theorem writeAll_channel {engine : Engine} {maxChannels maxTablesPerDb : Int32}
    (Holds : List ModbusMasterMsg → Database → Prop) {Allowed : ModbusMasterMsg → Prop}
    (start : Holds [] .empty)
    (skip : ∀ history db msg, Allowed msg → ¬InRange maxChannels msg.channel → Holds history db →
      Holds (history ++ [msg]) db)
    (keep : ∀ history db msg, Allowed msg → InRange maxChannels msg.channel → Holds history db →
      Holds (history ++ [msg]) (writeTo engine maxTablesPerDb db msg).1)
    {messages : List ModbusMasterMsg} (allowed : ∀ msg ∈ messages, Allowed msg) (channel : Int32) :
    Holds (onChannel channel messages)
      ((writeAll engine maxChannels maxTablesPerDb messages).1.channelDb channel) := by
  induction messages using List.reverseRecOn with
  | nil => exact start
  | append_singleton before msg ih =>
    have earlier := ih fun other member => allowed other (List.mem_append_left _ member)
    have last := allowed msg (List.mem_append_right _ List.mem_cons_self)
    have settings := writeAll_settings engine maxChannels maxTablesPerDb before
    rw [writeAll_concat, onChannel_concat]
    by_cases inside : InRange maxChannels msg.channel
    · rw [writeMessage_inRange engine (settings.1.symm ▸ inside), settings.2]
      by_cases same : channel = msg.channel
      · subst same
        simp only [store, Function.update_self, if_true]
        exact keep _ _ _ last inside earlier
      · simp only [store, Function.update_of_ne same, if_neg same]
        exact earlier
    · rw [writeMessage_outside engine (settings.1.symm ▸ inside)]
      by_cases same : channel = msg.channel
      · rw [if_pos same]
        exact skip _ _ _ last inside earlier
      · rw [if_neg same]
        exact earlier

/-- A message of the kind a reading device sends. -/
structure Admitted (maxChannels : Int32) (msg : ModbusMasterMsg) : Prop where
  channel : InRange maxChannels msg.channel
  dated : isDated (day msg) = true
  pduData : NulFree msg.pduData
  timestamp : NulFree msg.timestamp
  descriptions : ∀ reg ∈ msg.registerMap, NulFree reg.description

instance (maxChannels : Int32) (msg : ModbusMasterMsg) : Decidable (Admitted maxChannels msg) :=
  decidable_of_iff (InRange maxChannels msg.channel ∧ isDated (day msg) = true ∧ NulFree msg.pduData ∧
      NulFree msg.timestamp ∧ ∀ reg ∈ msg.registerMap, NulFree reg.description)
    ⟨fun ⟨channel, dated, pduData, timestamp, descriptions⟩ =>
      ⟨channel, dated, pduData, timestamp, descriptions⟩,
      fun valid => ⟨valid.channel, valid.dated, valid.pduData, valid.timestamp, valid.descriptions⟩⟩

theorem retains_run {engine : Engine} (documented : Documented engine)
    {maxChannels maxTablesPerDb : Int32} {messages : List ModbusMasterMsg} (admitted : ∀ msg ∈ messages, Admitted maxChannels msg)
    (channel : Int32) :
    Retains (room maxTablesPerDb) (onChannel channel messages)
      ((writeAll engine maxChannels maxTablesPerDb messages).1.channelDb channel) := by
  refine writeAll_channel (Retains (room maxTablesPerDb)) (retains_empty _) ?_ ?_ admitted channel
  · intro history db msg valid outside
    exact absurd valid.channel outside
  · intro history db msg valid _ retains
    exact (retains_write documented retains valid.dated).1

/-- The row of one register, with the message's own strings. -/
def storedRow (msg : ModbusMasterMsg) (reg : RegisterItem) : Row where
  id := msg.id
  pduAddr := msg.pduAddr
  pduFunc := msg.pduFunc
  pduData := msg.pduData
  timestamp := msg.timestamp
  address := reg.address
  mapAddr := reg.mapAddr
  value := reg.value
  description := reg.description

def rowsOn (date : Bytes) (history : List ModbusMasterMsg) : List Row :=
  (history.filter fun msg => day msg = date).flatMap fun msg => msg.registerMap.map (storedRow msg)

theorem rowsOf_admitted {maxChannels : Int32} {msg : ModbusMasterMsg}
    (admitted : Admitted maxChannels msg) : rowsOf msg = msg.registerMap.map (storedRow msg) := by
  apply List.map_congr_left
  intro reg member
  rw [bindRow, cStr_eq_self.mpr admitted.pduData, cStr_eq_self.mpr admitted.timestamp,
    cStr_eq_self.mpr (admitted.descriptions reg member), storedRow]

theorem boundOn_admitted {maxChannels : Int32} {history : List ModbusMasterMsg}
    (admitted : ∀ msg ∈ history, Admitted maxChannels msg) (date : Bytes) :
    boundOn date history = rowsOn date history := by
  apply List.flatMap_congr
  intro msg member
  exact rowsOf_admitted (admitted msg (List.mem_of_mem_filter member))

/-- The newest days among those written to a channel. -/
def newest (maxTablesPerDb channel : Int32) (messages : List ModbusMasterMsg) : Finset Bytes :=
  largest maxTablesPerDb.toInt.toNat (daysOf (onChannel channel messages))

/-- Every channel holds exactly its newest days, with all their rows, and a call
succeeds exactly when its day is among them or there was nothing to write. -/
theorem newest_days_retained (engine : Engine) (documented : Documented engine)
    (maxChannels maxTablesPerDb : Int32) (positive : 1 ≤ maxTablesPerDb)
    (messages : List ModbusMasterMsg) (admitted : ∀ msg ∈ messages, Admitted maxChannels msg) :
    (∀ channel,
      ((writeAll engine maxChannels maxTablesPerDb messages).1.channelDb channel).names.toFinset =
          newest maxTablesPerDb channel messages ∧
        ∀ date ∈ newest maxTablesPerDb channel messages,
          ((writeAll engine maxChannels maxTablesPerDb messages).1.channelDb channel).rows? date =
            some (rowsOn date (onChannel channel messages))) ∧
      ∀ before msg, messages = before ++ [msg] →
        ((writeAll engine maxChannels maxTablesPerDb messages).2.getLast? = some true ↔
          day msg ∈ newest maxTablesPerDb msg.channel messages ∨ msg.registerMap = []) := by
  have limit := room_of_positive positive
  constructor
  · intro channel
    have retains : Retains (room maxTablesPerDb) (onChannel channel messages)
        ((writeAll engine maxChannels maxTablesPerDb messages).1.channelDb channel) :=
      retains_run documented admitted channel
    rw [limit] at retains
    have onlyDates : ((writeAll engine maxChannels maxTablesPerDb messages).1.channelDb
        channel).names.filter isDated = _ := List.filter_eq_self.mpr retains.named
    refine ⟨?_, fun date member => ?_⟩
    · rw [← onlyDates]
      exact retains.dates_eq
    · have valid := retains.seen date (largest_subset _ _ member)
      have own : ∀ msg ∈ onChannel channel messages, Admitted maxChannels msg :=
        fun msg known => admitted msg (List.mem_of_mem_filter known)
      rw [retains.rows date valid, ← boundOn_admitted own]
      exact if_pos member
  · rintro before msg rfl
    have valid := admitted msg (List.mem_append_right _ List.mem_cons_self)
    have settings := writeAll_settings engine maxChannels maxTablesPerDb before
    have retains : Retains (room maxTablesPerDb) (onChannel msg.channel before)
        ((writeAll engine maxChannels maxTablesPerDb before).1.channelDb msg.channel) :=
      retains_run documented (fun other member => admitted other (List.mem_append_left _ member)) _
    rw [writeAll_concat, writeMessage_inRange engine (settings.1.symm ▸ valid.channel), settings.2,
      newest, onChannel_concat, if_pos rfl, List.getLast?_concat, Option.some.injEq]
    have written := (retains_write documented retains valid.dated).2
    rwa [limit] at written

def sampleAt (timestamp : String) : ModbusMasterMsg :=
  { Report.sampleMsg with timestamp := bytes timestamp }

/-- A day that is older than the newest one kept comes too late. -/
theorem newest_days_retained_late :
    ((writeAll reference 2 1 [sampleAt "20260326080000", sampleAt "20260325180500"]).1.channelDb
        1).names.toFinset = {bytes "20260326"} ∧
      (writeAll reference 2 1 [sampleAt "20260326080000", sampleAt "20260325180500"]).2.getLast? ≠
        some true := by
  obtain ⟨stored, last⟩ := newest_days_retained reference reference_documented 2 1 (by decide)
    [sampleAt "20260326080000", sampleAt "20260325180500"] (by decide +kernel)
  constructor
  · rw [(stored 1).1]
    decide +kernel
  · rw [ne_eq, last [_] _ rfl]
    decide +kernel

/-! Whether the table that was asked for is there afterwards. -/

/-- The dates with a table that are later. -/
def later (db : Database) (date : Bytes) : Finset Bytes := above (dates db) date

theorem mem_kept_iff {maxTablesPerDb : Int32} (positive : 1 ≤ maxTablesPerDb) {db : Database}
    {date : Bytes} (dated : isDated date = true) : date ∈ kept maxTablesPerDb db date ↔
      date ∈ db.names ∨ (later db date).card < maxTablesPerDb.toInt.toNat := by
  have known : date ∈ dates db ↔ date ∈ db.names := mem_dates.trans (and_iff_left dated)
  rw [kept, keep, if_neg (not_negative positive), ← known]
  split
  next present => exact iff_of_true present (.inl present)
  next absent =>
    rw [or_iff_right absent, later]
    exact mem_largest_insert

/-- The table is there, and takes the rows of any message. -/
def Ready (engine : Engine) (db : Database) (date : Bytes) : Prop :=
  date ∈ db.names ∧ ∀ msg, (insertRows engine db date msg).2 = true

/-- A table is created and dropped in one call when enough later ones are there. -/
theorem ensured_ready_iff (engine : Engine) (documented : Documented engine)
    (maxTablesPerDb : Int32) (positive : 1 ≤ maxTablesPerDb) (db : Database) (date : Bytes)
    (dated : isDated date = true) :
    ((ensureTableExists engine maxTablesPerDb db date).2 = true →
        Ready engine (ensureTableExists engine maxTablesPerDb db date).1 date) ↔
      date ∈ db.names ∨ (later db date).card < maxTablesPerDb.toInt.toNat := by
  obtain ⟨next, ensured, left⟩ := ensureTableExists_dated documented maxTablesPerDb db dated
  have digits := digits_of_isDated dated
  have there : date ∈ next.names ↔ date ∈ kept maxTablesPerDb db date := by
    rw [← left.dates_eq dated, mem_dates]
    exact (and_iff_left dated).symm
  rw [ensured, ← mem_kept_iff positive dated, ← there]
  constructor
  · exact fun ready => (ready rfl).1
  · intro present _
    refine ⟨present, fun msg => ?_⟩
    obtain ⟨after, inserted, -, -⟩ := insertRows_present documented (quote_not_mem_of_digits digits)
      (nulFree_of_digits digits) (Database.rows?_of_mem_names present) msg
    rw [inserted]

def oneTable : Database where
  tables := [⟨bytes "20260326", []⟩]
  distinct := by decide
  permitted := by decide

theorem ensured_ready_newest :
    Ready reference (ensureTableExists reference 1 oneTable (bytes "20260327")).1
      (bytes "20260327") :=
  (ensured_ready_iff reference reference_documented 1 (by decide) oneTable (bytes "20260327")
    (by decide)).mpr (.inr (by decide +kernel)) (by decide +kernel)

theorem ensured_not_ready : ¬∀ engine, Documented engine → ∀ maxTablesPerDb, 1 ≤ maxTablesPerDb →
    ∀ db date, isDated date = true → (ensureTableExists engine maxTablesPerDb db date).2 = true →
      Ready engine (ensureTableExists engine maxTablesPerDb db date).1 date := by
  intro claim
  have ready := claim reference reference_documented 1 (by decide) oneTable (bytes "20260325")
    (by decide) (by decide +kernel)
  exact absurd ready.1 (by decide +kernel)

/-! How many tables a channel can have. -/

/-- A name that no table is created for: it is cut off inside its quotes, or reserved. -/
def Refused (date : Bytes) : Prop := quote ∉ date ∧ (NulFree date → reserved date = true)

/-- A message whose table, if it gets one, counts towards the limit. -/
def Counted (maxChannels : Int32) (msg : ModbusMasterMsg) : Prop :=
  ¬InRange maxChannels msg.channel ∨ msg.timestamp.length < 8 ∨ isDated (day msg) = true ∨
    Refused (day msg)

structure Bounded (limit : Nat) (db : Database) : Prop where
  named : ∀ name ∈ db.names, isDated name = true
  few : (dates db).card ≤ limit

theorem Bounded.length_le {limit : Nat} {db : Database} (bounded : Bounded limit db) :
    db.names.length ≤ limit := by
  have few := bounded.few
  rw [dates, List.filter_eq_self.mpr bounded.named,
    List.toFinset_card_of_nodup db.names_nodup] at few
  exact few

theorem writeTo_short {engine : Engine} {maxTablesPerDb : Int32} {db : Database}
    {msg : ModbusMasterMsg} (short : msg.timestamp.length < 8) :
    writeTo engine maxTablesPerDb db msg = (db, false) := by
  have undated : getDateFromTimestamp msg.timestamp = [] := if_neg (not_le.mpr short)
  simp only [writeTo, undated, if_true]

theorem writeTo_refused {engine : Engine} (documented : Documented engine) {maxTablesPerDb : Int32}
    {db : Database} {msg : ModbusMasterMsg} (long : ¬msg.timestamp.length < 8)
    (refused : Refused (day msg)) : (writeTo engine maxTablesPerDb db msg).1 = db := by
  have date : getDateFromTimestamp msg.timestamp = day msg := if_pos (not_lt.mp long)
  have nonempty : day msg ≠ [] := by
    rw [day, ne_eq, List.take_eq_nil_iff, not_or]
    refine ⟨by decide, fun empty => long ?_⟩
    rw [empty]
    decide
  obtain ⟨unquoted, reserves⟩ := refused
  rw [← date] at nonempty unquoted reserves
  by_cases free : NulFree (getDateFromTimestamp msg.timestamp)
  · rw [writeTo_ensured nonempty
      (ensureTableExists_reserved documented _ _ unquoted free (reserves free)),
      if_neg Bool.false_ne_true]
  · rw [writeTo_nul documented _ _ _ unquoted free]

theorem bounded_write {engine : Engine} (documented : Documented engine) {maxTablesPerDb : Int32}
    {db : Database} (positive : 1 ≤ maxTablesPerDb)
    (bounded : Bounded maxTablesPerDb.toInt.toNat db) {msg : ModbusMasterMsg}
    (dated : isDated (day msg) = true) :
    Bounded maxTablesPerDb.toInt.toNat (writeTo engine maxTablesPerDb db msg).1 := by
  have date := date_of_dated dated
  obtain ⟨left, -⟩ := writeTo_dated documented maxTablesPerDb db msg (date.symm ▸ dated)
  rw [date] at left
  refine ⟨names_of_leaves left bounded.named, ?_⟩
  rw [left.dates_eq dated, kept, keep, if_neg (not_negative positive)]
  split
  next => exact bounded.few
  next =>
    rw [card_largest]
    exact min_le_left _ _

/-- The limit holds through every run whose tables are all named by dates. -/
theorem tables_bounded (engine : Engine) (documented : Documented engine)
    (maxChannels maxTablesPerDb : Int32) (positive : 1 ≤ maxTablesPerDb)
    (messages : List ModbusMasterMsg) (counted : ∀ msg ∈ messages, Counted maxChannels msg)
    (channel : Int32) :
    ((writeAll engine maxChannels maxTablesPerDb messages).1.channelDb channel).names.length ≤
      maxTablesPerDb.toInt.toNat := by
  apply Bounded.length_le
  refine writeAll_channel (fun _ db => Bounded maxTablesPerDb.toInt.toNat db) ?_ ?_ ?_ counted channel
  · exact ⟨fun _ member => absurd member List.not_mem_nil, Nat.zero_le _⟩
  · intro history db msg _ _ bounded
    exact bounded
  · intro history db msg known inside bounded
    by_cases short : msg.timestamp.length < 8
    · rw [writeTo_short short]
      exact bounded
    · rcases known with outside | tooShort | dated | refused
      · exact absurd inside outside
      · exact absurd tooShort short
      · exact bounded_write documented positive bounded dated
      · rw [writeTo_refused documented short refused]
        exact bounded

theorem tables_bounded_two_days :
    ((writeAll reference 2 1
      [sampleAt "20260325180500", sampleAt "sqlite_1", sampleAt "20260326080000"]).1.channelDb
      1).names.length ≤ 1 :=
  tables_bounded reference reference_documented 2 1 (by decide) _
    (by
      intro msg member
      rcases List.mem_cons.mp member with rfl | rest
      · exact .inr (.inr (.inl (by decide)))
      · rcases List.mem_cons.mp rest with rfl | last
        · exact .inr (.inr (.inr ⟨by decide, fun _ => by decide⟩))
        · rw [List.mem_singleton.mp last]
          exact .inr (.inr (.inl (by decide)))) 1

theorem accepted_sampleAt (timestamp : String) : Report.Accepted (sampleAt timestamp) :=
  ⟨Report.document 7 1 (bytes "0C 00") (bytes timestamp)
    [Report.registerObject "16" 0 220 (bytes "A")], rfl⟩

/-- Reports from before this century get tables that are never counted. -/
theorem tables_not_bounded :
    ¬∀ engine, Documented engine → ∀ maxChannels maxTablesPerDb, 1 ≤ maxTablesPerDb →
      ∀ messages, (∀ msg ∈ messages, Report.Accepted msg) → ∀ channel,
        ((writeAll engine maxChannels maxTablesPerDb messages).1.channelDb channel).names.length ≤
          maxTablesPerDb.toInt.toNat := by
  intro claim
  have bound := claim reference reference_documented 2 1 (by decide)
    (["19700101000000", "19700102000000"].map sampleAt)
    (fun msg member => by
      obtain ⟨timestamp, -, rfl⟩ := List.mem_map.mp member
      exact accepted_sampleAt timestamp) 1
  revert bound
  decide +kernel

end ModbusDatabase.Retention
