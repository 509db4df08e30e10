import ModbusDatabase.DbFiles
import ModbusDatabase.Store

/-! The database manager over the files of its directory, which may have been there when it
was started: what runs of its calls return and leave behind. -/

namespace ModbusDatabase.FileStore
open Message Tables Sqlite DbManager DbFiles WritePath Retention Store
open Library Library.Largest
set_option autoImplicit false

def performFiles (engine : Engine) (files : FileManager) : Operation → FileManager × Reply
  | .write msg =>
      let written := DbFiles.writeMessage engine files msg
      (written.1, written.2, none)
  | .drop channel table =>
      let dropped := DbFiles.dropTable engine files channel table
      (dropped.1, dropped.2, none)
  | .select channel id outMsg =>
      let found := DbFiles.selectByIdAndChannel engine files channel id outMsg
      (files, found.1, some found.2)

variable {engine : Engine} {files : FileManager} {manager : DataBaseManager}

theorem performFiles_represents (engine : Engine) (represents : Represents files manager)
    (operation : Operation) :
    Represents (performFiles engine files operation).1 (perform engine manager operation).1 ∧
      (performFiles engine files operation).2 = (perform engine manager operation).2 := by
  cases operation with
  | write msg =>
    obtain ⟨next, reply⟩ := writeMessage_represents engine msg represents
    exact ⟨next, congrArg (·, none) reply⟩
  | drop channel table =>
    obtain ⟨next, reply⟩ := dropTable_represents engine represents channel table
    exact ⟨next, congrArg (·, none) reply⟩
  | select channel id outMsg =>
    have reply := selectByIdAndChannel_represents engine represents channel id outMsg
    refine ⟨represents, ?_⟩
    rw [performFiles, perform, reply]

theorem performFiles_settings (engine : Engine) (files : FileManager) (operation : Operation) :
    (performFiles engine files operation).1.maxChannels = files.maxChannels ∧
      (performFiles engine files operation).1.dbDir = files.dbDir ∧
      (performFiles engine files operation).1.maxTablesPerDb = files.maxTablesPerDb := by
  cases operation with
  | write msg =>
    rw [performFiles, DbFiles.writeMessage]
    cases DbFiles.getDbHandle files msg.channel <;> exact ⟨rfl, rfl, rfl⟩
  | drop channel table =>
    rw [performFiles, DbFiles.dropTable]
    cases DbFiles.getDbHandle files channel <;> exact ⟨rfl, rfl, rfl⟩
  | select channel id outMsg => exact ⟨rfl, rfl, rfl⟩

theorem run_settings (engine : Engine) (files : FileManager) (operations : List Operation) :
    (Machine.run (performFiles engine) files operations).1.maxChannels = files.maxChannels ∧
      (Machine.run (performFiles engine) files operations).1.dbDir = files.dbDir ∧
      (Machine.run (performFiles engine) files operations).1.maxTablesPerDb = files.maxTablesPerDb := by
  induction operations generalizing files with
  | nil => exact ⟨rfl, rfl, rfl⟩
  | cons operation rest ih =>
    obtain ⟨channels, dir, tables⟩ := performFiles_settings engine files operation
    obtain ⟨channelsLater, dirLater, tablesLater⟩ := ih (performFiles engine files operation).1
    exact ⟨channelsLater.trans channels, dirLater.trans dir, tablesLater.trans tables⟩

/-- A run over the files is a run over the channels that are kept in them. -/
theorem run_channelsOf (engine : Engine) (fits : AllFit files) (operations : List Operation) :
    channelsOf (Machine.run (performFiles engine) files operations).1 =
        (Machine.run (perform engine) (channelsOf files) operations).1 ∧
      (Machine.run (performFiles engine) files operations).2 =
        (Machine.run (perform engine) (channelsOf files) operations).2 := by
  let Related (files : FileManager) (manager : DataBaseManager) : Prop :=
    Represents files manager ∧
      ∀ channel, ¬InRange manager.maxChannels channel → manager.channelDb channel = .empty
  have agree : ∀ now manager (operation : Operation), Related now manager →
      Related (performFiles engine now operation).1 (perform engine manager operation).1 ∧
        (performFiles engine now operation).2 = (perform engine manager operation).2 := by
    rintro now manager operation ⟨represents, blank⟩
    obtain ⟨next, reply⟩ := performFiles_represents engine represents operation
    refine ⟨⟨next, fun channel outside => ?_⟩, reply⟩
    rw [(perform_settings engine manager operation).1] at outside
    rw [perform_blank engine manager operation outside]
    exact blank channel outside
  have start : Related files (channelsOf files) :=
    ⟨represents_channelsOf fits, fun channel outside => if_neg outside⟩
  obtain ⟨⟨represents, blank⟩, replies⟩ := Machine.run_simulation agree start operations
  refine ⟨(represents.eq_channelsOf fun channel outside => ?_).symm, replies⟩
  rw [← represents.channels] at outside
  exact blank channel outside

/-- The file of a channel. -/
def fileOf (files : FileManager) (channel : Int32) : Database :=
  files.files (getDbPath files.dbDir channel)

theorem channelDb_channelsOf {channel : Int32} (inside : InRange files.maxChannels channel) :
    (channelsOf files).channelDb channel = fileOf files channel := if_pos inside

/-- The file of a channel after a run is what the run makes of the channel. -/
theorem fileOf_run (engine : Engine) (fits : AllFit files) (operations : List Operation) {channel : Int32}
    (inside : InRange files.maxChannels channel) :
    fileOf (Machine.run (performFiles engine) files operations).1 channel =
      (Machine.run (perform engine) (channelsOf files) operations).1.channelDb channel := by
  have still : InRange (Machine.run (performFiles engine) files operations).1.maxChannels channel := by
    rw [(run_settings engine files operations).1]
    exact inside
  rw [← channelDb_channelsOf still, (run_channelsOf engine fits operations).1]

/-- The days in the files, on the shelf of each channel. -/
def calendar (files : FileManager) : Calendar := calendarOf (channelsOf files)

/-- From any files on, a run of writes, drops and queries that name days returns what the
calendar with the days in the files returns, and leaves the days that it has then. -/
theorem refines_calendar (engine : Engine) (documented : Documented engine) (files : FileManager)
    (fits : AllFit files) (operations : List Operation)
    (dated : ∀ operation ∈ operations, operation.Dated files.maxChannels) :
    calendar (Machine.run (performFiles engine) files operations).1 =
        (Machine.run Calendar.perform (calendar files) operations).1 ∧
      (Machine.run (performFiles engine) files operations).2 =
        (Machine.run Calendar.perform (calendar files) operations).2 := by
  have channels := run_channelsOf engine fits operations
  have days := calendar_after documented (channelsOf files) dated
  rw [calendar, channels.1, channels.2]
  exact days

/-- Files as they are before the first start. -/
def blank (maxChannels maxTablesPerDb : Int32) (dbDir : Bytes) : FileManager where
  maxChannels := maxChannels
  maxTablesPerDb := maxTablesPerDb
  dbDir := dbDir
  files _ := .empty

/-- With room for one day, the older of two days goes, and after the drop none is left. -/
def twoDays : List Operation :=
  [.write (sampleAt "20260325180500"), .write (sampleAt "20260326080000"), .select 1 7 default,
    .drop 1 (bytes "20260326"), .select 1 7 Report.sampleMsg]

theorem allFit_blank (maxChannels maxTablesPerDb : Int32) :
    AllFit (blank maxChannels maxTablesPerDb (bytes "data")) := by
  have free : NulFree (bytes "data") := by decide
  have short : (bytes "data").length ≤ 234 := by decide
  exact allFit_of_short free short

theorem refines_calendar_two_days :
    (Machine.run (performFiles reference) (blank 2 1 (bytes "data")) twoDays).2 =
      [(true, none), (true, none), (true, some (sampleAt "20260326080000")), (true, none),
        (false, some Report.sampleMsg)] := by
  have days := refines_calendar reference reference_documented (blank 2 1 (bytes "data"))
    (allFit_blank 2 1) twoDays (by decide +kernel)
  rw [days.2]
  decide +kernel

/-- The manager's files after messages have been written. -/
def writtenFiles (engine : Engine) (files : FileManager) (messages : List ModbusMasterMsg) : FileManager :=
  (Machine.run (DbFiles.writeMessage engine) files messages).1

theorem writtenFiles_eq (engine : Engine) (files : FileManager) (messages : List ModbusMasterMsg) :
    writtenFiles engine files messages =
      (Machine.run (performFiles engine) files (messages.map .write)).1 := by
  rw [writtenFiles, Machine.run_state, Machine.run_state, List.foldl_map]
  rfl

theorem allFit_writtenFiles (engine : Engine) (fits : AllFit files) (messages : List ModbusMasterMsg) :
    AllFit (writtenFiles engine files messages) := by
  rw [writtenFiles_eq]
  obtain ⟨channels, dir, -⟩ := run_settings engine files (messages.map .write)
  intro channel inside
  rw [dir]
  rw [channels] at inside
  exact fits channel inside

theorem channelsOf_writtenFiles (engine : Engine) (fits : AllFit files) (messages : List ModbusMasterMsg) :
    channelsOf (writtenFiles engine files messages) = written engine (channelsOf files) messages := by
  rw [writtenFiles_eq, written_eq]
  exact (run_channelsOf engine fits _).1

/-- A manager that is started on files that are there, whatever their limit was: a channel
keeps its days until one is new, and from then on the newest ones, within the limit, of the
days that were there and those that were written. All their rows are there. -/
theorem reopened_days (engine : Engine) (documented : Documented engine) (files : FileManager)
    (fits : AllFit files) (messages : List ModbusMasterMsg)
    (valid : ∀ msg ∈ messages, Writable files.maxChannels msg) {channel : Int32}
    (inside : InRange files.maxChannels channel) :
    let before := fileOf files channel
    let after := fileOf (writtenFiles engine files messages) channel
    let days := daysOf (onChannel channel messages)
    dates after = (if days ⊆ dates before then dates before
        else largest (room files.maxTablesPerDb) (dates before ∪ days)) ∧
      (∀ date ∈ dates after, after.rows? date =
        some ((before.rows? date).getD [] ++ boundOn date (onChannel channel messages))) ∧
      (1 ≤ files.maxTablesPerDb → ¬days ⊆ dates before →
        (dates after).card ≤ files.maxTablesPerDb.toInt.toNat) := by
  intro before after days
  have opened : (channelsOf files).channelDb channel = before := channelDb_channelsOf inside
  have left : (written engine (channelsOf files) messages).channelDb channel = after := by
    rw [written_eq, ← fileOf_run engine fits _ inside, ← writtenFiles_eq]
  have kept := days_after documented (channelsOf files) valid channel
  rw [opened, left] at kept
  refine ⟨kept.1, kept.2, fun positive new => ?_⟩
  have limit : Shelf.keptOf (room files.maxTablesPerDb) (dates before) days =
      largest (room files.maxTablesPerDb) (dates before ∪ days) := if_neg new
  calc (dates after).card
      = (largest (room files.maxTablesPerDb) (dates before ∪ days)).card :=
        congrArg Finset.card (kept.1.trans limit)
    _ = min (room files.maxTablesPerDb) (dates before ∪ days).card := card_largest _ _
    _ ≤ room files.maxTablesPerDb := min_le_left _ _
    _ = files.maxTablesPerDb.toInt.toNat := room_of_positive positive

/-- A manager with a limit of one day on files with two. -/
def reopened : FileManager :=
  { writtenFiles reference (blank 2 2 (bytes "data"))
      [sampleAt "20260325180500", sampleAt "20260326080000"] with maxTablesPerDb := 1 }

theorem reopened_days_new :
    (dates (fileOf (writtenFiles reference reopened [sampleAt "20260327080000"]) 1)).card ≤ 1 := by
  have fits : AllFit reopened := allFit_of_short (by decide +kernel) (by decide +kernel)
  have first : InRange reopened.maxChannels 1 := by decide +kernel
  have days := reopened_days reference reference_documented reopened fits [sampleAt "20260327080000"]
    (by decide +kernel) first
  exact days.2.2 (by decide) (by decide +kernel)

/-! Calls on different channels. What is behind a quote in a table name is SQL of its author's,
which may attach and change any file. -/

/-- No name that the call puts between quotes has one in it. -/
def Quoteless : Operation → Prop
  | .write msg => quote ∉ getDateFromTimestamp msg.timestamp
  | .drop _ table => quote ∉ table
  | .select _ _ _ => True

instance : DecidablePred Quoteless
  | .write _ => inferInstanceAs (Decidable (_ ∉ _))
  | .drop _ _ => inferInstanceAs (Decidable (_ ∉ _))
  | .select _ _ _ => inferInstanceAs (Decidable True)

/-- The calls, where any other one does to all files and returns whatever `beyond` says. -/
def performOpen (engine : Engine) (beyond : FileManager → Operation → FileManager × Reply)
    (files : FileManager) (operation : Operation) : FileManager × Reply :=
  if Quoteless operation then performFiles engine files operation else beyond files operation

theorem run_performOpen (engine : Engine) (beyond : FileManager → Operation → FileManager × Reply)
    (files : FileManager) {operations : List Operation}
    (quoteless : ∀ operation ∈ operations, Quoteless operation) :
    Machine.run (performOpen engine beyond) files operations =
      Machine.run (performFiles engine) files operations := by
  have agree : ∀ left right operation, Quoteless operation → left = right →
      (performOpen engine beyond left operation).1 = (performFiles engine right operation).1 ∧
        (performOpen engine beyond left operation).2 = (performFiles engine right operation).2 := by
    rintro left _ operation plain rfl
    rw [performOpen, if_pos plain]
    exact ⟨rfl, rfl⟩
  obtain ⟨same, replies⟩ := Machine.run_simulation_on agree (rfl : files = files) quoteless
  exact Prod.ext same replies

/-- As long as no name has a quote in it, the calls on a channel return the same without all
calls on other channels, and leave the same file behind where the manager has one for it. -/
theorem channels_apart (engine : Engine) (beyond : FileManager → Operation → FileManager × Reply)
    (files : FileManager) (fits : AllFit files) (operations : List Operation)
    (quoteless : ∀ operation ∈ operations, Quoteless operation) (channel : Int32) :
    let own (operation : Operation) : Bool := operation.channel = channel
    (InRange files.maxChannels channel →
        fileOf (Machine.run (performOpen engine beyond) files operations).1 channel =
          fileOf (Machine.run (performOpen engine beyond) files (operations.filter own)).1 channel) ∧
      Machine.repliesTo own operations (Machine.run (performOpen engine beyond) files operations).2 =
        (Machine.run (performOpen engine beyond) files (operations.filter own)).2 := by
  intro own
  obtain ⟨left, replies⟩ := own_after engine (channelsOf files) operations channel
  rw [run_performOpen engine beyond files quoteless,
    run_performOpen engine beyond files fun operation member =>
      quoteless operation (List.mem_of_mem_filter member)]
  refine ⟨fun inside => ?_, ?_⟩
  · rw [fileOf_run engine fits operations inside, fileOf_run engine fits (operations.filter own) inside]
    exact left
  · rw [(run_channelsOf engine fits operations).2, (run_channelsOf engine fits (operations.filter own)).2]
    exact replies

/-- What a quote lets through empties every file. -/
def emptied (files : FileManager) (_ : Operation) : FileManager × Reply :=
  ({ files with files := fun _ => .empty }, true, none)

theorem channels_apart_two :
    fileOf (Machine.run (performOpen reference emptied) (blank 2 1 (bytes "data"))
        [.write (sampleAt "20260325180500"), .drop 2 (bytes "20260325")]).1 1 =
      fileOf (Machine.run (performOpen reference emptied) (blank 2 1 (bytes "data"))
        [.write (sampleAt "20260325180500")]).1 1 := by
  have first : InRange (blank 2 1 (bytes "data")).maxChannels 1 := by decide
  exact (channels_apart reference emptied _ (allFit_blank 2 1)
    [.write (sampleAt "20260325180500"), .drop 2 (bytes "20260325")] (by decide) 1).1 first

end ModbusDatabase.FileStore
