import ModbusDatabase.DbManager
import ModbusDatabase.Logging

/-! The files behind the channels. Their paths are printed into a buffer of 256 bytes,
which a long directory fills before the number of the channel is reached. -/

namespace ModbusDatabase.DbFiles
open Message Library Tables Sqlite DbManager
set_option autoImplicit false

/-- `snprintf` keeps what fits the buffer before its final NUL. -/
def getDbPath (dbDir : Bytes) (channel : Int32) : Bytes :=
  (cStr dbDir ++ bytes "/CHANNEL" ++ Logging.padded 2 channel.toInt ++ bytes ".db").take 255

/-- The manager with a file for each path. A handle that is kept is that of its path. -/
structure FileManager where
  maxChannels : Int32
  maxTablesPerDb : Int32
  dbDir : Bytes
  files : Bytes → Database

def getDbHandle (manager : FileManager) (channel : Int32) : Option Bytes :=
  if channel < 1 ∨ manager.maxChannels < channel then none else some (getDbPath manager.dbDir channel)

def store (manager : FileManager) (path : Bytes) (db : Database) : FileManager :=
  { manager with files := Function.update manager.files path db }

def writeMessage (engine : Engine) (manager : FileManager) (msg : ModbusMasterMsg) : FileManager × Bool :=
  match getDbHandle manager msg.channel with
  | none => (manager, false)
  | some path =>
    let written := writeTo engine manager.maxTablesPerDb (manager.files path) msg
    (store manager path written.1, written.2)

/-- The directory, the number of the channel in two digits at least, and the ending. -/
def fullDbPath (dbDir : Bytes) (channel : Int32) : Bytes :=
  dbDir ++ bytes "/CHANNEL" ++ Logging.padded 2 channel.toInt ++ bytes ".db"

/-- Both channels have the paths they should have, and a file of their own. -/
structure OwnFiles (dbDir : Bytes) (first second : Int32) : Prop where
  differ : getDbPath dbDir first ≠ getDbPath dbDir second
  firstPath : getDbPath dbDir first = fullDbPath dbDir first
  secondPath : getDbPath dbDir second = fullDbPath dbDir second
  apart : ∀ (engine : Engine) (manager : FileManager) (msg : ModbusMasterMsg), manager.dbDir = dbDir →
    msg.channel = first → (writeMessage engine manager msg).1.files (getDbPath dbDir second) =
      manager.files (getDbPath dbDir second)

/-- The path of the channel fits the buffer, and is not cut off before. -/
def Fits (dbDir : Bytes) (channel : Int32) : Prop :=
  NulFree dbDir ∧ dbDir.length + 11 + max 2 (Decimal.render channel.toInt.toNat).length ≤ 255

instance (dbDir : Bytes) (channel : Int32) : Decidable (Fits dbDir channel) :=
  inferInstanceAs (Decidable (_ ∧ _))

variable {dbDir : Bytes} {channel first second maxChannels : Int32}

theorem toInt_of_positive (positive : 1 ≤ channel) : ((channel.toInt.toNat : Nat) : Int) = channel.toInt := by
  have low := Int32.le_iff_toInt_le.mp positive
  exact Int.toNat_of_nonneg (le_trans (by decide) low)

theorem length_fullDbPath (dbDir : Bytes) (positive : 1 ≤ channel) :
    (fullDbPath dbDir channel).length =
      dbDir.length + 11 + max 2 (Decimal.render channel.toInt.toNat).length := by
  rw [fullDbPath, ← toInt_of_positive positive, List.length_append, List.length_append,
    List.length_append, Logging.length_padded, Int.toNat_natCast]
  change _ + 8 + _ + 3 = _
  omega

/-- The path is whole exactly when it fits. -/
theorem getDbPath_eq_iff (positive : 1 ≤ channel) :
    getDbPath dbDir channel = fullDbPath dbDir channel ↔ Fits dbDir channel := by
  have length := length_fullDbPath dbDir positive
  constructor
  · intro same
    have lengths := congrArg List.length same
    have shorter := (List.takeWhile_prefix (· ≠ (0 : Byte)) (l := dbDir)).length_le
    rw [getDbPath, List.length_take] at lengths
    have cut : (cStr dbDir ++ bytes "/CHANNEL" ++ Logging.padded 2 channel.toInt ++ bytes ".db").length +
        dbDir.length = (fullDbPath dbDir channel).length + (cStr dbDir).length := by
      simp only [fullDbPath, List.length_append]
      omega
    have whole : (cStr dbDir).length = dbDir.length := by
      change (cStr dbDir).length ≤ dbDir.length at shorter
      omega
    refine ⟨cStr_eq_self.mp ((List.takeWhile_prefix _).eq_of_length whole), ?_⟩
    omega
  · rintro ⟨free, fits⟩
    rw [getDbPath, cStr_eq_self.mpr free]
    exact List.take_of_length_le (length ▸ fits)

/-- The numbers tell whole paths apart, also where their widths differ. -/
theorem fullDbPath_injective (firstIn : 1 ≤ first) (secondIn : 1 ≤ second)
    (same : fullDbPath dbDir first = fullDbPath dbDir second) : first = second := by
  have numbers := List.append_cancel_left (List.append_cancel_right same)
  rw [← toInt_of_positive firstIn, ← toInt_of_positive secondIn] at numbers
  have values := Logging.padded_injective 2 numbers
  apply Int32.toInt_inj.mp
  rw [← toInt_of_positive firstIn, values, toInt_of_positive secondIn]

/-- A message changes the file at its path and no other. -/
theorem writeMessage_files (engine : Engine) (manager : FileManager) (msg : ModbusMasterMsg)
    {path : Bytes} (other : path ≠ getDbPath manager.dbDir msg.channel) :
    (writeMessage engine manager msg).1.files path = manager.files path := by
  rw [writeMessage, getDbHandle]
  split
  next => rfl
  next target found =>
    split at found
    next => cases found
    next =>
      cases found
      exact Function.update_of_ne other _ _

/-- Two channels have files of their own, under the names they should have, exactly when
both names fit the buffer. -/
theorem own_files_iff (dbDir : Bytes) (maxChannels : Int32) {first second : Int32}
    (firstIn : InRange maxChannels first) (secondIn : InRange maxChannels second)
    (distinct : first ≠ second) :
    OwnFiles dbDir first second ↔ Fits dbDir first ∧ Fits dbDir second := by
  constructor
  · intro own
    exact ⟨(getDbPath_eq_iff firstIn.1).mp own.firstPath, (getDbPath_eq_iff secondIn.1).mp own.secondPath⟩
  · rintro ⟨firstFits, secondFits⟩
    have firstPath := (getDbPath_eq_iff firstIn.1).mpr firstFits
    have secondPath := (getDbPath_eq_iff secondIn.1).mpr secondFits
    have differ : getDbPath dbDir first ≠ getDbPath dbDir second := by
      intro same
      rw [firstPath, secondPath] at same
      exact distinct (fullDbPath_injective firstIn.1 secondIn.1 same)
    refine ⟨differ, firstPath, secondPath, ?_⟩
    rintro engine manager msg rfl rfl
    exact writeMessage_files engine manager msg differ.symm

theorem own_files_iff_two : OwnFiles (bytes "./") 9 10 :=
  (own_files_iff (bytes "./") 16 (by decide) (by decide) (by decide)).mpr (by decide +kernel)

/-- In a directory of 250 bytes the two channels share a file. -/
theorem not_own_files : getDbPath (List.replicate 250 100) 1 = getDbPath (List.replicate 250 100) 2 ∧
    ¬OwnFiles (List.replicate 250 100) 1 2 := by
  have same : getDbPath (List.replicate 250 100) 1 = getDbPath (List.replicate 250 100) 2 := by
    decide +kernel
  exact ⟨same, fun own => own.differ same⟩

/-! The files as the databases of the channels. -/

/-- Every path fits, and the file at it holds what the channel does. -/
structure Represents (files : FileManager) (manager : DataBaseManager) : Prop where
  channels : manager.maxChannels = files.maxChannels
  tables : manager.maxTablesPerDb = files.maxTablesPerDb
  fits : ∀ channel, InRange files.maxChannels channel → Fits files.dbDir channel
  contents : ∀ channel, InRange files.maxChannels channel →
    files.files (getDbPath files.dbDir channel) = manager.channelDb channel

theorem Represents.path_injective {files : FileManager} {manager : DataBaseManager}
    (represents : Represents files manager) (firstIn : InRange files.maxChannels first)
    (secondIn : InRange files.maxChannels second)
    (same : getDbPath files.dbDir first = getDbPath files.dbDir second) : first = second := by
  rw [(getDbPath_eq_iff firstIn.1).mpr (represents.fits _ firstIn),
    (getDbPath_eq_iff secondIn.1).mpr (represents.fits _ secondIn)] at same
  exact fullDbPath_injective firstIn.1 secondIn.1 same

theorem writeMessage_represents (engine : Engine) {files : FileManager} {manager : DataBaseManager}
    (msg : ModbusMasterMsg) (represents : Represents files manager) :
    Represents (writeMessage engine files msg).1 (DbManager.writeMessage engine manager msg).1 ∧
      (writeMessage engine files msg).2 = (DbManager.writeMessage engine manager msg).2 := by
  have guard : ¬(msg.channel < 1 ∨ files.maxChannels < msg.channel) ↔
      InRange files.maxChannels msg.channel := by
    rw [not_or, Int32.not_lt, Int32.not_lt, InRange]
  by_cases inside : InRange files.maxChannels msg.channel
  · have within : InRange manager.maxChannels msg.channel := represents.channels ▸ inside
    rw [writeMessage_inRange engine within, writeMessage, getDbHandle, if_neg (guard.mpr inside)]
    simp only [represents.tables, ← represents.contents _ inside]
    refine ⟨⟨represents.channels, represents.tables, represents.fits, fun channel channelIn => ?_⟩, trivial⟩
    by_cases same : channel = msg.channel
    · rw [same]
      simp [store, DbManager.store]
    · have other : getDbPath files.dbDir channel ≠ getDbPath files.dbDir msg.channel := fun equal =>
        same (represents.path_injective channelIn inside equal)
      simp [store, DbManager.store, Function.update_of_ne other, Function.update_of_ne same,
        represents.contents channel channelIn]
  · have outside : ¬InRange manager.maxChannels msg.channel := represents.channels ▸ inside
    rw [writeMessage_outside engine outside, writeMessage, getDbHandle, if_pos (not_not.mp (mt guard.mp inside))]
    exact ⟨represents, rfl⟩

/-! The other calls. -/

def dropTable (engine : Engine) (manager : FileManager) (channel : Int32) (tableName : Bytes) :
    FileManager × Bool :=
  match getDbHandle manager channel with
  | none => (manager, false)
  | some path =>
    let dropped := engine.exec (manager.files path) (cStr (dropForm.text tableName))
    (store manager path dropped.1, dropped.2)

def selectByIdAndChannel (engine : Engine) (manager : FileManager) (channel id : Int32)
    (outMsg : ModbusMasterMsg) : Bool × ModbusMasterMsg :=
  match getDbHandle manager channel with
  | none => (false, outMsg)
  | some path =>
    let tables := getAllTableNames engine (manager.files path)
    if tables = [] then (false, outMsg)
    else searchTables engine (manager.files path) channel id tables (false, default)

theorem getDbHandle_eq (files : FileManager) (channel : Int32) : getDbHandle files channel =
    if InRange files.maxChannels channel then some (getDbPath files.dbDir channel) else none := by
  have guard :
      ¬(channel < 1 ∨ files.maxChannels < channel) ↔ InRange files.maxChannels channel := by
    rw [not_or, Int32.not_lt, Int32.not_lt, InRange]
  rw [getDbHandle, ← ite_not]
  simp only [guard]

theorem store_represents {files : FileManager} {manager : DataBaseManager}
    (represents : Represents files manager) (inside : InRange files.maxChannels channel) (db : Database) :
    Represents (store files (getDbPath files.dbDir channel) db) (DbManager.store manager channel db) := by
  refine ⟨represents.channels, represents.tables, represents.fits, fun other otherIn => ?_⟩
  by_cases same : other = channel
  · rw [same]
    simp [store, DbManager.store]
  · have apart : getDbPath files.dbDir other ≠ getDbPath files.dbDir channel := fun equal =>
      same (represents.path_injective otherIn inside equal)
    simp [store, DbManager.store, Function.update_of_ne apart, Function.update_of_ne same,
      represents.contents other otherIn]

theorem dropTable_represents (engine : Engine) {files : FileManager} {manager : DataBaseManager}
    (represents : Represents files manager) (channel : Int32) (tableName : Bytes) :
    Represents (dropTable engine files channel tableName).1
        (DbManager.dropTable engine manager channel tableName).1 ∧
      (dropTable engine files channel tableName).2 =
        (DbManager.dropTable engine manager channel tableName).2 := by
  rw [dropTable, DbManager.dropTable, getDbHandle_eq, DbManager.getDbHandle_eq, represents.channels]
  by_cases inside : InRange files.maxChannels channel
  · rw [if_pos inside, if_pos inside]
    dsimp only
    rw [represents.contents channel inside]
    exact ⟨store_represents represents inside _, rfl⟩
  · rw [if_neg inside, if_neg inside]
    exact ⟨represents, rfl⟩

theorem selectByIdAndChannel_represents (engine : Engine) {files : FileManager}
    {manager : DataBaseManager} (represents : Represents files manager) (channel id : Int32)
    (outMsg : ModbusMasterMsg) : selectByIdAndChannel engine files channel id outMsg =
      DbManager.selectByIdAndChannel engine manager channel id outMsg := by
  rw [selectByIdAndChannel, DbManager.selectByIdAndChannel, getDbHandle_eq, DbManager.getDbHandle_eq,
    represents.channels]
  by_cases inside : InRange files.maxChannels channel
  · rw [if_pos inside, if_pos inside]
    dsimp only
    rw [represents.contents channel inside]
  · rw [if_neg inside, if_neg inside]

/-- What the manager's channels hold. -/
def channelsOf (files : FileManager) : DataBaseManager where
  maxChannels := files.maxChannels
  maxTablesPerDb := files.maxTablesPerDb
  channelDb channel :=
    if InRange files.maxChannels channel then files.files (getDbPath files.dbDir channel) else .empty

/-- The paths of all channels fit. -/
def AllFit (files : FileManager) : Prop :=
  ∀ channel, InRange files.maxChannels channel → Fits files.dbDir channel

/-- No `int` has more than ten digits. -/
theorem allFit_of_short {files : FileManager} (free : NulFree files.dbDir)
    (short : files.dbDir.length ≤ 234) : AllFit files := by
  intro channel inside
  have bound := channel.toInt_lt
  have low := toInt_of_positive inside.1
  have digits : (Decimal.render channel.toInt.toNat).length ≤ 10 := by
    rw [Decimal.length_render_le_iff (by decide)]
    omega
  exact ⟨free, by omega⟩

theorem represents_channelsOf {files : FileManager} (fits : AllFit files) :
    Represents files (channelsOf files) where
  channels := rfl
  tables := rfl
  fits := fits
  contents _ inside := (if_pos inside).symm

theorem Represents.eq_channelsOf {files : FileManager} {manager : DataBaseManager}
    (represents : Represents files manager)
    (blank : ∀ channel, ¬InRange files.maxChannels channel → manager.channelDb channel = .empty) :
    manager = channelsOf files := by
  have same : manager.channelDb = (channelsOf files).channelDb := by
    funext channel
    by_cases inside : InRange files.maxChannels channel
    · exact (represents.contents channel inside).symm.trans (if_pos inside).symm
    · exact (blank channel inside).trans (if_neg inside).symm
  have channels := represents.channels
  have tables := represents.tables
  cases manager
  cases same
  cases channels
  cases tables
  rfl

end ModbusDatabase.DbFiles
