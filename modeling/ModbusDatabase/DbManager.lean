import Mathlib.Logic.Function.Basic
import ModbusDatabase.Report
import ModbusDatabase.Sqlite

/-! `DataBaseManager`: one database file for each channel, one table in it for
each day. Every text reaches SQLite through `c_str()` with length -1, so it ends
at its first NUL. -/

namespace ModbusDatabase.DbManager
open Message Tables Sqlite
set_option autoImplicit false

/-- `channelDb` is what each channel's file holds; opening a file succeeds. -/
structure DataBaseManager where
  maxChannels : Int32
  maxTablesPerDb : Int32
  channelDb : Int32 → Database

def new (maxChannels maxTablesPerDb : Int32) : DataBaseManager where
  maxChannels := maxChannels
  maxTablesPerDb := maxTablesPerDb
  channelDb _ := .empty

def getDbHandle (manager : DataBaseManager) (channel : Int32) : Option Database :=
  if channel < 1 ∨ manager.maxChannels < channel then none else some (manager.channelDb channel)

def store (manager : DataBaseManager) (channel : Int32) (db : Database) : DataBaseManager :=
  { manager with channelDb := Function.update manager.channelDb channel db }

def InRange (maxChannels channel : Int32) : Prop := 1 ≤ channel ∧ channel ≤ maxChannels

instance (maxChannels channel : Int32) : Decidable (InRange maxChannels channel) :=
  inferInstanceAs (Decidable (_ ∧ _))

theorem getDbHandle_eq (manager : DataBaseManager) (channel : Int32) :
    getDbHandle manager channel =
      if InRange manager.maxChannels channel then some (manager.channelDb channel) else none := by
  have guard :
      ¬(channel < 1 ∨ manager.maxChannels < channel) ↔ InRange manager.maxChannels channel := by
    rw [not_or, Int32.not_lt, Int32.not_lt, InRange]
  rw [getDbHandle, ← ite_not]
  simp only [guard]

def getDateFromTimestamp (timestamp : Bytes) : Bytes :=
  if 8 ≤ timestamp.length then timestamp.take 8 else []

/-- The conversion of an `int` to `size_t`. -/
def sizeT (number : Int32) : Nat := (number.toInt % 2 ^ 64).toNat

section
variable (engine : Engine)

def getAllTableNames (db : Database) : List Bytes :=
  ((engine.list db (cStr tableListSql)).getD []).map cStr

def cleanOldTables (maxTablesPerDb : Int32) (db : Database) : Database :=
  let tables := getAllTableNames engine db
  if tables.length ≤ sizeT maxTablesPerDb then db
  else
    -- a difference of `size_t` values, stored in an `int`
    let toDelete := Int32.ofInt (tables.length - maxTablesPerDb.toInt)
    (tables.take toDelete.toInt.toNat).foldl
      (fun db table => (engine.exec db (cStr (dropForm.text table))).1) db

def createTable (db : Database) (date : Bytes) : Database × Bool :=
  engine.exec db (cStr (createForm.text date))

def ensureTableExists (maxTablesPerDb : Int32) (db : Database) (date : Bytes) : Database × Bool :=
  match engine.check db (cStr tableCheckSql) (cStr date) with
  | none => (db, false)
  | some true => (db, true)
  | some false =>
    let created := createTable engine db date
    if created.2 then (cleanOldTables engine maxTablesPerDb created.1, true)
    else (created.1, false)

/-- The values bound to the nine parameters of the INSERT. -/
def bindRow (msg : ModbusMasterMsg) (reg : RegisterItem) : Row where
  id := msg.id
  pduAddr := msg.pduAddr
  pduFunc := msg.pduFunc
  pduData := cStr msg.pduData
  timestamp := cStr msg.timestamp
  address := reg.address
  mapAddr := reg.mapAddr
  value := reg.value
  description := cStr reg.description

def insertRow (db : Database) (table : Bytes) (msg : ModbusMasterMsg) (reg : RegisterItem) :
    Database × Bool :=
  outcome db (engine.insert db (cStr (insertForm.text table)) (bindRow msg reg))

/-- The loop over the registers goes on after a failure, and remembers it. -/
def insertRows (db : Database) (date : Bytes) (msg : ModbusMasterMsg) : Database × Bool :=
  msg.registerMap.foldl (fun written reg =>
    let inserted := insertRow engine written.1 date msg reg
    (inserted.1, written.2 && inserted.2)) (db, true)

/-- `writeMessage` behind the handle of the message's channel. -/
def writeTo (maxTablesPerDb : Int32) (db : Database) (msg : ModbusMasterMsg) : Database × Bool :=
  let date := getDateFromTimestamp msg.timestamp
  if date = [] then (db, false)
  else
    let ensured := ensureTableExists engine maxTablesPerDb db date
    if ensured.2 then insertRows engine ensured.1 date msg else (ensured.1, false)

def writeMessage (manager : DataBaseManager) (msg : ModbusMasterMsg) : DataBaseManager × Bool :=
  match getDbHandle manager msg.channel with
  | none => (manager, false)
  | some db =>
    let written := writeTo engine manager.maxTablesPerDb db msg
    (store manager msg.channel written.1, written.2)

theorem writeMessage_inRange {manager : DataBaseManager} {msg : ModbusMasterMsg}
    (inside : InRange manager.maxChannels msg.channel) :
    writeMessage engine manager msg =
      (store manager msg.channel
        (writeTo engine manager.maxTablesPerDb (manager.channelDb msg.channel) msg).1,
        (writeTo engine manager.maxTablesPerDb (manager.channelDb msg.channel) msg).2) := by
  rw [writeMessage, getDbHandle_eq, if_pos inside]

/-- A message for no channel leaves everything as it is. -/
theorem writeMessage_outside {manager : DataBaseManager} {msg : ModbusMasterMsg}
    (outside : ¬InRange manager.maxChannels msg.channel) :
    writeMessage engine manager msg = (manager, false) := by
  rw [writeMessage, getDbHandle_eq, if_neg outside]

def dropTable (manager : DataBaseManager) (channel : Int32) (tableName : Bytes) :
    DataBaseManager × Bool :=
  match getDbHandle manager channel with
  | none => (manager, false)
  | some db =>
    let dropped := engine.exec db (cStr (dropForm.text tableName))
    (store manager channel dropped.1, dropped.2)

/-- One row of an answer: the first of all fills the common fields. -/
def readRow (channel : Int32) (answer : Bool × ModbusMasterMsg) (row : Row) :
    Bool × ModbusMasterMsg :=
  let filled := if answer.1 then answer.2 else
    { answer.2 with id := row.id, channel := channel, pduAddr := row.pduAddr, pduFunc := row.pduFunc,
                    pduData := cStr row.pduData, timestamp := cStr row.timestamp }
  let reg : RegisterItem := ⟨row.address, row.mapAddr, row.value, cStr row.description⟩
  (true, { filled with registerMap := filled.registerMap ++ [reg] })

/-- The loop over the tables, which a table with an answer ends. -/
def searchTables (db : Database) (channel id : Int32) :
    List Bytes → Bool × ModbusMasterMsg → Bool × ModbusMasterMsg
  | [], answer => answer
  | table :: tables, answer =>
    match engine.select db (cStr (selectForm.text table)) id with
    | none => searchTables db channel id tables answer
    | some rows =>
      let read := rows.foldl (readRow channel) answer
      if read.1 then read else searchTables db channel id tables read

/-- `outMsg` is left alone when there is no handle or no table to look into. -/
def selectByIdAndChannel (manager : DataBaseManager) (channel id : Int32)
    (outMsg : ModbusMasterMsg) : Bool × ModbusMasterMsg :=
  match getDbHandle manager channel with
  | none => (false, outMsg)
  | some db =>
    let tables := getAllTableNames engine db
    if tables = [] then (false, outMsg) else searchTables engine db channel id tables (false, default)

end

example : (writeMessage reference (new 2 10) Report.sampleMsg).2 = true := by decide +kernel

end ModbusDatabase.DbManager
