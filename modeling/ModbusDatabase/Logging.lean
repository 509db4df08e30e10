import Mathlib.Logic.Function.Basic
import ModbusDatabase.Library.Decimal
import ModbusDatabase.Library.FileSystem
import ModbusDatabase.Message

/-! `LogManager`: one active log file, rotated into an archive when it is large or
old, and the cleanup of the archives. Texts reach the system through `c_str()`. The
command that packs a file is taken for what it spells out; it is never looked at
as the shell would, word by word. -/

namespace ModbusDatabase.Logging
open Message Library FileSystem
set_option autoImplicit false

inductive LogLevel where
  | debug
  | info
  | warn
  | error
  | fatal

def LogLevel.number : LogLevel → Nat
  | .debug => 0
  | .info => 1
  | .warn => 2
  | .error => 3
  | .fatal => 4

def getLogLevelString : LogLevel → Bytes
  | .debug => bytes "DEBUG"
  | .info => bytes "INFO"
  | .warn => bytes "WARN"
  | .error => bytes "ERROR"
  | .fatal => bytes "FATAL"

/-- Part of a file: a line that a call wrote, with its number, or what was there before. -/
inductive Piece where
  | line (number : Nat) (text : Bytes)
  | foreign (data : Bytes)
  deriving DecidableEq

def Piece.data : Piece → Bytes
  | .line _ text => text
  | .foreign data => data

structure LogFile where
  pieces : List Piece
  packed : Bool

def LogFile.size (file : LogFile) : Nat := (file.pieces.map fun piece => piece.data.length).sum

structure Tm where
  year : Int
  mon : Int
  mday : Int
  hour : Int
  min : Int
  sec : Int

structure LogFileInfo where
  filename : Bytes
  modifyTime : Int

/-- What the program takes from the system: its working directory, the local
time, and the order in which `std::sort` leaves a list. -/
structure Platform where
  cwd : Place
  localtime : Int → Tm
  sort : List LogFileInfo → List LogFileInfo

structure Documented (platform : Platform) : Prop where
  sort_perm : ∀ infos, (platform.sort infos).Perm infos
  sort_sorted : ∀ infos, (platform.sort infos).Pairwise fun first second =>
    first.modifyTime ≤ second.modifyTime

/-- The manager and the files. `written` and `cleaned` are about the run: the lines
that have been written, and what was in the files that the cleanup deleted. -/
structure LogManager where
  volume : Volume LogFile
  modified : Place → Int
  currentLevel : LogLevel := .info
  logDir : Bytes := []
  logBaseName : Bytes := []
  sizeThreshold : UInt64 := 0
  timeInterval : UInt64 := 0
  maxLogFiles : UInt32 := 10
  logFile : Option Place := none
  fileCreateTime : Int := 0
  currentFileSize : Nat := 0
  written : List Bytes := []
  cleaned : List Piece := []

/-- The readings of the system clock during one call, in nanoseconds, in the order
in which they are taken. -/
structure Clock where
  check : Int
  rotate : Int
  packed : Int
  opened : Int
  line : Int

structure Settings where
  level : LogLevel
  logPath : Bytes
  sizeThreshold : UInt64
  timeInterval : UInt64
  maxLogFiles : UInt32

structure Call where
  level : LogLevel
  message : Bytes
  clock : Clock

def seconds (time : Int) : Int := time.tdiv (10 ^ 9)

/-- `setw` with zeros for the fill. -/
def padded (width : Nat) (number : Int) : Bytes :=
  let text := (if number < 0 then [45] else []) ++ Decimal.render number.natAbs
  List.replicate (width - text.length) 48 ++ text

theorem padded_natCast (width number : Nat) : padded width number =
    List.replicate (width - (Decimal.render number).length) 48 ++ Decimal.render number := by
  rw [padded, if_neg (Int.not_lt.mpr (Int.natCast_nonneg number)), List.nil_append, Int.natAbs_natCast]

theorem length_padded (width number : Nat) :
    (padded width number).length = max width (Decimal.render number).length := by
  rw [padded_natCast, List.length_append, List.length_replicate]
  omega

/-- Padded numbers are equal only when the numbers are, whatever their widths. -/
theorem padded_injective (width : Nat) {first second : Nat}
    (same : padded width first = padded width second) : first = second := by
  have values := congrArg Decimal.value same
  rw [padded_natCast, padded_natCast, Decimal.value_zeros, Decimal.value_zeros] at values
  rw [← Decimal.value_render first, values, Decimal.value_render]

theorem isDigit_padded {width number : Nat} {byte : Byte} (member : byte ∈ padded width number) :
    Decimal.IsDigit byte := by
  rw [padded_natCast, List.mem_append] at member
  rcases member with fill | digits
  · rw [List.eq_of_mem_replicate fill]
    decide
  · exact Decimal.isDigit_render digits

/-- The parts of a path before and behind its last slash. -/
def splitLast : Bytes → Option (Bytes × Bytes)
  | [] => none
  | byte :: rest =>
    match splitLast rest with
    | some (front, behind) => some (byte :: front, behind)
    | none => if byte = slash then some ([], rest) else none

theorem splitLast_eq {path front behind : Bytes} (divided : splitLast path = some (front, behind)) :
    path = front ++ slash :: behind := by
  induction path generalizing front with
  | nil => cases divided
  | cons byte rest ih =>
    rw [splitLast] at divided
    split at divided
    next later =>
      cases divided
      rw [List.cons_append, ← ih later]
    next =>
      split at divided
      next same =>
        cases divided
        rw [same, List.nil_append]
      next => cases divided

theorem length_splitLast {path front behind : Bytes} (divided : splitLast path = some (front, behind)) :
    path.length = front.length + 1 + behind.length := by
  rw [splitLast_eq divided, List.length_append, List.length_cons]
  omega

theorem slash_not_mem_of_none {path : Bytes} (undivided : splitLast path = none) : slash ∉ path := by
  induction path with
  | nil => exact List.not_mem_nil
  | cons byte rest ih =>
    rw [splitLast] at undivided
    split at undivided
    next => cases undivided
    next none =>
      split at undivided
      next => cases undivided
      next other => exact List.not_mem_cons_of_ne_of_not_mem (Ne.symm other) (ih none)

theorem slash_not_mem_behind {path front behind : Bytes}
    (divided : splitLast path = some (front, behind)) : slash ∉ behind := by
  induction path generalizing front with
  | nil => cases divided
  | cons byte rest ih =>
    rw [splitLast] at divided
    split at divided
    next later =>
      cases divided
      exact ih later
    next none =>
      split at divided
      next =>
        cases divided
        exact slash_not_mem_of_none none
      next => cases divided

/-- A path is cut at its last slash until there is none. -/
theorem splitLast_induction {motive : Bytes → Prop}
    (whole : ∀ path, splitLast path = none → motive path)
    (divided : ∀ path front behind, splitLast path = some (front, behind) → motive front → motive path)
    (path : Bytes) : motive path := by
  induction length : path.length using Nat.strong_induction_on generalizing path with
  | _ count ih =>
    cases parts : splitLast path with
    | none => exact whole path parts
    | some split =>
      have longer := length_splitLast parts
      exact divided path split.1 split.2 parts (ih split.1.length (by omega) split.1 rfl)

def tarGz : Bytes := bytes ".tar.gz"

/-- The names that `scanLogFiles` picks. -/
def isArchive (logBaseName filename : Bytes) : Bool :=
  (logBaseName ++ [dot]).isPrefixOf filename && decide (tarGz <:+: filename)

section
variable (platform : Platform)

def getCurrentTimeString (time : Int) : Bytes :=
  let tm := platform.localtime (seconds time)
  padded 4 (tm.year + 1900) ++ padded 2 (tm.mon + 1) ++ padded 2 tm.mday ++ padded 2 tm.hour ++
    padded 2 tm.min ++ padded 2 tm.sec

/-- `createDirectory` for a path no longer than the fuel. -/
def createWithin : Nat → Volume LogFile → Bytes → Volume LogFile × Bool
  | 0, volume, _ => (volume, true)
  | fuel + 1, volume, dir =>
    if dir = [] ∨ dir = [dot] then (volume, true)
    else
      match volume.stat platform.cwd (cStr dir) with
      | some .directory => (volume, true)
      | some (.file _) => (volume, false)
      | none =>
        let above := match splitLast dir with
          | some (parent, _) => createWithin fuel volume parent
          | none => (volume, true)
        if above.2 then
          match above.1.mkdir platform.cwd (cStr dir) with
          | .ok made => (made, true)
          | .error .exist => (above.1, true)
          | .error .unreachable => (above.1, false)
        else (above.1, false)

def createDirectory (volume : Volume LogFile) (dir : Bytes) : Volume LogFile × Bool :=
  createWithin platform dir.length volume dir

/-- Any fuel that covers the path will do. -/
theorem createWithin_fuel {dir : Bytes} {first second : Nat} (enough : dir.length ≤ first)
    (also : dir.length ≤ second) (volume : Volume LogFile) :
    createWithin platform first volume dir = createWithin platform second volume dir := by
  induction first generalizing second dir with
  | zero =>
    have empty : dir = [] := List.length_eq_zero_iff.mp (Nat.le_zero.mp enough)
    cases second with
    | zero => rfl
    | succ second => rw [createWithin, createWithin, if_pos (.inl empty)]
  | succ first ih =>
    cases second with
    | zero =>
      have empty : dir = [] := List.length_eq_zero_iff.mp (Nat.le_zero.mp also)
      rw [createWithin, createWithin, if_pos (.inl empty)]
    | succ second =>
      rw [createWithin, createWithin]
      cases divided : splitLast dir with
      | none => rfl
      | some parts =>
        have length := length_splitLast divided
        have same : createWithin platform first volume parts.1 =
            createWithin platform second volume parts.1 := ih (by omega) (by omega)
        simp only [same]

/-- The recursion as it stands in the source. -/
theorem createDirectory_eq (volume : Volume LogFile) (dir : Bytes) :
    createDirectory platform volume dir =
      if dir = [] ∨ dir = [dot] then (volume, true)
      else
        match volume.stat platform.cwd (cStr dir) with
        | some .directory => (volume, true)
        | some (.file _) => (volume, false)
        | none =>
          let above := match splitLast dir with
            | some (parent, _) => createDirectory platform volume parent
            | none => (volume, true)
          if above.2 then
            match above.1.mkdir platform.cwd (cStr dir) with
            | .ok made => (made, true)
            | .error .exist => (above.1, true)
            | .error .unreachable => (above.1, false)
          else (above.1, false) := by
  have more : createDirectory platform volume dir = createWithin platform (dir.length + 1) volume dir :=
    createWithin_fuel platform le_rfl (Nat.le_succ _) volume
  rw [more, createWithin]
  cases divided : splitLast dir with
  | none => rfl
  | some parts =>
    have length := length_splitLast divided
    have same : createWithin platform dir.length volume parts.1 = createDirectory platform volume parts.1 :=
      createWithin_fuel platform (by omega) le_rfl volume
    simp only [same]

def fullLogPath (manager : LogManager) : Bytes := manager.logDir ++ slash :: manager.logBaseName

def openNewLogFile (manager : LogManager) (time : Int) : LogManager × Bool :=
  let closed := { manager with logFile := none }
  match manager.volume.openAppend platform.cwd (cStr (fullLogPath manager)) ⟨[], false⟩ with
  | none => (closed, false)
  | some (volume, place) =>
    ({ closed with
        volume := volume
        modified := if (manager.volume.file? place).isSome then manager.modified
          else Function.update manager.modified place (seconds time)
        logFile := some place
        fileCreateTime := time
        currentFileSize := ((volume.file? place).map LogFile.size).getD 0 }, true)

/-- The count of seconds is signed, and compared as an unsigned number. -/
def checkRotateCondition (manager : LogManager) (now : Int) : Bool :=
  if manager.logFile.isNone then false
  else
    let duration := (now - manager.fileCreateTime).tdiv (10 ^ 9)
    decide (manager.sizeThreshold.toNat ≤ manager.currentFileSize) ||
      decide (manager.timeInterval.toNat ≤ (duration % 2 ^ 64).toNat)

/-- `tar -zcf dst src && rm -f src`. -/
def tar (volume : Volume LogFile) (src dst : Bytes) : Option (Volume LogFile × Place) :=
  (volume.locate platform.cwd src).bind fun source =>
    (volume.locate platform.cwd dst).bind fun target =>
      (volume.file? source).bind fun file =>
        (volume.put? target (.file { file with packed := true })).bind fun packed =>
          (packed.remove? source).map fun rest => (rest, target)

def compressLogFile (manager : LogManager) (srcFile : Bytes) (time : Int) : LogManager × Bool :=
  if srcFile = [] ∨ (manager.volume.stat platform.cwd (cStr srcFile)).isNone then (manager, false)
  -- a NUL cuts the command off before its second path
  else if ¬NulFree srcFile then (manager, false)
  else
    match tar platform manager.volume srcFile (srcFile ++ tarGz) with
    | none => (manager, false)
    | some (volume, target) =>
      ({ manager with
          volume := volume
          modified := Function.update manager.modified target (seconds time) }, true)

def scanLogFiles (manager : LogManager) : List LogFileInfo :=
  match manager.volume.opendir platform.cwd (cStr manager.logDir) with
  | none => []
  | some names =>
    platform.sort ((names.filter (isArchive manager.logBaseName)).filterMap fun filename =>
      (manager.volume.find platform.cwd (cStr (manager.logDir ++ slash :: filename))).bind fun place =>
        (manager.volume.node? place).map fun _ => ⟨filename, manager.modified place⟩)

def unlinkLogFile (manager : LogManager) (info : LogFileInfo) : LogManager :=
  let fullPath := cStr (manager.logDir ++ slash :: info.filename)
  match manager.volume.unlink platform.cwd fullPath with
  | none => manager
  | some volume =>
    let gone := ((manager.volume.locate platform.cwd fullPath).bind manager.volume.file?).map (·.pieces)
    { manager with volume := volume, cleaned := manager.cleaned ++ gone.getD [] }

def cleanupOldLogs (manager : LogManager) : LogManager :=
  let logFiles := scanLogFiles platform manager
  if logFiles.length ≤ manager.maxLogFiles.toNat then manager
  else
    let deleteCount := (logFiles.length - manager.maxLogFiles.toNat) % 2 ^ 32
    (logFiles.take deleteCount).foldl (unlinkLogFile platform) manager

def rotateFilename (manager : LogManager) (time : Int) : Bytes :=
  manager.logDir ++ slash :: (manager.logBaseName ++ dot :: getCurrentTimeString platform time)

def rotateLog (manager : LogManager) (clock : Clock) : LogManager :=
  let full := cStr (fullLogPath manager)
  let rotated := cStr (rotateFilename platform manager clock.rotate)
  match manager.volume.rename platform.cwd full rotated with
  | none => (openNewLogFile platform { manager with logFile := none } clock.opened).1
  | some volume =>
    let modified := match manager.volume.locate platform.cwd full,
        manager.volume.locate platform.cwd rotated with
      | some source, some target =>
        Function.update manager.modified target (manager.modified source)
      | _, _ => manager.modified
    let moved := { manager with logFile := none, volume := volume, modified := modified }
    let compressed := (compressLogFile platform moved
      (rotateFilename platform manager clock.rotate) clock.packed).1
    (openNewLogFile platform (cleanupOldLogs platform compressed) clock.opened).1

def lineText (call : Call) : Bytes :=
  bytes "[" ++ getCurrentTimeString platform call.clock.line ++ bytes "] [" ++
    getLogLevelString call.level ++ bytes "] " ++ call.message ++ [10]

/-- The stream's `<<` and `flush`. -/
def append (manager : LogManager) (place : Place) (text : Bytes) (time : Int) : LogManager :=
  match manager.volume.file? place with
  | none => manager
  | some file =>
    match manager.volume.put? place
        (.file { file with pieces := file.pieces ++ [.line manager.written.length text] }) with
    | none => manager
    | some volume =>
      { manager with
        volume := volume
        modified := Function.update manager.modified place (seconds time)
        currentFileSize := manager.currentFileSize + text.length
        written := manager.written ++ [text] }

def log (manager : LogManager) (call : Call) : LogManager :=
  if call.level.number < manager.currentLevel.number then manager
  else
    let rotated := if checkRotateCondition manager call.clock.check then
      rotateLog platform manager call.clock else manager
    match rotated.logFile with
    | none => rotated
    | some place => append rotated place (lineText platform call) call.clock.line

/-- `init` up to the cleanup. -/
def openInitial (manager : LogManager) (settings : Settings) (time : Int) : LogManager × Bool :=
  if settings.logPath = [] ∨ settings.sizeThreshold = 0 ∨ settings.timeInterval = 0 ∨
      settings.maxLogFiles = 0 then (manager, false)
  else
    let split := (splitLast settings.logPath).getD ([dot], settings.logPath)
    let created := createDirectory platform manager.volume split.1
    let configured := { manager with
      volume := created.1
      currentLevel := settings.level
      logDir := split.1
      logBaseName := split.2
      sizeThreshold := settings.sizeThreshold
      timeInterval := settings.timeInterval
      maxLogFiles := settings.maxLogFiles }
    if created.2 then openNewLogFile platform configured time else (configured, false)

def init (manager : LogManager) (settings : Settings) (time : Int) : LogManager × Bool :=
  let opened := openInitial platform manager settings time
  if opened.2 then (cleanupOldLogs platform opened.1, true) else opened

end

end ModbusDatabase.Logging
