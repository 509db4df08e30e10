import Mathlib.Data.List.Infix
import ModbusDatabase.Logging

/-! What each part of a rotation does to the files, for a manager whose paths
lead where they should. The three names in play are the active file's, the
rotated file's and the archive's. -/

namespace ModbusDatabase.Archives
open Message Library FileSystem Logging
set_option autoImplicit false

/-! Names. -/

def rotatedName (platform : Platform) (logBaseName : Bytes) (time : Int) : Bytes :=
  logBaseName ++ dot :: getCurrentTimeString platform time

def archiveName (platform : Platform) (logBaseName : Bytes) (time : Int) : Bytes :=
  rotatedName platform logBaseName time ++ tarGz

theorem byte_of_padded {width : Nat} {number : Int} {byte : Byte} (member : byte ∈ padded width number) :
    byte = 45 ∨ Decimal.IsDigit byte := by
  rcases List.mem_append.mp member with fill | text
  · rw [List.eq_of_mem_replicate fill]
    exact .inr (by decide)
  · rcases List.mem_append.mp text with sign | digits
    · split at sign
      next => exact .inl (List.mem_singleton.mp sign)
      next => exact absurd sign List.not_mem_nil
    · exact .inr (Decimal.isDigit_render digits)

theorem padded_ne_nil (width : Nat) (number : Int) : padded width number ≠ [] :=
  List.append_ne_nil_of_right_ne_nil _
    (List.append_ne_nil_of_right_ne_nil _ (Decimal.render_ne_nil _))

/-- A time string is made of digits, and a minus sign before an impossible number. -/
theorem byte_of_timeString {platform : Platform} {time : Int} {byte : Byte}
    (member : byte ∈ getCurrentTimeString platform time) : byte = 45 ∨ Decimal.IsDigit byte := by
  simp only [getCurrentTimeString, List.mem_append] at member
  rcases member with ((((year | mon) | mday) | hour) | min) | sec
  · exact byte_of_padded year
  · exact byte_of_padded mon
  · exact byte_of_padded mday
  · exact byte_of_padded hour
  · exact byte_of_padded min
  · exact byte_of_padded sec

theorem timeString_ne_nil (platform : Platform) (time : Int) : getCurrentTimeString platform time ≠ [] :=
  List.append_ne_nil_of_right_ne_nil _ (padded_ne_nil _ _)

theorem valid_append {name behind : Bytes} (valid : Valid name) (whole : slash ∉ behind)
    (free : nul ∉ behind) (long : 2 ≤ behind.length) : Valid (name ++ behind) := by
  have some_ := List.length_pos_of_ne_nil valid.1
  refine ⟨List.append_ne_nil_of_left_ne_nil valid.1 _, ?_, ?_, ?_, ?_⟩
  · rw [List.mem_append, not_or]
    exact ⟨valid.2.1, whole⟩
  · rw [List.mem_append, not_or]
    exact ⟨valid.2.2.1, free⟩
  · intro same
    have lengths := congrArg List.length same
    rw [List.length_append, List.length_singleton] at lengths
    omega
  · intro same
    have lengths := congrArg List.length same
    rw [List.length_append, List.length_cons, List.length_singleton] at lengths
    omega

section
variable {platform : Platform} {logBaseName : Bytes} (valid : Valid logBaseName) (time : Int)
include valid

theorem valid_rotatedName : Valid (rotatedName platform logBaseName time) := by
  refine valid_append valid ?_ ?_ ?_
  · intro member
    rcases List.mem_cons.mp member with same | inner
    · exact absurd same (by decide)
    · exact absurd (byte_of_timeString inner) (by decide)
  · intro member
    rcases List.mem_cons.mp member with same | inner
    · exact absurd same (by decide)
    · exact absurd (byte_of_timeString inner) (by decide)
  · have some_ := List.length_pos_of_ne_nil (timeString_ne_nil platform time)
    rw [List.length_cons]
    omega

theorem valid_archiveName : Valid (archiveName platform logBaseName time) :=
  valid_append (valid_rotatedName valid time) (by decide) (by decide) (by decide)

end

section
variable (platform : Platform) (logBaseName : Bytes) (time : Int)

theorem rotatedName_ne : rotatedName platform logBaseName time ≠ logBaseName := by
  intro same
  have lengths := congrArg List.length same
  rw [rotatedName, List.length_append, List.length_cons] at lengths
  omega

theorem archiveName_ne : archiveName platform logBaseName time ≠ logBaseName := by
  intro same
  have lengths := congrArg List.length same
  rw [archiveName, rotatedName, List.length_append, List.length_append, List.length_cons] at lengths
  omega

theorem archiveName_ne_rotated :
    archiveName platform logBaseName time ≠ rotatedName platform logBaseName time := by
  intro same
  exact absurd (List.append_right_eq_self.mp same) (by decide)

theorem isArchive_base : isArchive logBaseName logBaseName = false := by
  have short : (logBaseName ++ [dot]).isPrefixOf logBaseName = false := by
    rw [Bool.eq_false_iff]
    intro front
    have lengths := (List.isPrefixOf_iff_prefix.mp front).length_le
    rw [List.length_append, List.length_singleton] at lengths
    omega
  rw [isArchive, short, Bool.false_and]

end

/-! Places. -/

/-- The log directory exists, and the paths into it lead to its entries. -/
structure Located (platform : Platform) (manager : LogManager) (home : Place) : Prop where
  dirFree : NulFree manager.logDir
  named : Valid manager.logBaseName
  found : manager.volume.base platform.cwd manager.logDir = some home
  around : manager.volume.isDirectory home = true

/-- The same of the directory alone, whatever the log is called. -/
structure Inside (platform : Platform) (manager : LogManager) (home : Place) : Prop where
  dirFree : NulFree manager.logDir
  found : manager.volume.base platform.cwd manager.logDir = some home
  around : manager.volume.isDirectory home = true

/-- The path of the log file leads to something that can be a file. Unless a NUL
cuts the path off, it is the entry of the base name in the log directory. -/
structure Opened (platform : Platform) (manager : LogManager) (active : Bytes) (home : Place) : Prop where
  located : manager.volume.locate platform.cwd (cStr (fullLogPath manager)) = some (active :: home)
  named : Valid active
  around : manager.volume.isDirectory home = true
  free : manager.volume.isDirectory (active :: home) = false
  whole : NulFree (fullLogPath manager) → active = manager.logBaseName ∧ Located platform manager home

/-- What no call changes once the file is open. -/
structure Keeps (manager next : LogManager) : Prop where
  logDir : next.logDir = manager.logDir
  logBaseName : next.logBaseName = manager.logBaseName
  maxLogFiles : next.maxLogFiles = manager.maxLogFiles
  directories : ∀ place, next.volume.isDirectory place = manager.volume.isDirectory place

theorem Keeps.refl (manager : LogManager) : Keeps manager manager := ⟨rfl, rfl, rfl, fun _ => rfl⟩

theorem Keeps.trans {first second third : LogManager} (left : Keeps first second)
    (right : Keeps second third) : Keeps first third where
  logDir := right.logDir.trans left.logDir
  logBaseName := right.logBaseName.trans left.logBaseName
  maxLogFiles := right.maxLogFiles.trans left.maxLogFiles
  directories place := (right.directories place).trans (left.directories place)

variable {platform : Platform} {manager next : LogManager} {home place other : Place}
  {active name : Bytes} {piece : Piece}

theorem Keeps.fullLogPath (keeps : Keeps manager next) : fullLogPath next = fullLogPath manager := by
  rw [Logging.fullLogPath, keeps.logDir, keeps.logBaseName, Logging.fullLogPath]

theorem Located.of_keeps (located : Located platform manager home) (keeps : Keeps manager next) :
    Located platform next home where
  dirFree := keeps.logDir ▸ located.dirFree
  named := keeps.logBaseName ▸ located.named
  found := by rw [keeps.logDir, Volume.base_congr keeps.directories, located.found]
  around := (keeps.directories home).trans located.around

theorem Opened.of_keeps (opened : Opened platform manager active home) (keeps : Keeps manager next) :
    Opened platform next active home where
  located := by rw [keeps.fullLogPath, Volume.locate_congr keeps.directories, opened.located]
  named := opened.named
  around := (keeps.directories home).trans opened.around
  free := (keeps.directories _).trans opened.free
  whole free := by
    rw [keeps.fullLogPath] at free
    exact ⟨(opened.whole free).1.trans keeps.logBaseName.symm, (opened.whole free).2.of_keeps keeps⟩

theorem Located.inside (located : Located platform manager home) : Inside platform manager home :=
  ⟨located.dirFree, located.found, located.around⟩

theorem Inside.of_keeps (inside : Inside platform manager home) (keeps : Keeps manager next) :
    Inside platform next home where
  dirFree := keeps.logDir ▸ inside.dirFree
  found := by rw [keeps.logDir, Volume.base_congr keeps.directories, inside.found]
  around := (keeps.directories home).trans inside.around

/-- A name joined to the directory leads to the entry of the name in it. -/
theorem Inside.find_entry (inside : Inside platform manager home) (valid : Valid name) :
    manager.volume.find platform.cwd (manager.logDir ++ slash :: name) = some (name :: home) := by
  rw [Volume.find_join valid.1 valid.2.1, inside.found, Option.bind_some, Volume.step_name valid,
    if_pos inside.around]

theorem Inside.locate_entry (inside : Inside platform manager home) (valid : Valid name) :
    manager.volume.locate platform.cwd (manager.logDir ++ slash :: name) = some (name :: home) := by
  rw [Volume.locate_join valid.1 valid.2.1, inside.find_entry valid]

theorem Inside.cStr_entry (inside : Inside platform manager home) (valid : Valid name) :
    cStr (manager.logDir ++ slash :: name) = manager.logDir ++ slash :: name := by
  apply cStr_eq_self.mpr
  exact nulFree_append.mpr
    ⟨inside.dirFree, List.not_mem_cons_of_ne_of_not_mem (by decide) valid.2.2.1⟩

/-! Opening. -/

/-- The file is there, with what was in it, and nothing else has changed. -/
structure Reopened (manager next : LogManager) (place : Place) : Prop where
  keeps : Keeps manager next
  written : next.written = manager.written
  cleaned : next.cleaned = manager.cleaned
  logFile : next.logFile = some place
  nodes : ∀ other, next.volume.node? other = if other = place then
    some (.file ((manager.volume.file? place).getD ⟨[], false⟩)) else manager.volume.node? other

theorem openNewLogFile_cases {time : Int} (opened : (openNewLogFile platform manager time).2 = true) :
    ∃ place, manager.volume.locate platform.cwd (cStr (fullLogPath manager)) = some place ∧
      manager.volume.isDirectory place = false ∧
      Reopened manager (openNewLogFile platform manager time).1 place := by
  unfold openNewLogFile at opened ⊢
  split at opened
  next => cases opened
  next volume place found =>
    obtain ⟨located, free, nodes⟩ := Volume.openAppend_cases found
    refine ⟨place, located, free, ⟨rfl, rfl, rfl, ?_⟩, rfl, rfl, rfl, nodes⟩
    refine Volume.directories_of_nodes (· = place) ?_ fun other elsewhere =>
      (nodes other).trans (if_neg elsewhere)
    rintro other rfl
    refine ⟨free, ?_⟩
    rw [Volume.isDirectory, nodes, if_pos rfl]

theorem Opened.opens (opened : Opened platform manager active home) (time : Int) :
    (openNewLogFile platform manager time).2 = true := by
  obtain ⟨next, found⟩ := Volume.exists_openAppend (LogFile.mk [] false) opened.located opened.named
    opened.around opened.free
  rw [openNewLogFile, found]

theorem Opened.reopened (opened : Opened platform manager active home) (time : Int) :
    Reopened manager (openNewLogFile platform manager time).1 (active :: home) := by
  obtain ⟨place, located, -, reopened⟩ := openNewLogFile_cases (opened.opens time)
  cases opened.located.symm.trans located
  exact reopened

/-! Packing. -/

theorem tar_cases {volume rest : Volume LogFile} {src dst : Bytes} {target : Place}
    (packed : tar platform volume src dst = some (rest, target)) :
    ∃ source file, volume.locate platform.cwd src = some source ∧
      volume.locate platform.cwd dst = some target ∧ volume.file? source = some file ∧
      volume.isDirectory target = false ∧ ∀ other, rest.node? other = if other = source then none
        else if other = target then some (.file { file with packed := true }) else volume.node? other := by
  obtain ⟨source, first, packed⟩ := Option.bind_eq_some_iff.mp packed
  obtain ⟨there, second, packed⟩ := Option.bind_eq_some_iff.mp packed
  obtain ⟨file, found, packed⟩ := Option.bind_eq_some_iff.mp packed
  obtain ⟨middle, stored, packed⟩ := Option.bind_eq_some_iff.mp packed
  obtain ⟨next, removed, same⟩ := Option.map_eq_some_iff.mp packed
  cases same
  refine ⟨source, file, first, second, found, Volume.not_directory_of_put stored, fun other => ?_⟩
  rw [Volume.node?_remove removed, Volume.node?_put stored]

theorem compressLogFile_cases (platform : Platform) (manager : LogManager) (srcFile : Bytes) (time : Int) :
    (compressLogFile platform manager srcFile time).1 = manager ∨
      NulFree srcFile ∧ ∃ volume target modified,
        tar platform manager.volume srcFile (srcFile ++ tarGz) = some (volume, target) ∧
        (compressLogFile platform manager srcFile time).1 =
          { manager with volume := volume, modified := modified } := by
  unfold compressLogFile
  split
  next => exact .inl rfl
  next =>
    split
    next => exact .inl rfl
    next whole =>
      split
      next => exact .inl rfl
      next volume target packed => exact .inr ⟨not_not.mp whole, volume, target, _, packed, rfl⟩

/-- A file that is moved was no directory, and is none at its new place. -/
theorem moved_directories {volume rest : Volume LogFile} {source target : Place} {file : LogFile}
    (found : volume.file? source = some file) (free : volume.isDirectory target = false)
    (nodes : ∀ other, other ≠ source → other ≠ target → rest.node? other = volume.node? other)
    (left : rest.isDirectory source = false) (arrived : rest.isDirectory target = false)
    (place : Place) : rest.isDirectory place = volume.isDirectory place := by
  refine Volume.directories_of_nodes (fun other => other = source ∨ other = target) ?_ ?_ place
  · rintro other (rfl | rfl)
    · exact ⟨Volume.isDirectory_eq_false.mpr (.inr ⟨file, Volume.file?_eq_some.mp found⟩), left⟩
    · exact ⟨free, arrived⟩
  · intro other elsewhere
    rw [not_or] at elsewhere
    exact nodes other elsewhere.1 elsewhere.2

/-! Deleting. -/

def Holds (volume : Volume LogFile) (place : Place) (piece : Piece) : Prop :=
  ∃ file, volume.file? place = some file ∧ piece ∈ file.pieces

theorem holds_of_node? {volume rest : Volume LogFile} (same : rest.node? place = volume.node? place)
    (held : Holds volume place piece) : Holds rest place piece := by
  obtain ⟨file, found, member⟩ := held
  exact ⟨file, (Volume.file?_of_node? same).trans found, member⟩

/-- Files have only been deleted, and what they held is in the record. -/
structure Swept (manager next : LogManager) : Prop where
  keeps : Keeps manager next
  logFile : next.logFile = manager.logFile
  written : next.written = manager.written
  cleaned : manager.cleaned ⊆ next.cleaned
  held : ∀ place piece, Holds manager.volume place piece →
    Holds next.volume place piece ∨ piece ∈ next.cleaned
  shrunk : ∀ place, next.volume.node? place ≠ none → manager.volume.node? place ≠ none

theorem Swept.refl (manager : LogManager) : Swept manager manager where
  keeps := .refl manager
  logFile := rfl
  written := rfl
  cleaned := List.Subset.refl _
  held _ _ held := .inl held
  shrunk _ there := there

theorem Swept.trans {first second third : LogManager} (left : Swept first second)
    (right : Swept second third) : Swept first third where
  keeps := left.keeps.trans right.keeps
  logFile := right.logFile.trans left.logFile
  written := right.written.trans left.written
  cleaned := List.Subset.trans left.cleaned right.cleaned
  held place piece held := by
    rcases left.held place piece held with there | gone
    · exact right.held place piece there
    · exact .inr (right.cleaned gone)
  shrunk place there := left.shrunk place (right.shrunk place there)

theorem unlinkLogFile_cases (platform : Platform) (manager : LogManager) (info : LogFileInfo) :
    unlinkLogFile platform manager info = manager ∨ ∃ place file volume,
      manager.volume.locate platform.cwd (cStr (manager.logDir ++ slash :: info.filename)) = some place ∧
      manager.volume.file? place = some file ∧ manager.volume.remove? place = some volume ∧
      unlinkLogFile platform manager info =
        { manager with volume := volume, cleaned := manager.cleaned ++ file.pieces } := by
  simp only [unlinkLogFile]
  split
  next => exact .inl rfl
  next volume unlinked =>
    obtain ⟨place, located, removed⟩ := Option.bind_eq_some_iff.mp unlinked
    obtain ⟨file, found⟩ := Volume.file_of_remove removed
    refine .inr ⟨place, file, volume, located, found, removed, ?_⟩
    simp only [located, Option.bind_some, found, Option.map_some, Option.getD_some]

theorem swept_unlinkLogFile (platform : Platform) (manager : LogManager) (info : LogFileInfo) :
    Swept manager (unlinkLogFile platform manager info) := by
  rcases unlinkLogFile_cases platform manager info with same | ⟨place, file, volume, -, found, removed, same⟩
  · rw [same]
    exact .refl manager
  · rw [same]
    refine ⟨⟨rfl, rfl, rfl, Volume.isDirectory_remove removed⟩, rfl, rfl,
      List.subset_append_left _ _, ?_, ?_⟩
    · rintro other piece ⟨held, there, member⟩
      by_cases gone : other = place
      · rw [gone, found] at there
        cases there
        exact .inr (List.mem_append_right _ member)
      · exact .inl ⟨held, by rw [Volume.file?_remove removed, if_neg gone, there], member⟩
    · intro other there absent
      apply there
      rw [Volume.node?_remove removed, absent, ite_self]

theorem swept_foldl (platform : Platform) (infos : List LogFileInfo) (manager : LogManager) :
    Swept manager (infos.foldl (unlinkLogFile platform) manager) := by
  induction infos generalizing manager with
  | nil => exact .refl manager
  | cons info rest ih => exact (swept_unlinkLogFile platform manager info).trans (ih _)

theorem swept_cleanupOldLogs (platform : Platform) (manager : LogManager) :
    Swept manager (cleanupOldLogs platform manager) := by
  unfold cleanupOldLogs
  simp only []
  split
  next => exact .refl manager
  next => exact swept_foldl platform _ manager

/-! Scanning. -/

/-- The names that the scan picks, in the order of the directory. -/
def matching (platform : Platform) (manager : LogManager) : List Bytes :=
  ((manager.volume.opendir platform.cwd (cStr manager.logDir)).getD []).filter
    (isArchive manager.logBaseName)

theorem opendir_eq_some {volume : Volume LogFile} {cwd : Place} {path : Bytes} {names : List Name}
    (opened : volume.opendir cwd path = some names) :
    ∃ home, volume.find cwd path = some home ∧ volume.isDirectory home = true ∧
      names = volume.children home := by
  obtain ⟨home, found, listed⟩ := Option.bind_eq_some_iff.mp opened
  obtain ⟨around, same⟩ := Option.ite_none_right_eq_some.mp listed
  exact ⟨home, found, around, (Option.some.inj same).symm⟩

/-- A directory that can be read is the one its entries are in. -/
theorem inside_of_find (found : manager.volume.find platform.cwd (cStr manager.logDir) = some home)
    (around : manager.volume.isDirectory home = true) (free : NulFree manager.logDir) :
    Inside platform manager home := by
  rw [cStr_eq_self.mpr free] at found
  refine ⟨free, ?_, around⟩
  rw [Volume.base, if_neg, found]
  rintro empty
  rw [empty, Volume.find, if_pos rfl] at found
  cases found

/-- Everything in a directory that can be read can be looked at. A NUL in the name of the
directory hides the names of the entries, and it is the directory that is looked at. -/
theorem exists_stat {name : Bytes} {home : Place}
    (found : manager.volume.find platform.cwd (cStr manager.logDir) = some home)
    (around : manager.volume.isDirectory home = true) (member : name ∈ manager.volume.children home) :
    ∃ place, manager.volume.find platform.cwd (cStr (manager.logDir ++ slash :: name)) = some place ∧
      manager.volume.node? place ≠ none := by
  by_cases free : NulFree manager.logDir
  · have inside := inside_of_find found around free
    have there := Volume.mem_children.mp member
    have valid := (Volume.entry_placed there).1
    exact ⟨name :: home, by rw [inside.cStr_entry valid, inside.find_entry valid], there⟩
  · refine ⟨home, by rw [cStr_append_of_nul free, found], ?_⟩
    rw [Volume.isDirectory_iff.mp around]
    exact Option.some_ne_none _

theorem map_filterMap_infos {names : List Bytes} {look : Bytes → Option LogFileInfo}
    (looked : ∀ name ∈ names, ∃ info, look name = some info ∧ info.filename = name) :
    (names.filterMap look).map (·.filename) = names := by
  induction names with
  | nil => rfl
  | cons name rest ih =>
    obtain ⟨info, found, same⟩ := looked name List.mem_cons_self
    rw [List.filterMap_cons_some found, List.map_cons, same,
      ih fun other member => looked other (List.mem_cons_of_mem _ member)]

/-- The scan finds the archives of the log directory. -/
theorem scanLogFiles_names (documented : Documented platform) (manager : LogManager) :
    ((scanLogFiles platform manager).map (·.filename)).Perm (matching platform manager) := by
  rw [scanLogFiles, matching]
  cases opened : manager.volume.opendir platform.cwd (cStr manager.logDir) with
  | none => exact .refl _
  | some names =>
    obtain ⟨home, found, around, rfl⟩ := opendir_eq_some opened
    refine ((documented.sort_perm _).map _).trans ?_
    rw [map_filterMap_infos]
    · exact .refl _
    · intro name member
      obtain ⟨place, leads, there⟩ := exists_stat found around (List.mem_of_mem_filter member)
      obtain ⟨node, present⟩ := Option.ne_none_iff_exists'.mp there
      exact ⟨⟨name, manager.modified place⟩, by rw [leads, Option.bind_some, present]; rfl, rfl⟩

theorem valid_of_matching (member : name ∈ matching platform manager) : Valid name := by
  rw [matching] at member
  cases opened : manager.volume.opendir platform.cwd (cStr manager.logDir) with
  | none =>
    rw [opened] at member
    exact absurd member List.not_mem_nil
  | some names =>
    obtain ⟨home, -, -, rfl⟩ := opendir_eq_some opened
    rw [opened] at member
    exact (Volume.entry_placed (Volume.mem_children.mp (List.mem_of_mem_filter member))).1

theorem matching_of_inside (inside : Inside platform manager home) (dirPart : manager.logDir ≠ []) :
    matching platform manager =
      (manager.volume.children home).filter (isArchive manager.logBaseName) := by
  have leads := inside.found
  rw [Volume.base, if_neg dirPart] at leads
  rw [matching, Volume.opendir, cStr_eq_self.mpr inside.dirFree, leads, Option.bind_some,
    if_pos inside.around, Option.getD_some]

/-! Deleting by name. -/

/-- The path of an entry leads to a file only if no NUL cuts it off. -/
theorem entry_of_located
    (found : manager.volume.find platform.cwd (cStr manager.logDir) = some home)
    (around : manager.volume.isDirectory home = true) (valid : Valid name) {file : LogFile}
    (located : manager.volume.locate platform.cwd (cStr (manager.logDir ++ slash :: name)) = some place)
    (there : manager.volume.file? place = some file) :
    Inside platform manager home ∧ place = name :: home := by
  by_cases free : NulFree manager.logDir
  · have inside := inside_of_find found around free
    rw [inside.cStr_entry valid, inside.locate_entry valid] at located
    exact ⟨inside, (Option.some.inj located).symm⟩
  -- cut off, it is the path of the directory
  · rw [cStr_append_of_nul free, Volume.locate] at located
    split at located
    next => cases located
    next =>
      cases found.symm.trans located
      cases (Volume.isDirectory_iff.mp around).symm.trans (Volume.file?_eq_some.mp there)

theorem node?_unlinkLogFile_cases
    (found : manager.volume.find platform.cwd (cStr manager.logDir) = some home)
    (around : manager.volume.isDirectory home = true) {info : LogFileInfo} (valid : Valid info.filename)
    (place : Place) :
    (unlinkLogFile platform manager info).volume.node? place = manager.volume.node? place ∨
      NulFree manager.logDir ∧ place = info.filename :: home := by
  rcases unlinkLogFile_cases platform manager info with same | ⟨gone, file, volume, located, there, removed, same⟩
  · exact .inl (by rw [same])
  · obtain ⟨inside, rfl⟩ := entry_of_located found around valid located there
    by_cases here : place = info.filename :: home
    · exact .inr ⟨inside.dirFree, here⟩
    · exact .inl (by rw [same, Volume.node?_remove removed, if_neg here])

theorem node?_foldl_cases
    (found : manager.volume.find platform.cwd (cStr manager.logDir) = some home)
    (around : manager.volume.isDirectory home = true) {infos : List LogFileInfo}
    (valid : ∀ info ∈ infos, Valid info.filename) (place : Place) :
    (infos.foldl (unlinkLogFile platform) manager).volume.node? place = manager.volume.node? place ∨
      NulFree manager.logDir ∧ ∃ info ∈ infos, place = info.filename :: home := by
  induction infos generalizing manager with
  | nil => exact .inl rfl
  | cons first rest ih =>
    have keeps := (swept_unlinkLogFile platform manager first).keeps
    have reading : (unlinkLogFile platform manager first).volume.find platform.cwd
        (cStr (unlinkLogFile platform manager first).logDir) = some home := by
      rw [keeps.logDir, Volume.find_congr keeps.directories, found]
    rw [List.foldl_cons]
    rcases ih reading ((keeps.directories home).trans around)
      fun info member => valid info (List.mem_cons_of_mem _ member) with same | ⟨free, info, member, here⟩
    · rcases node?_unlinkLogFile_cases found around (valid first List.mem_cons_self) place with
        before | ⟨free, here⟩
      · exact .inl (same.trans before)
      · exact .inr ⟨free, first, List.mem_cons_self, here⟩
    · exact .inr ⟨keeps.logDir ▸ free, info, List.mem_cons_of_mem _ member, here⟩

/-- A cleanup leaves everything as it was but what the scan picks from the directory. -/
theorem node?_cleanupOldLogs_cases (documented : Documented platform) (manager : LogManager)
    (place : Place) :
    (cleanupOldLogs platform manager).volume.node? place = manager.volume.node? place ∨
      ∃ home name, Inside platform manager home ∧ name ∈ matching platform manager ∧
        place = name :: home := by
  have names := scanLogFiles_names documented manager
  simp only [cleanupOldLogs]
  split
  next => exact .inl rfl
  next beyond =>
    cases opened : manager.volume.opendir platform.cwd (cStr manager.logDir) with
    | none =>
      have nothing : scanLogFiles platform manager = [] := by rw [scanLogFiles, opened]
      rw [nothing] at beyond
      exact absurd (Nat.zero_le _) beyond
    | some listed =>
      obtain ⟨home, found, around, rfl⟩ := opendir_eq_some opened
      have picked : ∀ info ∈ scanLogFiles platform manager,
          info.filename ∈ matching platform manager := fun info member =>
        names.subset (List.mem_map_of_mem member)
      rcases node?_foldl_cases found around (fun info member =>
        valid_of_matching (picked info (List.mem_of_mem_take member))) place with same | ⟨free, info, member, here⟩
      · exact .inl same
      · exact .inr ⟨home, info.filename, inside_of_find found around free,
          picked info (List.mem_of_mem_take member), here⟩

/-! Counting. -/

theorem node?_unlinkLogFile (inside : Inside platform manager home) {info : LogFileInfo}
    (valid : Valid info.filename) (free : manager.volume.isDirectory (info.filename :: home) = false)
    (place : Place) : (unlinkLogFile platform manager info).volume.node? place =
      if place = info.filename :: home then none else manager.volume.node? place := by
  have leads : manager.volume.unlink platform.cwd (cStr (manager.logDir ++ slash :: info.filename)) =
      manager.volume.remove? (info.filename :: home) := by
    rw [Volume.unlink, inside.cStr_entry valid, inside.locate_entry valid, Option.bind_some]
  simp only [unlinkLogFile, leads]
  cases removed : manager.volume.remove? (info.filename :: home) with
  | none =>
    by_cases same : place = info.filename :: home
    · rw [if_pos same, same]
      rcases Volume.isDirectory_eq_false.mp free with absent | ⟨file, found⟩
      · exact absent
      · obtain ⟨_, gone⟩ := Volume.exists_remove (Volume.file?_eq_some.mpr found)
        cases removed.symm.trans gone
    · rw [if_neg same]
  | some volume => exact Volume.node?_remove removed place

theorem node?_foldl (inside : Inside platform manager home) {infos : List LogFileInfo}
    (valid : ∀ info ∈ infos, Valid info.filename)
    (free : ∀ info ∈ infos, manager.volume.isDirectory (info.filename :: home) = false) (place : Place) :
    (infos.foldl (unlinkLogFile platform) manager).volume.node? place =
      if place ∈ infos.map (fun info => info.filename :: home) then none
      else manager.volume.node? place := by
  induction infos generalizing manager with
  | nil => rw [List.foldl_nil, List.map_nil, if_neg List.not_mem_nil]
  | cons first rest ih =>
    have keeps := (swept_unlinkLogFile platform manager first).keeps
    have later := ih (inside.of_keeps keeps) (fun info member => valid info (List.mem_cons_of_mem _ member))
      fun info member => (keeps.directories _).trans (free info (List.mem_cons_of_mem _ member))
    have here := node?_unlinkLogFile inside (valid first List.mem_cons_self) (free first List.mem_cons_self)
      place
    rw [List.foldl_cons, later, List.map_cons, here]
    by_cases listed : place ∈ rest.map fun info => info.filename :: home
    · rw [if_pos listed, if_pos (List.mem_cons_of_mem _ listed)]
    · rw [if_neg listed]
      by_cases same : place = first.filename :: home
      · rw [if_pos same, if_pos (same ▸ List.mem_cons_self)]
      · rw [if_neg same, if_neg (List.not_mem_cons_of_ne_of_not_mem same listed)]

/-- Deleting archives of a complete list leaves the rest of the list. -/
theorem matching_foldl (inside : Inside platform manager home) {infos : List LogFileInfo}
    (names : (infos.map (·.filename)).Perm
      ((manager.volume.children home).filter (isArchive manager.logBaseName))) {count : Nat}
    (free : ∀ info ∈ infos.take count,
      manager.volume.isDirectory (info.filename :: home) = false) :
    ((((infos.take count).foldl (unlinkLogFile platform) manager).volume.children home).filter
      (isArchive manager.logBaseName)).Perm ((infos.drop count).map (·.filename)) := by
  have listed : ∀ info ∈ infos, info.filename ∈
      (manager.volume.children home).filter (isArchive manager.logBaseName) := fun info member =>
    names.subset (List.mem_map_of_mem member)
  have valid : ∀ info ∈ infos.take count, Valid info.filename := by
    intro info member
    have found := List.mem_of_mem_filter (listed info (List.mem_of_mem_take member))
    exact (Volume.entry_placed (Volume.mem_children.mp found)).1
  have distinct : ((infos.take count).map (·.filename) ++ (infos.drop count).map (·.filename)).Nodup := by
    rw [← List.map_append, List.take_append_drop]
    exact names.nodup_iff.mpr ((manager.volume.children_nodup home).filter _)
  apply (List.perm_ext_iff_of_nodup ((Volume.children_nodup _ home).filter _)
    (List.nodup_append.mp distinct).2.1).mpr
  intro name
  have gone : name :: home ∈ (infos.take count).map (fun info => info.filename :: home) ↔
      name ∈ (infos.take count).map (·.filename) := by
    simp only [List.mem_map, List.cons.injEq, and_true]
  have whole : name ∈ (manager.volume.children home).filter (isArchive manager.logBaseName) ↔
      name ∈ (infos.take count).map (·.filename) ∨ name ∈ (infos.drop count).map (·.filename) := by
    rw [← names.mem_iff, ← List.mem_append, ← List.map_append, List.take_append_drop]
  rw [List.mem_filter, Volume.mem_children] at whole
  rw [List.mem_filter, Volume.mem_children, node?_foldl inside valid free, ite_ne_left_iff, gone]
  constructor
  · rintro ⟨⟨kept, there⟩, good⟩
    exact (whole.mp ⟨there.symm, good⟩).resolve_left kept
  · intro later
    obtain ⟨there, good⟩ := whole.mpr (.inr later)
    refine ⟨⟨fun earlier => ?_, there.symm⟩, good⟩
    exact (List.nodup_append.mp distinct).2.2 name earlier name later rfl

/-- The scanned files that are too many, the oldest, and the rest. -/
def surplus (platform : Platform) (manager : LogManager) : List LogFileInfo :=
  let logFiles := scanLogFiles platform manager
  logFiles.take (logFiles.length - manager.maxLogFiles.toNat)

def spared (platform : Platform) (manager : LogManager) : List LogFileInfo :=
  let logFiles := scanLogFiles platform manager
  logFiles.drop (logFiles.length - manager.maxLogFiles.toNat)

theorem surplus_append_spared (platform : Platform) (manager : LogManager) :
    surplus platform manager ++ spared platform manager = scanLogFiles platform manager :=
  List.take_append_drop _ _

/-- The surplus is deleted when its number fits its type. -/
theorem cleanupOldLogs_eq_foldl
    (few : (scanLogFiles platform manager).length < manager.maxLogFiles.toNat + 2 ^ 32) :
    cleanupOldLogs platform manager = (surplus platform manager).foldl (unlinkLogFile platform) manager := by
  simp only [cleanupOldLogs, surplus]
  split
  next within => rw [Nat.sub_eq_zero_of_le within, List.take_zero, List.foldl_nil]
  next beyond => rw [Nat.mod_eq_of_lt (by omega)]

theorem mem_matching_of_surplus (documented : Documented platform) {info : LogFileInfo}
    (member : info ∈ surplus platform manager) : info.filename ∈ matching platform manager :=
  (scanLogFiles_names documented manager).subset (List.mem_map_of_mem (List.mem_of_mem_take member))

/-- After a cleanup no more archives are left than allowed, if all can be deleted
and the number of those to delete fits its type. -/
theorem length_cleanupOldLogs (located : Located platform manager home)
    (documented : Documented platform) (dirPart : manager.logDir ≠ [])
    (free : ∀ name, isArchive manager.logBaseName name = true →
      manager.volume.isDirectory (name :: home) = false)
    (few : ((manager.volume.children home).filter (isArchive manager.logBaseName)).length <
      manager.maxLogFiles.toNat + 2 ^ 32) :
    (((cleanupOldLogs platform manager).volume.children home).filter
      (isArchive manager.logBaseName)).length ≤ manager.maxLogFiles.toNat := by
  have names := scanLogFiles_names documented manager
  rw [matching_of_inside located.inside dirPart] at names
  have count := names.length_eq
  rw [List.length_map] at count
  rw [cleanupOldLogs_eq_foldl (count ▸ few)]
  have files : ∀ info ∈ surplus platform manager,
      manager.volume.isDirectory (info.filename :: home) = false := fun info member =>
    free _ (List.mem_filter.mp (mem_matching_of_surplus documented member)).2
  have left := (matching_foldl located.inside names files).length_eq
  rw [List.length_map, List.length_drop] at left
  exact left.trans_le (by omega)

/-! The parts together. -/

theorem rotateLog_cases (platform : Platform) (manager : LogManager) (clock : Clock) :
    manager.volume.rename platform.cwd (cStr (fullLogPath manager))
          (cStr (rotateFilename platform manager clock.rotate)) = none ∧
        rotateLog platform manager clock =
          (openNewLogFile platform { manager with logFile := none } clock.opened).1 ∨
      ∃ volume modified, manager.volume.rename platform.cwd (cStr (fullLogPath manager))
          (cStr (rotateFilename platform manager clock.rotate)) = some volume ∧
        rotateLog platform manager clock = (openNewLogFile platform (cleanupOldLogs platform
          (compressLogFile platform { manager with logFile := none, volume := volume, modified := modified }
            (rotateFilename platform manager clock.rotate) clock.packed).1) clock.opened).1 := by
  unfold rotateLog
  dsimp only
  split
  next refused => exact .inl ⟨refused, rfl⟩
  next volume renamed => exact .inr ⟨volume, _, renamed, rfl⟩

theorem append_cases (manager : LogManager) (place : Place) (text : Bytes) (time : Int) :
    append manager place text time = manager ∨ ∃ file volume modified size,
      manager.volume.file? place = some file ∧
      manager.volume.put? place
        (.file { file with pieces := file.pieces ++ [.line manager.written.length text] }) = some volume ∧
      append manager place text time =
        { manager with volume := volume, modified := modified, currentFileSize := size,
                       written := manager.written ++ [text] } := by
  unfold append
  split
  next => exact .inl rfl
  next file found =>
    split
    next => exact .inl rfl
    next volume stored => exact .inr ⟨file, volume, _, _, found, stored, rfl⟩

end ModbusDatabase.Archives
