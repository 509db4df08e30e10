import ModbusDatabase.Archives
import ModbusDatabase.Library.Transition

/-! Runs of the log: an `init` that is accepted, then any log calls. Two rotations in
one second take the same names, and the later one overwrites the lines of the
earlier; a rotation whose names hold no lines keeps every line there is. -/

namespace ModbusDatabase.Rotation
open Message Library FileSystem Logging Archives Transition
set_option autoImplicit false

def isLine : Piece → Bool
  | .line _ _ => true
  | .foreign _ => false

/-- A disk before any call has written a line. -/
structure Disk where
  volume : Volume LogFile
  modified : Place → Int
  foreign : ∀ place file, volume.file? place = some file → file.pieces.any isLine = false

def Disk.manager (disk : Disk) : LogManager := { volume := disk.volume, modified := disk.modified }

def logging (platform : Platform) (opened : LogManager) : System LogManager Call where
  init := opened
  step manager call := some (log platform manager call)

/-- The names of the active file, the rotated files and the archives. -/
def IsLogName (platform : Platform) (logBaseName active name : Bytes) : Prop :=
  name = active ∨ ∃ time, name = rotatedName platform logBaseName time ∨
    name = archiveName platform logBaseName time

/-- A piece is in a file of the log, or the cleanup deleted the file it was in. -/
def Traced (platform : Platform) (active : Bytes) (home : Place) (manager : LogManager)
    (piece : Piece) : Prop :=
  piece ∈ manager.cleaned ∨ ∃ name, IsLogName platform manager.logBaseName active name ∧
    Holds manager.volume (name :: home) piece

def LinesKept (platform : Platform) (manager : LogManager) : Prop :=
  ∀ number text, manager.written[number]? = some text →
    ∃ active home, manager.logFile = some (active :: home) ∧
      Traced platform active home manager (.line number text)

/-- No file of this name holds a line. -/
def Lineless (volume : Volume LogFile) (place : Place) : Prop :=
  ∀ file ∈ volume.file? place, file.pieces.any isLine = false

instance (volume : Volume LogFile) (place : Place) : Decidable (Lineless volume place) :=
  inferInstanceAs (Decidable (∀ _ ∈ _, _))

/-- If the call rotates, no lines are in files of the two names that the rotation takes. -/
def Clear (platform : Platform) (manager : LogManager) (call : Call) : Prop :=
  manager.currentLevel.number ≤ call.level.number →
  checkRotateCondition manager call.clock.check = true → ∀ place ∈ manager.logFile,
    Lineless manager.volume (rotatedName platform manager.logBaseName call.clock.rotate :: place.tail) ∧
    Lineless manager.volume (archiveName platform manager.logBaseName call.clock.rotate :: place.tail)

instance (platform : Platform) (manager : LogManager) (call : Call) :
    Decidable (Clear platform manager call) :=
  inferInstanceAs (Decidable (_ → _ → ∀ _ ∈ _, _ ∧ _))

variable {platform : Platform} {manager next : LogManager} {active : Bytes} {home : Place}

/-! What an accepted `init` leaves behind. -/

theorem opened_of_located (plain : slash ∉ manager.logBaseName)
    (located : manager.volume.locate platform.cwd (cStr (fullLogPath manager)) = some (active :: home))
    (named : Valid active) (around : manager.volume.isDirectory home = true)
    (free : manager.volume.isDirectory (active :: home) = false) :
    Opened platform manager active home := by
  refine ⟨located, named, around, free, fun whole => ?_⟩
  rw [cStr_eq_self.mpr whole, fullLogPath] at located
  have nonempty : manager.logBaseName ≠ [] := by
    intro empty
    rw [empty, Volume.locate, if_pos List.getLast?_concat] at located
    cases located
  rw [Volume.locate_join nonempty plain, Volume.find_join nonempty plain] at located
  obtain ⟨above, found, stepped⟩ := Option.bind_eq_some_iff.mp located
  obtain ⟨here, up, same, inside⟩ := Volume.step_to_file stepped free
  cases same
  have parts := nulFree_append.mp whole
  exact ⟨rfl, parts.1, ⟨nonempty, plain, List.not_mem_of_not_mem_cons parts.2, here, up⟩, found, inside⟩

theorem opened_of_openNewLogFile {time : Int} (plain : slash ∉ manager.logBaseName)
    (accepted : (openNewLogFile platform manager time).2 = true) :
    ∃ active home, Opened platform (openNewLogFile platform manager time).1 active home ∧
      (openNewLogFile platform manager time).1.logFile = some (active :: home) := by
  obtain ⟨place, located, free, reopened⟩ := openNewLogFile_cases accepted
  cases place with
  | nil =>
    have root : manager.volume.isDirectory [] = true := rfl
    cases root.symm.trans free
  | cons active home =>
    have there : (openNewLogFile platform manager time).1.volume.node? (active :: home) ≠ none := by
      rw [reopened.nodes, if_pos rfl]
      exact Option.some_ne_none _
    obtain ⟨named, around⟩ := Volume.entry_placed there
    rw [reopened.keeps.directories] at around
    exact ⟨active, home, (opened_of_located plain located named around free).of_keeps reopened.keeps,
      reopened.logFile⟩

/-- The settings are in place. -/
structure Configured (settings : Settings) (manager : LogManager) : Prop where
  logDir : manager.logDir = ((splitLast settings.logPath).getD ([dot], settings.logPath)).1
  logBaseName : manager.logBaseName = ((splitLast settings.logPath).getD ([dot], settings.logPath)).2
  sizeThreshold : manager.sizeThreshold = settings.sizeThreshold
  maxLogFiles : manager.maxLogFiles = settings.maxLogFiles

/-- An accepted `init` opens the file with the settings in place. -/
theorem openInitial_cases {settings : Settings} {time : Int}
    (accepted : (openInitial platform manager settings time).2 = true) :
    settings.sizeThreshold ≠ 0 ∧ ∃ configured, Configured settings configured ∧
      openInitial platform manager settings time = openNewLogFile platform configured time := by
  unfold openInitial at accepted ⊢
  split at accepted
  next => cases accepted
  next valid =>
    simp only [if_neg valid] at accepted ⊢
    split at accepted
    next created =>
      rw [not_or, not_or] at valid
      exact ⟨valid.2.1, _, ⟨rfl, rfl, rfl, rfl⟩, if_pos created⟩
    next => cases accepted

theorem openInitial_opened {settings : Settings} {time : Int}
    (accepted : (openInitial platform manager settings time).2 = true) :
    ∃ active home, Opened platform (openInitial platform manager settings time).1 active home ∧
      (openInitial platform manager settings time).1.logFile = some (active :: home) := by
  obtain ⟨-, configured, ready, same⟩ := openInitial_cases accepted
  rw [same] at accepted ⊢
  refine opened_of_openNewLogFile ?_ accepted
  rw [ready.logBaseName]
  cases divided : splitLast settings.logPath with
  | none => exact slash_not_mem_of_none divided
  | some parts => exact slash_not_mem_behind divided

theorem openInitial_written (settings : Settings) (time : Int) :
    (openInitial platform manager settings time).1.written = manager.written := by
  have opening : ∀ manager, (openNewLogFile platform manager time).1.written = manager.written := by
    intro manager
    unfold openNewLogFile
    split
    next => rfl
    next => rfl
  unfold openInitial
  split
  next => rfl
  next =>
    dsimp only
    split
    next => exact opening _
    next => rfl

/-- An accepted `init` has opened the file, and then cleaned up. -/
theorem init_cases {settings : Settings} {time : Int}
    (accepted : (init platform manager settings time).2 = true) :
    (openInitial platform manager settings time).2 = true ∧
      (init platform manager settings time).1 =
        cleanupOldLogs platform (openInitial platform manager settings time).1 := by
  unfold init at accepted ⊢
  dsimp only at accepted ⊢
  split at accepted
  next opened => exact ⟨opened, by rw [if_pos opened]⟩
  next refused => exact absurd accepted refused

/-! One rotation. -/

theorem entry_ne {first second : Bytes} (differ : first ≠ second) : first :: home ≠ second :: home :=
  fun same => differ (List.cons_eq_cons.mp same).1

/-- Nothing is written, and no line that was there gets out of sight. -/
structure Carries (platform : Platform) (active : Bytes) (home : Place) (manager next : LogManager) :
    Prop where
  keeps : Keeps manager next
  written : next.written = manager.written
  traced : ∀ number text, Traced platform active home manager (.line number text) →
    Traced platform active home next (.line number text)

theorem Carries.refl (manager : LogManager) : Carries platform active home manager manager :=
  ⟨.refl manager, rfl, fun _ _ traced => traced⟩

theorem Carries.trans {first second third : LogManager}
    (left : Carries platform active home first second) (right : Carries platform active home second third) :
    Carries platform active home first third where
  keeps := left.keeps.trans right.keeps
  written := right.written.trans left.written
  traced number text traced := right.traced number text (left.traced number text traced)

/-- It is enough to see what becomes of the files. -/
theorem carries_of_held (keeps : Keeps manager next) (written : next.written = manager.written)
    (cleaned : manager.cleaned ⊆ next.cleaned)
    (held : ∀ name number text, IsLogName platform manager.logBaseName active name →
      Holds manager.volume (name :: home) (.line number text) →
      .line number text ∈ next.cleaned ∨ ∃ other, IsLogName platform manager.logBaseName active other ∧
        Holds next.volume (other :: home) (.line number text)) :
    Carries platform active home manager next := by
  refine ⟨keeps, written, fun number text traced => ?_⟩
  unfold Traced at traced ⊢
  rw [keeps.logBaseName]
  rcases traced with gone | ⟨name, known, there⟩
  · exact .inl (cleaned gone)
  · exact held name number text known there

theorem carries_of_swept (swept : Swept manager next) : Carries platform active home manager next := by
  refine carries_of_held swept.keeps swept.written swept.cleaned fun name number text known there => ?_
  rcases swept.held _ _ there with still | gone
  · exact .inr ⟨name, known, still⟩
  · exact .inl gone

theorem carries_of_reopened {place : Place} (reopened : Reopened manager next place) :
    Carries platform active home manager next := by
  refine carries_of_held reopened.keeps reopened.written (fun _ gone => reopened.cleaned ▸ gone)
    fun name number text known there => .inr ⟨name, known, ?_⟩
  obtain ⟨file, found, member⟩ := there
  refine ⟨file, ?_, member⟩
  rw [Volume.file?_eq_some, reopened.nodes]
  split
  next same => rw [← same, found, Option.getD_some]
  next => exact Volume.file?_eq_some.mp found

theorem rotateFilename_eq (time : Int) : rotateFilename platform manager time =
    manager.logDir ++ slash :: rotatedName platform manager.logBaseName time := rfl

theorem rotateFilename_append (time : Int) : rotateFilename platform manager time =
    fullLogPath manager ++ dot :: getCurrentTimeString platform time := by
  rw [rotateFilename, fullLogPath, List.append_assoc, List.cons_append]

theorem archive_path (time : Int) : rotateFilename platform manager time ++ tarGz =
    manager.logDir ++ slash :: archiveName platform manager.logBaseName time := by
  rw [rotateFilename_eq, List.append_assoc, List.cons_append, archiveName]

/-- The active file is moved to the rotated name. A path cut off by a NUL is the same
before and behind the move, which then does nothing. -/
theorem rename_rotated (opened : Opened platform manager active home) {time : Int}
    {volume : Volume LogFile} (renamed : manager.volume.rename platform.cwd
      (cStr (fullLogPath manager)) (cStr (rotateFilename platform manager time)) = some volume) :
    ∃ target file, manager.volume.file? (active :: home) = some file ∧
      (NulFree (fullLogPath manager) → target = rotatedName platform manager.logBaseName time :: home) ∧
      (¬NulFree (fullLogPath manager) → target = active :: home) ∧
      (∀ place, volume.isDirectory place = manager.volume.isDirectory place) ∧
      ∀ other, volume.node? other = if other = target then some (.file file)
        else if other = active :: home then none else manager.volume.node? other := by
  obtain ⟨source, target, file, first, second, found, free, nodes⟩ := Volume.rename_cases renamed
  cases opened.located.symm.trans first
  refine ⟨target, file, found, fun whole => ?_, fun cut => ?_, ?_, nodes⟩
  · have located := (opened.whole whole).2
    have valid : Valid (rotatedName platform manager.logBaseName time) :=
      valid_rotatedName located.named time
    rw [rotateFilename_eq, located.inside.cStr_entry valid, located.inside.locate_entry valid] at second
    exact (Option.some.inj second).symm
  · rw [rotateFilename_append, cStr_append_of_nul cut, first] at second
    exact (Option.some.inj second).symm
  · apply moved_directories found free
    · intro other first second
      rw [nodes, if_neg second, if_neg first]
    · rw [Volume.isDirectory_eq_false, nodes, if_pos rfl]
      split
      next => exact .inr ⟨file, rfl⟩
      next => exact .inl rfl
    · rw [Volume.isDirectory, nodes, if_pos rfl]

theorem not_holds_of_lineless {volume : Volume LogFile} {place : Place} {number : Nat} {text : Bytes}
    (lineless : Lineless volume place) : ¬Holds volume place (.line number text) := by
  rintro ⟨file, found, member⟩
  exact Bool.false_ne_true ((lineless file found).symm.trans (List.any_eq_true.mpr ⟨_, member, rfl⟩))

/-- A file of the log is moved to another name of the log, over no lines. -/
theorem carries_of_moved {source target : Bytes} {file moved : LogFile} (keeps : Keeps manager next)
    (written : next.written = manager.written) (cleaned : next.cleaned = manager.cleaned)
    (known : IsLogName platform manager.logBaseName active target)
    (found : manager.volume.file? (source :: home) = some file)
    (arrived : next.volume.file? (target :: home) = some moved) (whole : moved.pieces = file.pieces)
    (clear : target = source ∨ Lineless manager.volume (target :: home))
    (rest : ∀ name, name ≠ source → name ≠ target →
      next.volume.node? (name :: home) = manager.volume.node? (name :: home)) :
    Carries platform active home manager next := by
  refine carries_of_held keeps written (fun _ gone => cleaned ▸ gone)
    fun name number text listed there => .inr ?_
  by_cases here : name = source
  · obtain ⟨held, same, member⟩ := there
    rw [here] at same
    cases found.symm.trans same
    exact ⟨target, known, moved, arrived, whole ▸ member⟩
  · have elsewhere : name ≠ target := by
      rintro rfl
      rcases clear with same | lineless
      · exact here same
      · exact not_holds_of_lineless lineless there
    exact ⟨name, listed, holds_of_node? (rest name here elsewhere) there⟩

theorem carries_rename (opened : Opened platform manager active home) {time : Int}
    {volume : Volume LogFile} (renamed : manager.volume.rename platform.cwd
      (cStr (fullLogPath manager)) (cStr (rotateFilename platform manager time)) = some volume)
    (clear : Lineless manager.volume (rotatedName platform manager.logBaseName time :: home))
    (modified : Place → Int) : Carries platform active home manager
      { manager with logFile := none, volume := volume, modified := modified } := by
  obtain ⟨target, file, found, whole, cut, directories, nodes⟩ := rename_rotated opened renamed
  have leads : ∃ name, target = name :: home ∧ IsLogName platform manager.logBaseName active name ∧
      (name = active ∨ Lineless manager.volume (name :: home)) := by
    by_cases free : NulFree (fullLogPath manager)
    · exact ⟨_, whole free, .inr ⟨time, .inl rfl⟩, .inr clear⟩
    · exact ⟨active, cut free, .inl rfl, .inl rfl⟩
  obtain ⟨name, rfl, known, free⟩ := leads
  refine carries_of_moved ⟨rfl, rfl, rfl, directories⟩ rfl rfl known found ?_ rfl free ?_
  · rw [Volume.file?_eq_some, nodes, if_pos rfl]
  · intro other first second
    rw [nodes, if_neg (entry_ne second), if_neg (entry_ne first)]

/-- The rotated file is packed into the archive, if anything happens at all. -/
theorem compress_archived (opened : Opened platform manager active home) (time packed : Int) :
    (compressLogFile platform manager (rotateFilename platform manager time) packed).1 = manager ∨
      ∃ volume modified file, NulFree (fullLogPath manager) ∧
        (compressLogFile platform manager (rotateFilename platform manager time) packed).1 =
          { manager with volume := volume, modified := modified } ∧
        manager.volume.file? (rotatedName platform manager.logBaseName time :: home) = some file ∧
        (∀ place, volume.isDirectory place = manager.volume.isDirectory place) ∧
        ∀ other, volume.node? other =
          if other = rotatedName platform manager.logBaseName time :: home then none
          else if other = archiveName platform manager.logBaseName time :: home then
            some (.file { file with packed := true })
          else manager.volume.node? other := by
  rcases compressLogFile_cases platform manager (rotateFilename platform manager time) packed with
    same | ⟨free, volume, target, modified, packing, same⟩
  · exact .inl same
  · obtain ⟨source, file, first, second, found, unblocked, nodes⟩ := tar_cases packing
    have whole : NulFree (fullLogPath manager) := by
      rw [rotateFilename_append] at free
      exact (nulFree_append.mp free).1
    have located := (opened.whole whole).2
    rw [rotateFilename_eq, located.inside.locate_entry (valid_rotatedName located.named time)] at first
    rw [archive_path, located.inside.locate_entry (valid_archiveName located.named time)] at second
    cases first
    cases second
    refine .inr ⟨volume, modified, file, whole, same, found, ?_, nodes⟩
    apply moved_directories found unblocked
    · intro other first second
      rw [nodes, if_neg first, if_neg second]
    · rw [Volume.isDirectory, nodes, if_pos rfl]
    · rw [Volume.isDirectory_eq_false, nodes, if_pos rfl]
      split
      next => exact .inl rfl
      next => exact .inr ⟨_, rfl⟩

theorem keeps_compress (opened : Opened platform manager active home) (time packed : Int) :
    Keeps manager (compressLogFile platform manager (rotateFilename platform manager time) packed).1 := by
  rcases compress_archived opened time packed with same | ⟨_, _, _, _, same, _, directories, _⟩
  · rw [same]
    exact .refl manager
  · rw [same]
    exact ⟨rfl, rfl, rfl, directories⟩

theorem carries_compress (opened : Opened platform manager active home) (time packed : Int)
    (clear : NulFree (fullLogPath manager) →
      Lineless manager.volume (archiveName platform manager.logBaseName time :: home)) :
    Carries platform active home manager
      (compressLogFile platform manager (rotateFilename platform manager time) packed).1 := by
  rcases compress_archived opened time packed with
    same | ⟨volume, modified, file, whole, same, found, directories, nodes⟩
  · rw [same]
    exact .refl manager
  · rw [same]
    refine carries_of_moved ⟨rfl, rfl, rfl, directories⟩ rfl rfl (.inr ⟨time, .inr rfl⟩) found
      (?_ : _ = some { file with packed := true }) rfl (.inr (clear whole)) ?_
    · rw [Volume.file?_eq_some, nodes, if_neg (entry_ne (archiveName_ne_rotated _ _ _)), if_pos rfl]
    · intro other first second
      rw [nodes, if_neg (entry_ne first), if_neg (entry_ne second)]

/-- The move of the active file leaves the archive alone. -/
theorem lineless_renamed (opened : Opened platform manager active home) {time : Int}
    {volume : Volume LogFile} (renamed : manager.volume.rename platform.cwd
      (cStr (fullLogPath manager)) (cStr (rotateFilename platform manager time)) = some volume)
    (whole : NulFree (fullLogPath manager))
    (clear : Lineless manager.volume (archiveName platform manager.logBaseName time :: home)) :
    Lineless volume (archiveName platform manager.logBaseName time :: home) := by
  obtain ⟨target, file, -, target_, -, -, nodes⟩ := rename_rotated opened renamed
  have moved : archiveName platform manager.logBaseName time :: home ≠ target := by
    rw [target_ whole]
    exact entry_ne (archiveName_ne_rotated _ _ _)
  have source : archiveName platform manager.logBaseName time :: home ≠ active :: home := by
    rw [(opened.whole whole).1]
    exact entry_ne (archiveName_ne _ _ _)
  intro held found
  apply clear held
  rw [Option.mem_def, Volume.file?_of_node?] at found
  · exact found
  · rw [nodes, if_neg moved, if_neg source]

/-- The stages of a rotation, with the file open again at the end. -/
theorem rotateLog_stages (opened : Opened platform manager active home) (clock : Clock) :
    Reopened { manager with logFile := none } (rotateLog platform manager clock) (active :: home) ∨
      ∃ volume modified moved packed, manager.volume.rename platform.cwd (cStr (fullLogPath manager))
          (cStr (rotateFilename platform manager clock.rotate)) = some volume ∧
        moved = { manager with logFile := none, volume := volume, modified := modified } ∧
        packed = (compressLogFile platform moved (rotateFilename platform moved clock.rotate)
          clock.packed).1 ∧
        Keeps manager moved ∧ Keeps moved packed ∧
        Reopened (cleanupOldLogs platform packed) (rotateLog platform manager clock) (active :: home) := by
  rcases rotateLog_cases platform manager clock with ⟨-, same⟩ | ⟨volume, modified, renamed, same⟩
  · have closed : Opened platform { manager with logFile := none } active home :=
      opened.of_keeps ⟨rfl, rfl, rfl, fun _ => rfl⟩
    rw [same]
    exact .inl (closed.reopened clock.opened)
  · obtain ⟨_, _, _, _, _, directories, _⟩ := rename_rotated opened renamed
    have moved : Keeps manager { manager with logFile := none, volume := volume, modified := modified } :=
      ⟨rfl, rfl, rfl, directories⟩
    have packed := keeps_compress (opened.of_keeps moved) clock.rotate clock.packed
    have cleaned := (moved.trans packed).trans (swept_cleanupOldLogs platform _).keeps
    refine .inr ⟨volume, modified, _, _, renamed, rfl, rfl, moved, packed, ?_⟩
    rw [same]
    exact (opened.of_keeps cleaned).reopened clock.opened

theorem keeps_rotateLog (opened : Opened platform manager active home) (clock : Clock) :
    Keeps manager (rotateLog platform manager clock) := by
  rcases rotateLog_stages opened clock with reopened | ⟨_, _, _, packed, _, _, _, first, second, reopened⟩
  · exact ⟨reopened.keeps.logDir, reopened.keeps.logBaseName, reopened.keeps.maxLogFiles,
      reopened.keeps.directories⟩
  · have cleaned := (swept_cleanupOldLogs platform packed).keeps
    exact ((first.trans second).trans cleaned).trans reopened.keeps

theorem logFile_rotateLog (opened : Opened platform manager active home) (clock : Clock) :
    (rotateLog platform manager clock).logFile = some (active :: home) := by
  rcases rotateLog_stages opened clock with reopened | ⟨_, _, _, _, _, _, _, _, _, reopened⟩
  · exact reopened.logFile
  · exact reopened.logFile

theorem carries_rotateLog (opened : Opened platform manager active home) {clock : Clock}
    (rotated : Lineless manager.volume (rotatedName platform manager.logBaseName clock.rotate :: home))
    (archive : Lineless manager.volume (archiveName platform manager.logBaseName clock.rotate :: home)) :
    Carries platform active home manager (rotateLog platform manager clock) := by
  rcases rotateLog_stages opened clock with
    reopened | ⟨volume, modified, _, _, renamed, rfl, rfl, keeps, _, reopened⟩
  · have closed : Carries platform active home manager { manager with logFile := none } :=
      carries_of_held ⟨rfl, rfl, rfl, fun _ => rfl⟩ rfl (fun _ gone => gone)
        fun name _ _ known there => .inr ⟨name, known, there⟩
    exact closed.trans (carries_of_reopened reopened)
  · have moved := carries_rename opened renamed rotated modified
    have packed := carries_compress (opened.of_keeps keeps) clock.rotate clock.packed
      fun whole => lineless_renamed opened renamed whole archive
    have cleaned := (moved.trans packed).trans (carries_of_swept (swept_cleanupOldLogs platform _))
    exact cleaned.trans (carries_of_reopened reopened)

/-! Whole runs. -/

structure Recorded (platform : Platform) (active : Bytes) (home : Place) (manager : LogManager) :
    Prop where
  opened : Opened platform manager active home
  logFile : manager.logFile = some (active :: home)
  traced : ∀ number text, manager.written[number]? = some text →
    Traced platform active home manager (.line number text)

theorem Recorded.of_carries (recorded : Recorded platform active home manager)
    (carries : Carries platform active home manager next) (logFile : next.logFile = some (active :: home)) :
    Recorded platform active home next where
  opened := recorded.opened.of_keeps carries.keeps
  logFile := logFile
  traced number text written :=
    carries.traced number text (recorded.traced number text (carries.written ▸ written))

theorem recorded_append (recorded : Recorded platform active home manager) (text : Bytes) (time : Int) :
    Recorded platform active home (append manager (active :: home) text time) := by
  rcases append_cases manager (active :: home) text time with
    same | ⟨file, volume, modified, size, found, stored, same⟩
  · rw [same]
    exact recorded
  · rw [same]
    refine ⟨recorded.opened.of_keeps ⟨rfl, rfl, rfl, Volume.isDirectory_put_file stored⟩,
      recorded.logFile, fun number line written => ?_⟩
    rw [List.getElem?_append] at written
    split at written
    next =>
      rcases recorded.traced number line written with gone | ⟨name, known, held, there, member⟩
      · exact .inl gone
      · refine .inr ⟨name, known, ?_⟩
        by_cases here : name :: home = active :: home
        · rw [here, found] at there
          cases there
          exact ⟨_, by rw [Volume.file?_put stored, if_pos here], List.mem_append_left _ member⟩
        · exact ⟨held, by rw [Volume.file?_put stored, if_neg here, there], member⟩
    -- the line just written
    next beyond =>
      obtain ⟨short, same⟩ := List.getElem?_eq_some_iff.mp written
      rw [List.length_singleton] at short
      have last : number = manager.written.length := by omega
      subst last
      rw [List.getElem_singleton] at same
      refine .inr ⟨active, .inl rfl, _, by rw [Volume.file?_put stored, if_pos rfl], ?_⟩
      rw [← same]
      exact List.mem_append_right _ (List.mem_singleton.mpr rfl)

theorem recorded_log (recorded : Recorded platform active home manager) {call : Call}
    (clear : Clear platform manager call) :
    Recorded platform active home (log platform manager call) := by
  unfold log
  split
  next => exact recorded
  next passes =>
    have rotated : Recorded platform active home
        (if checkRotateCondition manager call.clock.check then rotateLog platform manager call.clock
          else manager) := by
      split
      next due =>
        obtain ⟨rotated, archive⟩ := clear (not_lt.mp passes) due _ recorded.logFile
        exact recorded.of_carries (carries_rotateLog recorded.opened rotated archive)
          (logFile_rotateLog recorded.opened call.clock)
      next => exact recorded
    dsimp only
    rw [rotated.logFile]
    exact recorded_append rotated _ _

theorem recorded_init (disk : Disk) {settings : Settings} {time : Int}
    (accepted : (init platform disk.manager settings time).2 = true) :
    ∃ active home, Recorded platform active home (init platform disk.manager settings time).1 := by
  obtain ⟨ready, same⟩ := init_cases accepted
  obtain ⟨active, home, opened, logFile⟩ := openInitial_opened ready
  have swept := swept_cleanupOldLogs platform (openInitial platform disk.manager settings time).1
  rw [same]
  refine ⟨active, home, opened.of_keeps swept.keeps, swept.logFile.trans logFile, ?_⟩
  intro number text written
  rw [swept.written, openInitial_written] at written
  cases written

/-! The result, with a run in which the seconds differ and one in which they do not. -/

/-- The coordinated time of January 1970, and a stable sort. -/
def january : Platform where
  cwd := []
  localtime time := ⟨70, 0, 1 + time / 86400, time / 3600 % 24, time / 60 % 60, time % 60⟩
  sort infos := infos.insertionSort fun first second => first.modifyTime ≤ second.modifyTime

theorem documented_january : Documented january where
  sort_perm := List.perm_insertionSort _
  sort_sorted := List.pairwise_insertionSort _

def blank : Disk where
  volume := .empty
  modified _ := 0
  foreign place file found := by
    rw [Volume.file?_empty] at found
    cases found

/-- A call for which the clock stands still. -/
def callAt (second : Int) (message : Bytes) : Call :=
  let time := second * 10 ^ 9
  ⟨.info, message, ⟨time, time, time, time, time⟩⟩

/-- Each line is enough for a rotation. -/
def everyLine (logPath : Bytes) (maxLogFiles : UInt32) : Settings :=
  ⟨.info, logPath, 1, 3600, maxLogFiles⟩

/-- While every rotation finds its two names free of lines, no line is lost. -/
theorem lines_kept (platform : Platform) (disk : Disk) {settings : Settings} {time : Int}
    (accepted : (init platform disk.manager settings time).2 = true) {manager : LogManager}
    (reached : (logging platform (init platform disk.manager settings time).1).ReachableWhen
      (Clear platform) manager) : LinesKept platform manager := by
  obtain ⟨active, home, start⟩ := recorded_init disk accepted
  have recorded : Recorded platform active home manager := by
    apply reached.invariant (Recorded platform active home) start
    intro manager call next _ recorded clear step
    cases step
    exact recorded_log recorded clear
  intro number text written
  exact ⟨active, home, recorded.logFile, recorded.traced number text written⟩

theorem lines_kept_seconds :
    ∃ manager, ((logging january (init january blank.manager (everyLine (bytes "app.log") 5) 0).1).restrict
        (Clear january)).exec (init january blank.manager (everyLine (bytes "app.log") 5) 0).1
          [callAt 1 (bytes "a"), callAt 2 (bytes "b"), callAt 3 (bytes "c")] = some manager ∧
      manager.written.length = 3 ∧ LinesKept january manager := by
  have run : (((logging january (init january blank.manager
      (everyLine (bytes "app.log") 5) 0).1).restrict (Clear january)).exec
      (init january blank.manager (everyLine (bytes "app.log") 5) 0).1
      [callAt 1 (bytes "a"), callAt 2 (bytes "b"), callAt 3 (bytes "c")]).any
        (fun manager => manager.written.length == 3) = true := by decide +kernel
  obtain ⟨manager, ended, count⟩ := (Option.any_eq_true _ _).mp run
  exact ⟨manager, ended, eq_of_beq count,
    lines_kept january blank (by decide +kernel) (System.reachableWhen_of_exec _ ended)⟩

/-- The second rotation of a second overwrites the archive of the first. -/
theorem lines_not_kept :
    (init january blank.manager (everyLine (bytes "app.log") 5) 0).2 = true ∧
    ∃ manager, (logging january (init january blank.manager (everyLine (bytes "app.log") 5) 0).1).exec
        (init january blank.manager (everyLine (bytes "app.log") 5) 0).1
          [callAt 1 (bytes "a"), callAt 1 (bytes "b"), callAt 1 (bytes "c")] = some manager ∧
      ¬LinesKept january manager := by
  refine ⟨by decide +kernel, ?_⟩
  have run : ((logging january (init january blank.manager (everyLine (bytes "app.log") 5) 0).1).exec
      (init january blank.manager (everyLine (bytes "app.log") 5) 0).1
      [callAt 1 (bytes "a"), callAt 1 (bytes "b"), callAt 1 (bytes "c")]).any
        (fun manager => decide (manager.written[0]? = some (bytes "[19700101000001] [INFO] a\n") ∧
          .line 0 (bytes "[19700101000001] [INFO] a\n") ∉ manager.cleaned ∧
          ∀ file ∈ manager.volume.files,
            .line 0 (bytes "[19700101000001] [INFO] a\n") ∉ file.pieces)) = true := by decide +kernel
  obtain ⟨manager, ended, facts⟩ := (Option.any_eq_true _ _).mp run
  obtain ⟨written, kept, nowhere⟩ := of_decide_eq_true facts
  refine ⟨manager, ended, fun every => ?_⟩
  obtain ⟨_, _, _, gone | ⟨_, _, file, found, member⟩⟩ := every 0 _ written
  · exact kept gone
  · exact nowhere file (Volume.mem_files found) member

end ModbusDatabase.Rotation
