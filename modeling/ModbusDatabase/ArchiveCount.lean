import ModbusDatabase.Rotation

/-! The bound on the archives. The directory of the log is scanned under the part of
the path before its last slash, which for a file of the root directory is empty and
names nothing: there no archive is ever deleted. -/

namespace ModbusDatabase.ArchiveCount
open Message Library FileSystem Logging Archives Rotation Transition
set_option autoImplicit false

/-- A name made of the base name, a number and the ending. -/
def isStamped (logBaseName filename : Bytes) : Bool :=
  let stamp := (filename.drop (logBaseName.length + 1)).takeWhile fun byte =>
    decide (Decimal.IsDigit byte)
  decide (stamp ≠ [] ∧ filename = logBaseName ++ dot :: (stamp ++ tarGz))

/-- The archives of the log that are in its directory. -/
def archives (manager : LogManager) (home : Place) : List Bytes :=
  (manager.volume.children home).filter (isStamped manager.logBaseName)

def WithinLimit (limit : UInt32) (manager : LogManager) : Prop :=
  ∃ active home, manager.logFile = some (active :: home) ∧
    (archives manager home).length ≤ limit.toNat

/-- The path has no slash, or something that is free of NULs before its last one. -/
def Scannable (logPath : Bytes) : Prop :=
  ∀ parts ∈ splitLast logPath, parts.1 ≠ [] ∧ NulFree parts.1

instance (logPath : Bytes) : Decidable (Scannable logPath) :=
  inferInstanceAs (Decidable (∀ _ ∈ _, _ ∧ _))

/-- How many files the scan of a directory takes for archives. -/
def archiveCount (manager : LogManager) (home : Place) : Nat :=
  ((manager.volume.children home).filter (isArchive manager.logBaseName)).length

/-- Everything that looks like an archive can be unlinked. -/
def Deletable (manager : LogManager) : Prop :=
  ∀ place ∈ manager.logFile, ∀ name ∈ manager.volume.children place.tail,
    isArchive manager.logBaseName name = true → manager.volume.isDirectory (name :: place.tail) = false

instance (manager : LogManager) : Decidable (Deletable manager) :=
  inferInstanceAs (Decidable (∀ _ ∈ _, ∀ _ ∈ _, _ → _))

/-- The number of archives to delete fits the 32 bits it is kept in. -/
def Countable (manager : LogManager) : Prop :=
  ∀ place ∈ manager.logFile, archiveCount manager place.tail < manager.maxLogFiles.toNat + 2 ^ 32

instance (manager : LogManager) : Decidable (Countable manager) :=
  inferInstanceAs (Decidable (∀ _ ∈ _, _))

variable {platform : Platform} {manager next : LogManager} {active : Bytes} {home : Place}
  {limit : UInt32}

theorem isArchive_of_isStamped {logBaseName filename : Bytes}
    (stamped : isStamped logBaseName filename = true) : isArchive logBaseName filename = true := by
  obtain ⟨-, same⟩ := of_decide_eq_true stamped
  generalize (filename.drop (logBaseName.length + 1)).takeWhile
    (fun byte => decide (Decimal.IsDigit byte)) = stamp at same
  have front : (logBaseName ++ [dot]).isPrefixOf filename = true := by
    rw [List.isPrefixOf_iff_prefix, same]
    exact ⟨stamp ++ tarGz, by simp⟩
  have ending : tarGz <:+: filename := by
    rw [same, ← List.cons_append, ← List.append_assoc]
    exact (List.suffix_append _ _).isInfix
  rw [isArchive, front, Bool.true_and]
  exact decide_eq_true ending

theorem length_archives_le (manager : LogManager) (home : Place) :
    (archives manager home).length ≤ archiveCount manager home := by
  apply List.Sublist.length_le
  apply List.monotone_filter_right
  intro name stamped
  exact isArchive_of_isStamped stamped

/-! How each stage of a rotation changes the number. -/

/-- No file has a name with a NUL. -/
theorem archiveCount_of_nul (nul : ¬NulFree manager.logBaseName) (home : Place) :
    archiveCount manager home = 0 := by
  rw [archiveCount, List.length_eq_zero_iff, List.filter_eq_nil_iff]
  intro name member archive
  have valid := (Volume.entry_placed (Volume.mem_children.mp member)).1
  have front := List.isPrefixOf_iff_prefix.mp (Bool.and_eq_true_iff.mp archive).1
  apply nul
  intro zero
  exact valid.2.2.1 (front.subset (List.mem_append_left _ zero))

theorem archiveCount_renamed {volume : Volume LogFile} {old new : Bytes}
    (renamed : manager.volume.rename platform.cwd old new = some volume) (modified : Place → Int)
    (home : Place) :
    archiveCount { manager with logFile := none, volume := volume, modified := modified } home ≤
      archiveCount manager home + 1 := by
  obtain ⟨source, target, file, _, _, _, _, nodes⟩ := Volume.rename_cases renamed
  apply Volume.children_grown target
  intro other there
  rw [nodes] at there
  split at there
  next same => exact .inl same
  next =>
    split at there
    next => exact absurd rfl there
    next => exact .inr there

theorem archiveCount_compressed (platform : Platform) (manager : LogManager) (srcFile : Bytes)
    (time : Int) (home : Place) : archiveCount (compressLogFile platform manager srcFile time).1 home ≤
    archiveCount manager home + 1 := by
  rcases compressLogFile_cases platform manager srcFile time with
    same | ⟨_, volume, target, modified, packed, same⟩
  · rw [same]
    exact Nat.le_succ _
  · rw [same]
    obtain ⟨source, file, _, _, _, _, nodes⟩ := tar_cases packed
    apply Volume.children_grown target
    intro other there
    rw [nodes] at there
    split at there
    next => exact absurd rfl there
    next =>
      split at there
      next same => exact .inl same
      next => exact .inr there

/-- The active file is not an archive. -/
theorem archiveCount_reopened (reopened : Reopened manager next (manager.logBaseName :: home)) :
    archiveCount next home ≤ archiveCount manager home := by
  rw [archiveCount, archiveCount, reopened.keeps.logBaseName]
  apply Volume.children_le
  intro name archive there
  rw [reopened.nodes] at there
  split at there
  next same =>
    rw [(List.cons_eq_cons.mp same).1, isArchive_base] at archive
    cases archive
  next => exact there

/-! What every step keeps. -/

/-- The directory can be scanned, and what the scan picks from it can be deleted. -/
structure Tidy (platform : Platform) (active : Bytes) (home : Place) (manager : LogManager) : Prop where
  opened : Opened platform manager active home
  dirPart : manager.logDir ≠ []
  dirFree : NulFree manager.logDir
  files : ∀ name, isArchive manager.logBaseName name = true →
    manager.volume.isDirectory (name :: home) = false

theorem Tidy.of_keeps (tidy : Tidy platform active home manager) (keeps : Keeps manager next) :
    Tidy platform active home next where
  opened := tidy.opened.of_keeps keeps
  dirPart := keeps.logDir ▸ tidy.dirPart
  dirFree := keeps.logDir ▸ tidy.dirFree
  files name archive := by
    rw [keeps.directories]
    exact tidy.files name (keeps.logBaseName ▸ archive)

/-- With a directory free of NULs, it is the base name that cuts the path off. -/
theorem Tidy.archiveCount_of_cut (tidy : Tidy platform active home manager)
    (cut : ¬NulFree (fullLogPath manager)) : archiveCount manager home = 0 := by
  apply archiveCount_of_nul
  intro free
  apply cut
  exact nulFree_append.mpr ⟨tidy.dirFree, List.not_mem_cons_of_ne_of_not_mem (by decide) free⟩

theorem Tidy.archiveCount_cleanupOldLogs (tidy : Tidy platform active home manager)
    (documented : Documented platform)
    (few : archiveCount manager home < manager.maxLogFiles.toNat + 2 ^ 32) :
    archiveCount (cleanupOldLogs platform manager) home ≤ manager.maxLogFiles.toNat := by
  have keeps := (swept_cleanupOldLogs platform manager).keeps
  by_cases whole : NulFree (fullLogPath manager)
  · rw [archiveCount, keeps.logBaseName]
    exact length_cleanupOldLogs (tidy.opened.whole whole).2 documented tidy.dirPart tidy.files few
  · have cut : ¬NulFree (fullLogPath (cleanupOldLogs platform manager)) := by
      rw [keeps.fullLogPath]
      exact whole
    rw [(tidy.of_keeps keeps).archiveCount_of_cut cut]
    exact Nat.zero_le _

theorem Tidy.archiveCount_reopened (tidy : Tidy platform active home manager)
    (reopened : Reopened manager next (active :: home)) :
    archiveCount next home ≤ archiveCount manager home := by
  by_cases whole : NulFree (fullLogPath manager)
  · rw [(tidy.opened.whole whole).1] at reopened
    exact ArchiveCount.archiveCount_reopened reopened
  · have cut : ¬NulFree (fullLogPath next) := by
      rw [reopened.keeps.fullLogPath]
      exact whole
    rw [(tidy.of_keeps reopened.keeps).archiveCount_of_cut cut]
    exact Nat.zero_le _

/-- A rotation adds two names at most before it cleans up. -/
theorem archiveCount_rotateLog (documented : Documented platform)
    (tidy : Tidy platform active home manager)
    (count : archiveCount manager home ≤ manager.maxLogFiles.toNat) (clock : Clock) :
    archiveCount (rotateLog platform manager clock) home ≤ manager.maxLogFiles.toNat := by
  rcases rotateLog_stages tidy.opened clock with
    reopened | ⟨volume, modified, moved, packed, renamed, isMoved, isPacked, first, second, reopened⟩
  · have closed : Tidy platform active home { manager with logFile := none } :=
      tidy.of_keeps ⟨rfl, rfl, rfl, fun _ => rfl⟩
    exact (closed.archiveCount_reopened reopened).trans count
  · have moving : archiveCount moved home ≤ archiveCount manager home + 1 := by
      rw [isMoved]
      exact archiveCount_renamed renamed modified home
    have packing : archiveCount packed home ≤ archiveCount moved home + 1 := by
      rw [isPacked]
      exact archiveCount_compressed platform moved _ clock.packed home
    have kept := first.trans second
    have few : archiveCount packed home < packed.maxLogFiles.toNat + 2 ^ 32 := by
      rw [kept.maxLogFiles]
      omega
    have cleaned := (tidy.of_keeps kept).archiveCount_cleanupOldLogs documented few
    have swept := (swept_cleanupOldLogs platform packed).keeps
    rw [kept.maxLogFiles] at cleaned
    exact (((tidy.of_keeps kept).of_keeps swept).archiveCount_reopened reopened).trans cleaned

/-! Whole runs. -/

structure Limited (platform : Platform) (limit : UInt32) (active : Bytes) (home : Place)
    (manager : LogManager) : Prop where
  tidy : Tidy platform active home manager
  logFile : manager.logFile = some (active :: home)
  allowed : manager.maxLogFiles = limit
  count : archiveCount manager home ≤ limit.toNat

theorem Limited.of_keeps (limited : Limited platform limit active home manager) (keeps : Keeps manager next)
    (logFile : next.logFile = some (active :: home)) (count : archiveCount next home ≤ limit.toNat) :
    Limited platform limit active home next where
  tidy := limited.tidy.of_keeps keeps
  logFile := logFile
  allowed := keeps.maxLogFiles.trans limited.allowed
  count := count

theorem limited_append (limited : Limited platform limit active home manager) (text : Bytes) (time : Int) :
    Limited platform limit active home (append manager (active :: home) text time) := by
  rcases append_cases manager (active :: home) text time with
    same | ⟨file, volume, modified, size, found, stored, same⟩
  · rw [same]
    exact limited
  · rw [same]
    refine limited.of_keeps ⟨rfl, rfl, rfl, Volume.isDirectory_put_file stored⟩ limited.logFile ?_
    refine (Volume.children_le fun name _ there => ?_).trans limited.count
    by_cases here : name :: home = active :: home
    · rw [here, Volume.file?_eq_some.mp found]
      exact Option.some_ne_none _
    · rw [Volume.node?_put stored, if_neg here] at there
      exact there

theorem limited_log (documented : Documented platform)
    (limited : Limited platform limit active home manager) (call : Call) :
    Limited platform limit active home (log platform manager call) := by
  unfold log
  split
  next => exact limited
  next =>
    have rotated : Limited platform limit active home
        (if checkRotateCondition manager call.clock.check then rotateLog platform manager call.clock
          else manager) := by
      split
      next =>
        have count := archiveCount_rotateLog documented limited.tidy
          (limited.allowed ▸ limited.count) call.clock
        rw [limited.allowed] at count
        exact limited.of_keeps (keeps_rotateLog limited.tidy.opened call.clock)
          (logFile_rotateLog limited.tidy.opened call.clock) count
      next => exact limited
    dsimp only
    rw [rotated.logFile]
    exact limited_append rotated _ _

theorem openInitial_settings {settings : Settings} {time : Int}
    (accepted : (openInitial platform manager settings time).2 = true) :
    (openInitial platform manager settings time).1.logDir =
        ((splitLast settings.logPath).getD ([dot], settings.logPath)).1 ∧
      (openInitial platform manager settings time).1.maxLogFiles = settings.maxLogFiles := by
  obtain ⟨-, configured, ready, same⟩ := openInitial_cases accepted
  rw [same] at accepted ⊢
  obtain ⟨_, _, _, reopened⟩ := openNewLogFile_cases accepted
  exact ⟨reopened.keeps.logDir.trans ready.logDir, reopened.keeps.maxLogFiles.trans ready.maxLogFiles⟩

theorem limited_init (documented : Documented platform) {settings : Settings} {time : Int}
    (accepted : (init platform manager settings time).2 = true)
    (scannable : Scannable settings.logPath)
    (deletable : Deletable (openInitial platform manager settings time).1)
    (countable : Countable (openInitial platform manager settings time).1) :
    ∃ active home, Limited platform settings.maxLogFiles active home
      (init platform manager settings time).1 := by
  obtain ⟨ready, same⟩ := init_cases accepted
  obtain ⟨active, home, opened, logFile⟩ := openInitial_opened ready
  obtain ⟨logDir, allowed⟩ := openInitial_settings ready
  rw [same]
  generalize (openInitial platform manager settings time).1 = start at *
  have dirPart : start.logDir ≠ [] ∧ NulFree start.logDir := by
    rw [logDir]
    cases divided : splitLast settings.logPath with
    | none => exact (by decide : ([dot] : Bytes) ≠ [] ∧ NulFree [dot])
    | some parts => exact scannable parts divided
  have tidy : Tidy platform active home start := by
    refine ⟨opened, dirPart.1, dirPart.2, fun name archive => ?_⟩
    by_contra directory
    rw [Bool.not_eq_false] at directory
    have there : start.volume.node? (name :: home) ≠ none := by
      rw [Volume.isDirectory_iff.mp directory]
      exact Option.some_ne_none _
    have file := deletable _ logFile name (Volume.mem_children.mpr there) archive
    cases directory.symm.trans file
  have swept := swept_cleanupOldLogs platform start
  have count := tidy.archiveCount_cleanupOldLogs documented (countable _ logFile)
  rw [allowed] at count
  exact ⟨active, home, tidy.of_keeps swept.keeps, swept.logFile.trans logFile,
    swept.keeps.maxLogFiles.trans allowed, count⟩

/-- Where the directory of the log can be scanned, no more archives are left than allowed. -/
theorem archives_within_limit (platform : Platform) (documented : Documented platform) (disk : Disk)
    {settings : Settings} {time : Int}
    (accepted : (init platform disk.manager settings time).2 = true)
    (scannable : Scannable settings.logPath)
    (deletable : Deletable (openInitial platform disk.manager settings time).1)
    (countable : Countable (openInitial platform disk.manager settings time).1) {manager : LogManager}
    (reached : (logging platform (init platform disk.manager settings time).1).Reachable manager) :
    WithinLimit settings.maxLogFiles manager := by
  obtain ⟨active, home, start⟩ := limited_init documented accepted scannable deletable countable
  have limited : Limited platform settings.maxLogFiles active home manager := by
    apply reached.invariant (Limited platform settings.maxLogFiles active home) start
    intro manager call next limited step
    cases step
    exact limited_log documented limited call
  exact ⟨active, home, limited.logFile, (length_archives_le manager home).trans limited.count⟩

theorem archives_within_limit_seconds :
    ∃ manager, (logging january (init january blank.manager
        (everyLine (bytes "log/app.log") 1) 0).1).exec
        (init january blank.manager (everyLine (bytes "log/app.log") 1) 0).1
        [callAt 1 (bytes "a"), callAt 2 (bytes "b"), callAt 3 (bytes "c"), callAt 4 (bytes "d")] =
          some manager ∧
      manager.written.length = 4 ∧ WithinLimit 1 manager := by
  have run : ((logging january (init january blank.manager
      (everyLine (bytes "log/app.log") 1) 0).1).exec
      (init january blank.manager (everyLine (bytes "log/app.log") 1) 0).1
      [callAt 1 (bytes "a"), callAt 2 (bytes "b"), callAt 3 (bytes "c"), callAt 4 (bytes "d")]).any
        (fun manager => manager.written.length == 4) = true := by decide +kernel
  obtain ⟨manager, ended, count⟩ := (Option.any_eq_true _ _).mp run
  exact ⟨manager, ended, eq_of_beq count,
    archives_within_limit january documented_january blank (by decide +kernel) (by decide +kernel)
      (by decide +kernel) (by decide +kernel) (System.reachable_of_exec _ ended)⟩

/-- Beside a log of the root directory the archives pile up. -/
theorem archives_not_within_limit :
    (init january blank.manager (everyLine (bytes "/app.log") 1) 0).2 = true ∧
    ∃ manager, (logging january (init january blank.manager
        (everyLine (bytes "/app.log") 1) 0).1).exec
        (init january blank.manager (everyLine (bytes "/app.log") 1) 0).1
        [callAt 1 (bytes "a"), callAt 2 (bytes "b"), callAt 3 (bytes "c")] = some manager ∧
      ¬WithinLimit 1 manager := by
  refine ⟨by decide +kernel, ?_⟩
  have run : ((logging january (init january blank.manager (everyLine (bytes "/app.log") 1) 0).1).exec
      (init january blank.manager (everyLine (bytes "/app.log") 1) 0).1
      [callAt 1 (bytes "a"), callAt 2 (bytes "b"), callAt 3 (bytes "c")]).any
        (fun manager => decide (manager.logFile = some [bytes "app.log"] ∧
          (archives manager []).length = 2)) = true := by decide +kernel
  obtain ⟨manager, ended, facts⟩ := (Option.any_eq_true _ _).mp run
  obtain ⟨open_, two⟩ := of_decide_eq_true facts
  refine ⟨manager, ended, ?_⟩
  rintro ⟨active, home, there, few⟩
  cases open_.symm.trans there
  rw [two] at few
  exact absurd few (by decide)

end ModbusDatabase.ArchiveCount
