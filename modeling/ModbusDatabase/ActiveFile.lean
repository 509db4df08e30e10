import ModbusDatabase.Rotation

/-! When the active file is rotated, and how long it gets. The elapsed time is compared
as an unsigned number, so a clock that was set back counts as a very long time. -/

namespace ModbusDatabase.ActiveFile
open Message Library FileSystem Logging Archives Rotation Transition
set_option autoImplicit false

/-! The decision. -/

/-- The file is large, or the interval has passed since it was opened. -/
def Due (manager : LogManager) (now : Int) : Prop :=
  manager.sizeThreshold.toNat ≤ manager.currentFileSize ∨
    (manager.timeInterval.toNat : Int) * 10 ^ 9 ≤ now - manager.fileCreateTime

instance (manager : LogManager) (now : Int) : Decidable (Due manager now) :=
  inferInstanceAs (Decidable (_ ∨ _))

/-- The size decides, or the clock was not set back, or by less than a second, or so far
that the interval and the seconds it was set back exceed the unsigned numbers. -/
def ClockTrusted (manager : LogManager) (now : Int) : Prop :=
  manager.sizeThreshold.toNat ≤ manager.currentFileSize ∨ manager.fileCreateTime ≤ now ∨
    (manager.fileCreateTime - now < 10 ^ 9 ∧ 0 < manager.timeInterval.toNat) ∨
    2 ^ 64 < (manager.timeInterval.toNat : Int) + (manager.fileCreateTime - now) / 10 ^ 9

instance (manager : LogManager) (now : Int) : Decidable (ClockTrusted manager now) :=
  inferInstanceAs (Decidable (_ ∨ _))

variable {platform : Platform} {manager next : LogManager} {active : Bytes} {home : Place}

theorem checkRotateCondition_eq_true (opened : manager.logFile.isSome) (now : Int) :
    checkRotateCondition manager now = true ↔ manager.sizeThreshold.toNat ≤ manager.currentFileSize ∨
      manager.timeInterval.toNat ≤ ((now - manager.fileCreateTime).tdiv (10 ^ 9) % 2 ^ 64).toNat := by
  have present : manager.logFile.isNone = false := by
    rw [Option.isNone_eq_false_iff]
    exact opened
  rw [checkRotateCondition, present, if_neg Bool.false_ne_true, Bool.or_eq_true, decide_eq_true_iff,
    decide_eq_true_iff]

/-- Time that has gone forward is compared as it is. -/
theorem elapsed_forward {interval : Nat} {elapsed : Int} (forward : 0 ≤ elapsed)
    (short : elapsed.tdiv (10 ^ 9) < 2 ^ 63) :
    interval ≤ (elapsed.tdiv (10 ^ 9) % 2 ^ 64).toNat ↔ (interval : Int) * 10 ^ 9 ≤ elapsed := by
  rw [Int.tdiv_eq_ediv_of_nonneg forward] at short ⊢
  omega

/-- Time that has gone back is compared as the seconds that are missing to 2^64. -/
theorem elapsed_back {interval : Nat} {elapsed : Int} (back : elapsed < 0) (bounded : interval < 2 ^ 64)
    (short : -2 ^ 63 ≤ elapsed.tdiv (10 ^ 9)) :
    interval ≤ (elapsed.tdiv (10 ^ 9) % 2 ^ 64).toNat ↔
      ¬((-elapsed < 10 ^ 9 ∧ 0 < interval) ∨ 2 ^ 64 < (interval : Int) + -elapsed / 10 ^ 9) := by
  have negated : elapsed.tdiv (10 ^ 9) = -(-elapsed / 10 ^ 9) := by
    rw [← Int.tdiv_eq_ediv_of_nonneg (by omega), Int.neg_tdiv, neg_neg]
  rw [negated] at short ⊢
  omega

/-- The decision follows the size and the time exactly as long as the clock can be trusted. -/
theorem rotation_due_iff (manager : LogManager) (now : Int) (opened : manager.logFile.isSome)
    (counted : -2 ^ 63 ≤ (now - manager.fileCreateTime).tdiv (10 ^ 9) ∧
      (now - manager.fileCreateTime).tdiv (10 ^ 9) < 2 ^ 63) :
    (checkRotateCondition manager now = true ↔ Due manager now) ↔ ClockTrusted manager now := by
  rw [checkRotateCondition_eq_true opened, Due, ClockTrusted]
  by_cases large : manager.sizeThreshold.toNat ≤ manager.currentFileSize
  · exact iff_of_true (iff_of_true (.inl large) (.inl large)) (.inl large)
  · by_cases forward : manager.fileCreateTime ≤ now
    · rw [elapsed_forward (by omega) counted.2]
      exact iff_of_true Iff.rfl (.inr (.inl forward))
    · rw [elapsed_back (by omega) manager.timeInterval.toNat_lt counted.1]
      have gone : ¬(manager.timeInterval.toNat : Int) * 10 ^ 9 ≤ now - manager.fileCreateTime := by omega
      have same : -(now - manager.fileCreateTime) = manager.fileCreateTime - now := by omega
      simp only [large, false_or, forward, gone, iff_false, not_not, same]

/-- A log that rotates once in an hour, opened two hours after midnight. -/
def hourly : LogManager :=
  (init january blank.manager ⟨.info, bytes "app.log", 1048576, 3600, 10⟩ (7200 * 10 ^ 9)).1

theorem rotation_due_iff_hour : checkRotateCondition hourly (10800 * 10 ^ 9) = true ↔
    Due hourly (10800 * 10 ^ 9) :=
  (rotation_due_iff hourly (10800 * 10 ^ 9) (by decide +kernel) (by decide +kernel)).mpr
    (by decide +kernel)

/-- The clock set back by one second. -/
theorem rotation_not_due : hourly.logFile.isSome = true ∧
    checkRotateCondition hourly (7199 * 10 ^ 9) = true ∧ ¬Due hourly (7199 * 10 ^ 9) := by
  decide +kernel

/-! The counter. -/

/-- The counter says how long the active file is. -/
def Counted (manager : LogManager) : Prop :=
  ∃ place ∈ manager.logFile, ∃ file ∈ manager.volume.file? place, manager.currentFileSize = file.size

/-- If the call rotates, the file can be moved to its rotated name and packed. -/
def Succeeds (platform : Platform) (manager : LogManager) (call : Call) : Prop :=
  manager.currentLevel.number ≤ call.level.number →
  checkRotateCondition manager call.clock.check = true →
    ∃ volume ∈ manager.volume.rename platform.cwd (cStr (fullLogPath manager))
        (cStr (rotateFilename platform manager call.clock.rotate)),
      (compressLogFile platform { manager with logFile := none, volume := volume }
        (rotateFilename platform manager call.clock.rotate) call.clock.packed).2 = true

instance (platform : Platform) (manager : LogManager) (call : Call) :
    Decidable (Succeeds platform manager call) :=
  inferInstanceAs (Decidable (_ → _ → ∃ _ ∈ _, _))

/-- The active file is shorter than this. -/
def ShorterThan (manager : LogManager) (length : Nat) : Prop :=
  ∃ place ∈ manager.logFile, ∃ file ∈ manager.volume.file? place, file.size < length

theorem size_append (file : LogFile) (number : Nat) (text : Bytes) :
    LogFile.size { file with pieces := file.pieces ++ [.line number text] } = file.size + text.length := by
  simp [LogFile.size, Piece.data]

theorem counted_openNewLogFile {time : Int} (accepted : (openNewLogFile platform manager time).2 = true) :
    Counted (openNewLogFile platform manager time).1 := by
  unfold openNewLogFile at accepted ⊢
  split at accepted
  next => cases accepted
  next volume place found =>
    obtain ⟨-, -, nodes⟩ := Volume.openAppend_cases found
    have there : volume.file? place = some ((manager.volume.file? place).getD ⟨[], false⟩) := by
      rw [Volume.file?_eq_some, nodes, if_pos rfl]
    exact ⟨place, rfl, _, there, by simp only [there, Option.map_some, Option.getD_some]⟩

theorem counted_of_nodes (counted : Counted manager) (logFile : next.logFile = manager.logFile)
    (size : next.currentFileSize = manager.currentFileSize)
    (active : ∀ place ∈ manager.logFile, next.volume.node? place = manager.volume.node? place) :
    Counted next := by
  obtain ⟨place, opened, file, found, count⟩ := counted
  exact ⟨place, logFile ▸ opened, file, (Volume.file?_of_node? (active place opened)).trans found,
    size.trans count⟩

/-! The settings. -/

theorem sizeThreshold_openNewLogFile (manager : LogManager) (time : Int) :
    (openNewLogFile platform manager time).1.sizeThreshold = manager.sizeThreshold := by
  unfold openNewLogFile
  split
  next => rfl
  next => rfl

theorem counters_unlinkLogFile (platform : Platform) (manager : LogManager) (info : LogFileInfo) :
    (unlinkLogFile platform manager info).sizeThreshold = manager.sizeThreshold ∧
      (unlinkLogFile platform manager info).currentFileSize = manager.currentFileSize := by
  rcases unlinkLogFile_cases platform manager info with same | ⟨_, _, _, -, -, -, same⟩
  · rw [same]
    exact ⟨rfl, rfl⟩
  · rw [same]
    exact ⟨rfl, rfl⟩

theorem counters_cleanupOldLogs (platform : Platform) (manager : LogManager) :
    (cleanupOldLogs platform manager).sizeThreshold = manager.sizeThreshold ∧
      (cleanupOldLogs platform manager).currentFileSize = manager.currentFileSize := by
  have fold : ∀ (infos : List LogFileInfo) (manager : LogManager),
      (infos.foldl (unlinkLogFile platform) manager).sizeThreshold = manager.sizeThreshold ∧
        (infos.foldl (unlinkLogFile platform) manager).currentFileSize = manager.currentFileSize := by
    intro infos
    induction infos with
    | nil => exact fun _ => ⟨rfl, rfl⟩
    | cons info rest ih =>
      intro manager
      have first := counters_unlinkLogFile platform manager info
      have later := ih (unlinkLogFile platform manager info)
      exact ⟨later.1.trans first.1, later.2.trans first.2⟩
  unfold cleanupOldLogs
  dsimp only
  split
  next => exact ⟨rfl, rfl⟩
  next => exact fold _ manager

theorem sizeThreshold_rotateLog (platform : Platform) (manager : LogManager) (clock : Clock) :
    (rotateLog platform manager clock).sizeThreshold = manager.sizeThreshold := by
  rcases rotateLog_cases platform manager clock with ⟨-, same⟩ | ⟨volume, modified, -, same⟩
  · rw [same, sizeThreshold_openNewLogFile]
  · rw [same, sizeThreshold_openNewLogFile, (counters_cleanupOldLogs platform _).1]
    rcases compressLogFile_cases platform
      { manager with logFile := none, volume := volume, modified := modified }
      (rotateFilename platform manager clock.rotate) clock.packed with packed | ⟨-, _, _, _, -, packed⟩
    · rw [packed]
    · rw [packed]

/-! One rotation. -/

/-- A command that is whole has packed its file. -/
theorem nulFree_of_compressed {srcFile : Bytes} {time : Int}
    (packed : (compressLogFile platform manager srcFile time).2 = true) : NulFree srcFile := by
  unfold compressLogFile at packed
  split at packed
  next => cases packed
  next =>
    split at packed
    next => cases packed
    next whole => exact not_not.mp whole

/-- What a cleanup deletes is not the active file. -/
theorem active_of_cleanupOldLogs (documented : Documented platform)
    (opened : Opened platform manager active home) :
    (cleanupOldLogs platform manager).volume.node? (active :: home) =
      manager.volume.node? (active :: home) := by
  rcases node?_cleanupOldLogs_cases documented manager (active :: home) with
    same | ⟨around, name, inside, picked, here⟩
  · exact same
  · obtain ⟨rfl, rfl⟩ := List.cons_eq_cons.mp here
    have archive : isArchive manager.logBaseName active = true := (List.mem_filter.mp picked).2
    have front := List.isPrefixOf_iff_prefix.mp (Bool.and_eq_true_iff.mp archive).1
    have baseFree : NulFree manager.logBaseName := fun zero =>
      opened.named.2.2.1 (front.subset (List.mem_append_left _ zero))
    have whole : NulFree (fullLogPath manager) :=
      nulFree_append.mpr ⟨inside.dirFree, List.not_mem_cons_of_ne_of_not_mem (by decide) baseFree⟩
    rw [(opened.whole whole).1, isArchive_base] at archive
    cases archive

/-- A rotation that succeeds has no active file left to open. -/
theorem rotateLog_renews (opened : Opened platform manager active home) {clock : Clock}
    {volume : Volume LogFile} (renamed : manager.volume.rename platform.cwd (cStr (fullLogPath manager))
      (cStr (rotateFilename platform manager clock.rotate)) = some volume)
    (free : NulFree (rotateFilename platform manager clock.rotate)) :
    ∃ ready, Opened platform ready active home ∧ ready.volume.node? (active :: home) = none ∧
      rotateLog platform manager clock = (openNewLogFile platform ready clock.opened).1 := by
  have whole : NulFree (fullLogPath manager) := by
    rw [rotateFilename_append] at free
    exact (nulFree_append.mp free).1
  obtain ⟨base, -⟩ := opened.whole whole
  rcases rotateLog_cases platform manager clock with ⟨refused, -⟩ | ⟨other, modified, again, same⟩
  · cases renamed.symm.trans refused
  · cases renamed.symm.trans again
    obtain ⟨target, file, -, rotated, -, directories, nodes⟩ := rename_rotated opened renamed
    have moved : Keeps manager { manager with logFile := none, volume := volume, modified := modified } :=
      ⟨rfl, rfl, rfl, directories⟩
    have movedOpened := opened.of_keeps moved
    have gone : volume.node? (active :: home) = none := by
      rw [nodes, rotated whole, base, if_neg (entry_ne (rotatedName_ne _ _ _).symm), if_pos rfl]
    have packs := keeps_compress movedOpened clock.rotate clock.packed
    have absent : (compressLogFile platform
        { manager with logFile := none, volume := volume, modified := modified }
        (rotateFilename platform manager clock.rotate) clock.packed).1.volume.node? (active :: home) =
          none := by
      rcases compress_archived movedOpened clock.rotate clock.packed with
        kept | ⟨_, _, _, -, kept, -, -, nodes⟩
      · exact (congrArg (fun next => next.volume.node? (active :: home)) kept).trans gone
      · refine (congrArg (fun next => next.volume.node? (active :: home)) kept).trans ?_
        rw [nodes, base, if_neg (entry_ne (rotatedName_ne _ _ _).symm),
          if_neg (entry_ne (archiveName_ne _ _ _).symm), ← base, gone]
    have swept := swept_cleanupOldLogs platform (compressLogFile platform
      { manager with logFile := none, volume := volume, modified := modified }
      (rotateFilename platform manager clock.rotate) clock.packed).1
    exact ⟨_, (movedOpened.of_keeps packs).of_keeps swept.keeps,
      not_imp_not.mp (swept.shrunk (active :: home)) absent, same⟩

theorem counted_rotateLog (opened : Opened platform manager active home) {call : Call} (succeeds : Succeeds platform manager call)
    (passes : manager.currentLevel.number ≤ call.level.number)
    (due : checkRotateCondition manager call.clock.check = true) :
    Counted (rotateLog platform manager call.clock) ∧
      (rotateLog platform manager call.clock).currentFileSize = 0 := by
  obtain ⟨volume, renamed, packed⟩ := succeeds passes due
  obtain ⟨ready, readyOpened, absent, same⟩ := rotateLog_renews opened renamed (nulFree_of_compressed packed)
  have counted := counted_openNewLogFile (readyOpened.opens call.clock.opened)
  have reopened := readyOpened.reopened call.clock.opened
  rw [same]
  refine ⟨counted, ?_⟩
  obtain ⟨place, isOpen, file, found, count⟩ := counted
  cases reopened.logFile.symm.trans isOpen
  have fresh := reopened.nodes (active :: home)
  rw [if_pos rfl, Volume.file?, absent, Option.getD_none, Volume.file?_eq_some.mp found] at fresh
  cases fresh
  exact count

/-! Whole runs. -/

/-- The file is open and counted, and the threshold is that of the settings. -/
structure Sized (platform : Platform) (sizeThreshold : UInt64) (active : Bytes) (home : Place)
    (manager : LogManager) : Prop where
  opened : Opened platform manager active home
  logFile : manager.logFile = some (active :: home)
  threshold : manager.sizeThreshold = sizeThreshold
  counted : Counted manager

variable {sizeThreshold : UInt64}

/-- Before a line is written the file is shorter than the threshold. -/
theorem sized_rotated (positive : 0 < sizeThreshold.toNat)
    (sized : Sized platform sizeThreshold active home manager) {call : Call}
    (succeeds : Succeeds platform manager call)
    (passes : manager.currentLevel.number ≤ call.level.number) :
    Sized platform sizeThreshold active home (if checkRotateCondition manager call.clock.check then
        rotateLog platform manager call.clock else manager) ∧
      (if checkRotateCondition manager call.clock.check then rotateLog platform manager call.clock
        else manager).currentFileSize < sizeThreshold.toNat := by
  split
  next due =>
    obtain ⟨counted, empty⟩ := counted_rotateLog sized.opened succeeds passes due
    refine ⟨⟨sized.opened.of_keeps (keeps_rotateLog sized.opened call.clock),
      logFile_rotateLog sized.opened call.clock, ?_, counted⟩, empty ▸ positive⟩
    rw [sizeThreshold_rotateLog, sized.threshold]
  next early =>
    refine ⟨sized, ?_⟩
    have isOpen : manager.logFile.isSome = true := by rw [sized.logFile]; rfl
    rw [checkRotateCondition_eq_true isOpen, not_or, sized.threshold] at early
    exact not_le.mp early.1

theorem sized_append (sized : Sized platform sizeThreshold active home manager) (text : Bytes) (time : Int) :
    Sized platform sizeThreshold active home (append manager (active :: home) text time) ∧
      (append manager (active :: home) text time).currentFileSize ≤
        manager.currentFileSize + text.length := by
  unfold append
  split
  next => exact ⟨sized, Nat.le_add_right _ _⟩
  next file found =>
    split
    next => exact ⟨sized, Nat.le_add_right _ _⟩
    next volume stored =>
      refine ⟨⟨sized.opened.of_keeps ⟨rfl, rfl, rfl, Volume.isDirectory_put_file stored⟩,
        sized.logFile, sized.threshold, active :: home, sized.logFile, _,
        by rw [Option.mem_def, Volume.file?_put stored, if_pos rfl], ?_⟩, le_rfl⟩
      obtain ⟨place, isOpen, held, there, count⟩ := sized.counted
      cases sized.logFile.symm.trans isOpen
      cases found.symm.trans there
      rw [size_append, count]

theorem sized_log (positive : 0 < sizeThreshold.toNat)
    (sized : Sized platform sizeThreshold active home manager) {call : Call}
    (succeeds : Succeeds platform manager call) :
    Sized platform sizeThreshold active home (log platform manager call) ∧
      ((log platform manager call).written ≠ manager.written →
        ShorterThan (log platform manager call)
          (sizeThreshold.toNat + (lineText platform call).length)) := by
  unfold log
  split
  next => exact ⟨sized, fun wrote => absurd rfl wrote⟩
  next passes =>
    obtain ⟨rotated, small⟩ := sized_rotated positive sized succeeds (not_lt.mp passes)
    dsimp only
    rw [rotated.logFile]
    obtain ⟨appended, size⟩ := sized_append rotated (lineText platform call) call.clock.line
    refine ⟨appended, fun _ => ?_⟩
    obtain ⟨place, isOpen, file, found, count⟩ := appended.counted
    refine ⟨place, isOpen, file, found, ?_⟩
    rw [← count]
    exact size.trans_lt (Nat.add_lt_add_right small _)

/-- An accepted `init` opens the file with the threshold in place, and it is not zero. -/
theorem openInitial_sized {settings : Settings} {time : Int}
    (accepted : (openInitial platform manager settings time).2 = true) :
    0 < settings.sizeThreshold.toNat ∧
      (openInitial platform manager settings time).1.sizeThreshold = settings.sizeThreshold ∧
      Counted (openInitial platform manager settings time).1 := by
  obtain ⟨nonzero, configured, ready, same⟩ := openInitial_cases accepted
  rw [same] at accepted ⊢
  exact ⟨Nat.pos_of_ne_zero fun zero => nonzero (UInt64.toNat_inj.mp zero),
    (sizeThreshold_openNewLogFile _ _).trans ready.sizeThreshold, counted_openNewLogFile accepted⟩

theorem sized_init (documented : Documented platform) {settings : Settings} {time : Int}
    (accepted : (init platform manager settings time).2 = true) :
    0 < settings.sizeThreshold.toNat ∧ ∃ active home,
      Sized platform settings.sizeThreshold active home (init platform manager settings time).1 := by
  obtain ⟨ready, same⟩ := init_cases accepted
  obtain ⟨active, home, opened, logFile⟩ := openInitial_opened ready
  obtain ⟨positive, threshold, counted⟩ := openInitial_sized ready
  have swept := swept_cleanupOldLogs platform (openInitial platform manager settings time).1
  have counters := counters_cleanupOldLogs platform (openInitial platform manager settings time).1
  rw [same]
  refine ⟨positive, active, home, opened.of_keeps swept.keeps, swept.logFile.trans logFile,
    counters.1.trans threshold, counted_of_nodes counted swept.logFile counters.2 ?_⟩
  intro place isOpen
  cases logFile.symm.trans isOpen
  exact active_of_cleanupOldLogs documented opened

/-- As long as every rotation succeeds the counter is exact, and a line that is written
leaves the file shorter than the threshold and the line together. -/
theorem active_file_bounded (platform : Platform) (documented : Documented platform) (start : LogManager)
    {settings : Settings} {time : Int} (accepted : (init platform start settings time).2 = true)
    {manager : LogManager}
    (reached : (logging platform (init platform start settings time).1).ReachableWhen
      (Succeeds platform) manager) :
    Counted manager ∧ ∀ call, Succeeds platform manager call →
      (log platform manager call).written ≠ manager.written →
      ShorterThan (log platform manager call)
        (settings.sizeThreshold.toNat + (lineText platform call).length) := by
  obtain ⟨positive, active, home, ready⟩ := sized_init documented accepted
  have sized : Sized platform settings.sizeThreshold active home manager := by
    apply reached.invariant (Sized platform settings.sizeThreshold active home) ready
    intro manager call next _ sized succeeds step
    cases step
    exact (sized_log positive sized succeeds).1
  exact ⟨sized.counted, fun call succeeds => (sized_log positive sized succeeds).2⟩

theorem active_file_bounded_seconds : ∃ manager,
    ((logging january (init january blank.manager (everyLine (bytes "app.log") 5) 0).1).restrict
        (Succeeds january)).exec (init january blank.manager (everyLine (bytes "app.log") 5) 0).1
      [callAt 1 (bytes "a"), callAt 2 (bytes "b")] = some manager ∧ Counted manager ∧
    ShorterThan (log january manager (callAt 3 (bytes "c")))
      (1 + (lineText january (callAt 3 (bytes "c"))).length) := by
  have run : (((logging january (init january blank.manager
      (everyLine (bytes "app.log") 5) 0).1).restrict (Succeeds january)).exec
      (init january blank.manager (everyLine (bytes "app.log") 5) 0).1
      [callAt 1 (bytes "a"), callAt 2 (bytes "b")]).any
        (fun manager => decide (Succeeds january manager (callAt 3 (bytes "c")) ∧
          (log january manager (callAt 3 (bytes "c"))).written ≠ manager.written)) = true := by
    decide +kernel
  obtain ⟨manager, ended, facts⟩ := (Option.any_eq_true _ _).mp run
  obtain ⟨succeeds, wrote⟩ := of_decide_eq_true facts
  obtain ⟨counted, bounded⟩ := active_file_bounded january documented_january blank.manager
    (by decide +kernel) (System.reachableWhen_of_exec _ ended)
  exact ⟨manager, ended, counted, bounded _ succeeds wrote⟩

end ModbusDatabase.ActiveFile
