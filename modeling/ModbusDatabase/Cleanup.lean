import ModbusDatabase.Rotation

/-! The cleanup: which archives are left, and whose. The scan takes for an archive
whatever begins with the base name and a dot and has the ending anywhere behind. -/

namespace ModbusDatabase.Cleanup
open Message Library FileSystem Logging Archives Rotation
set_option autoImplicit false

variable {platform : Platform} {manager : LogManager} {home : Place}

/-! The newest are left. -/

/-- Everything that the cleanup has to delete can be unlinked. -/
def Unlinkable (platform : Platform) (manager : LogManager) : Prop :=
  ∀ info ∈ surplus platform manager,
    (manager.volume.unlink platform.cwd (cStr (manager.logDir ++ slash :: info.filename))).isSome

instance (platform : Platform) (manager : LogManager) : Decidable (Unlinkable platform manager) :=
  inferInstanceAs (Decidable (∀ _ ∈ _, _))

/-- As many archives are left as allowed, none of them older than one that is gone,
and nothing but these is gone. -/
structure KeepsNewest (platform : Platform) (home : Place) (manager next : LogManager) : Prop where
  count : (matching platform next).length =
    min (matching platform manager).length manager.maxLogFiles.toNat
  kept : matching platform next ⊆ matching platform manager
  newest : ∀ gone ∈ matching platform manager, gone ∉ matching platform next →
    ∀ kept ∈ matching platform next,
      manager.modified (gone :: home) ≤ manager.modified (kept :: home)
  others : ∀ place, (∀ gone ∈ matching platform manager, gone ∉ matching platform next →
    place ≠ gone :: home) → next.volume.node? place = manager.volume.node? place

theorem keepsNewest_refl (within : (matching platform manager).length ≤ manager.maxLogFiles.toNat) :
    KeepsNewest platform home manager manager where
  count := (min_eq_left within).symm
  kept := List.Subset.refl _
  newest _ member gone := absurd member gone
  others _ _ := rfl

/-- The scan lists the archives from the oldest to the newest. -/
theorem scanLogFiles_sorted (documented : Documented platform) (manager : LogManager) :
    (scanLogFiles platform manager).Pairwise fun first second =>
      first.modifyTime ≤ second.modifyTime := by
  rw [scanLogFiles]
  split
  next => exact .nil
  next => exact documented.sort_sorted _

theorem modifyTime_of_scanned (documented : Documented platform) (inside : Inside platform manager home)
    {info : LogFileInfo} (scanned : info ∈ scanLogFiles platform manager) :
    info.modifyTime = manager.modified (info.filename :: home) := by
  have valid := valid_of_matching
    ((scanLogFiles_names documented manager).subset (List.mem_map_of_mem scanned))
  rw [scanLogFiles] at scanned
  split at scanned
  next => exact absurd scanned List.not_mem_nil
  next names opened =>
    obtain ⟨filename, -, looked⟩ := List.mem_filterMap.mp ((documented.sort_perm _).subset scanned)
    obtain ⟨place, leads, there⟩ := Option.bind_eq_some_iff.mp looked
    obtain ⟨node, -, same⟩ := Option.map_eq_some_iff.mp there
    cases same
    rw [inside.cStr_entry valid, inside.find_entry valid] at leads
    exact congrArg manager.modified (Option.some.inj leads).symm

/-- Nothing of the surplus is newer than anything that is spared. -/
theorem modified_le (documented : Documented platform) (inside : Inside platform manager home)
    {first second : LogFileInfo} (front : first ∈ surplus platform manager)
    (behind : second ∈ spared platform manager) :
    manager.modified (first.filename :: home) ≤ manager.modified (second.filename :: home) := by
  have sorted := scanLogFiles_sorted documented manager
  rw [← modifyTime_of_scanned documented inside (List.mem_of_mem_take front),
    ← modifyTime_of_scanned documented inside (List.mem_of_mem_drop behind)]
  rw [← surplus_append_spared] at sorted
  exact (List.pairwise_append.mp sorted).2.2 first front second behind

/-- Whatever can be unlinked is a file of the log directory. -/
theorem file_of_unlinkable (found : manager.volume.find platform.cwd (cStr manager.logDir) = some home)
    (around : manager.volume.isDirectory home = true) {name : Bytes} (valid : Valid name)
    (unlinked : (manager.volume.unlink platform.cwd (cStr (manager.logDir ++ slash :: name))).isSome) :
    Inside platform manager home ∧ manager.volume.isDirectory (name :: home) = false := by
  obtain ⟨rest, removing⟩ := Option.isSome_iff_exists.mp unlinked
  obtain ⟨place, located, removed⟩ := Option.bind_eq_some_iff.mp removing
  obtain ⟨file, there⟩ := Volume.file_of_remove removed
  obtain ⟨inside, rfl⟩ := entry_of_located found around valid located there
  exact ⟨inside, Volume.isDirectory_eq_false.mpr (.inr ⟨file, Volume.file?_eq_some.mp there⟩)⟩

section
variable (documented : Documented platform) (inside : Inside platform manager home)
  (dirPart : manager.logDir ≠ [])
  (few : (scanLogFiles platform manager).length < manager.maxLogFiles.toNat + 2 ^ 32)
  (files : ∀ info ∈ surplus platform manager,
    manager.volume.isDirectory (info.filename :: home) = false)
include documented inside dirPart few files

/-- What a cleanup leaves is what was to be spared. -/
theorem matching_cleanupOldLogs : (matching platform (cleanupOldLogs platform manager)).Perm
    ((spared platform manager).map (·.filename)) := by
  have keeps := (swept_cleanupOldLogs platform manager).keeps
  have names := scanLogFiles_names documented manager
  rw [matching_of_inside inside dirPart] at names
  rw [matching_of_inside (inside.of_keeps keeps) (keeps.logDir ▸ dirPart), keeps.logBaseName,
    cleanupOldLogs_eq_foldl few]
  exact matching_foldl inside names files

/-- What is gone after a cleanup was surplus, and the other way round. -/
theorem mem_surplus_iff (name : Bytes) : name ∈ (surplus platform manager).map (·.filename) ↔
    name ∈ matching platform manager ∧ name ∉ matching platform (cleanupOldLogs platform manager) := by
  have names := scanLogFiles_names documented manager
  have left := matching_cleanupOldLogs documented inside dirPart few files
  have distinct : (matching platform manager).Nodup := by
    rw [matching_of_inside inside dirPart]
    exact (manager.volume.children_nodup home).filter _
  rw [← surplus_append_spared, List.map_append] at names
  have disjoint := (List.nodup_append.mp (names.nodup_iff.mpr distinct)).2.2
  rw [← names.mem_iff, left.mem_iff, List.mem_append]
  constructor
  · exact fun front => ⟨.inl front, fun behind => disjoint name front name behind rfl⟩
  · exact fun gone => gone.1.resolve_right gone.2

theorem keepsNewest_of_files : KeepsNewest platform home manager (cleanupOldLogs platform manager) := by
  have names := scanLogFiles_names documented manager
  have left := matching_cleanupOldLogs documented inside dirPart few files
  have goneIff := mem_surplus_iff documented inside dirPart few files
  refine ⟨?_, ?_, ?_, ?_⟩
  · rw [left.length_eq, ← names.length_eq, List.length_map, List.length_map, spared, List.length_drop]
    omega
  · intro name member
    obtain ⟨info, behind, rfl⟩ := List.mem_map.mp (left.subset member)
    exact names.subset (List.mem_map_of_mem (List.mem_of_mem_drop behind))
  · intro name member gone kept stays
    obtain ⟨first, front, rfl⟩ := List.mem_map.mp ((goneIff name).mpr ⟨member, gone⟩)
    obtain ⟨second, behind, rfl⟩ := List.mem_map.mp (left.subset stays)
    exact modified_le documented inside front behind
  · intro place elsewhere
    have valid : ∀ info ∈ surplus platform manager, Valid info.filename := fun info member =>
      valid_of_matching (mem_matching_of_surplus documented member)
    rw [cleanupOldLogs_eq_foldl few, node?_foldl inside valid files, if_neg]
    intro member
    obtain ⟨info, front, same⟩ := List.mem_map.mp member
    obtain ⟨was, gone⟩ := (goneIff info.filename).mp (List.mem_map_of_mem front)
    exact elsewhere info.filename was gone same.symm

end

/-- A cleanup keeps the newest archives of a directory that can be read. -/
theorem cleanup_keeps_newest (documented : Documented platform) (dirPart : manager.logDir ≠ [])
    {names : List Bytes}
    (opened : manager.volume.opendir platform.cwd (cStr manager.logDir) = some names)
    (few : (matching platform manager).length < 2 ^ 32) (unlinkable : Unlinkable platform manager) :
    ∃ home, manager.volume.find platform.cwd (cStr manager.logDir) = some home ∧
      KeepsNewest platform home manager (cleanupOldLogs platform manager) := by
  obtain ⟨home, found, around, -⟩ := opendir_eq_some opened
  refine ⟨home, found, ?_⟩
  have count := (scanLogFiles_names documented manager).length_eq
  rw [List.length_map] at count
  have files : ∀ info ∈ surplus platform manager,
      Inside platform manager home ∧ manager.volume.isDirectory (info.filename :: home) = false :=
    fun info member => file_of_unlinkable found around
      (valid_of_matching (mem_matching_of_surplus documented member)) (unlinkable info member)
  by_cases within : (scanLogFiles platform manager).length ≤ manager.maxLogFiles.toNat
  · have same : cleanupOldLogs platform manager = manager := if_pos within
    rw [same]
    exact keepsNewest_refl (count ▸ within)
  · have some_ : surplus platform manager ≠ [] := by
      apply List.ne_nil_of_length_pos
      rw [surplus, List.length_take]
      omega
    obtain ⟨info, member⟩ := List.exists_mem_of_ne_nil _ some_
    exact keepsNewest_of_files documented (files info member).1 dirPart (by omega) fun info member =>
      (files info member).2

/-- A disk with empty files of these names in the working directory, each newer than the next. -/
def stocked : List Bytes → LogManager
  | [] => blank.manager
  | name :: rest =>
    let older := stocked rest
    { older with
      volume := (older.volume.put? [name] (.file ⟨[], false⟩)).getD older.volume
      modified := Function.update older.modified [name] rest.length }

/-- The log of that directory as it is when the cleanup of `init` begins. -/
def beforeCleanup (names : List Bytes) (maxLogFiles : UInt32) : LogManager :=
  (openInitial january (stocked names) (everyLine (bytes "app") maxLogFiles) 0).1

theorem cleanup_keeps_newest_two :
    ∃ home, (beforeCleanup [bytes "app.20260103000000.tar.gz", bytes "app.20260102000000.tar.gz",
        bytes "app.20260101000000.tar.gz"] 2).volume.find [] [dot] = some home ∧
      KeepsNewest january home (beforeCleanup [bytes "app.20260103000000.tar.gz",
          bytes "app.20260102000000.tar.gz", bytes "app.20260101000000.tar.gz"] 2)
        (cleanupOldLogs january (beforeCleanup [bytes "app.20260103000000.tar.gz",
          bytes "app.20260102000000.tar.gz", bytes "app.20260101000000.tar.gz"] 2)) :=
  cleanup_keeps_newest documented_january (by decide +kernel) (Option.eq_some_of_isSome (by decide +kernel))
    (by decide +kernel) (by decide +kernel)

/-! Whose archives. -/

/-- The name of an archive that a rotation of this log makes: the base name, fourteen digits
and the ending. -/
def IsOwnArchive (logBaseName filename : Bytes) : Prop :=
  let stamp := (filename.drop (logBaseName.length + 1)).take 14
  stamp.length = 14 ∧ (∀ byte ∈ stamp, Decimal.IsDigit byte) ∧
    filename = logBaseName ++ dot :: (stamp ++ tarGz)

instance (logBaseName filename : Bytes) : Decidable (IsOwnArchive logBaseName filename) :=
  inferInstanceAs (Decidable (_ ∧ _ ∧ _))

/-- A time of which every part fits its place. -/
def Ordinary (tm : Tm) : Prop :=
  (0 ≤ tm.year + 1900 ∧ tm.year + 1900 < 10 ^ 4) ∧
    ∀ part ∈ [tm.mon + 1, tm.mday, tm.hour, tm.min, tm.sec], 0 ≤ part ∧ part < 10 ^ 2

theorem padded_of_lt {width : Nat} {number : Int} (positive : 0 < width) (low : 0 ≤ number)
    (high : number < 10 ^ width) : (padded width number).length = width ∧
      ∀ byte ∈ padded width number, Decimal.IsDigit byte := by
  obtain ⟨value, rfl⟩ := Int.eq_ofNat_of_zero_le low
  have fits := (Decimal.length_render_le_iff positive value).mpr (by exact_mod_cast high)
  exact ⟨by rw [length_padded, max_eq_left fits], fun _ => isDigit_padded⟩

/-- At an ordinary time a rotation makes an archive of this form. -/
theorem isOwnArchive_archiveName (platform : Platform) (logBaseName : Bytes) {time : Int}
    (ordinary : Ordinary (platform.localtime (seconds time))) :
    IsOwnArchive logBaseName (archiveName platform logBaseName time) := by
  obtain ⟨⟨low, high⟩, parts⟩ := ordinary
  have year := padded_of_lt (by decide) low high
  have part := fun number member => padded_of_lt (by decide) (parts number member).1 (parts number member).2
  simp only [List.forall_mem_cons] at part
  obtain ⟨mon, mday, hour, min, sec, -⟩ := part
  have length : (getCurrentTimeString platform time).length = 14 := by
    simp only [getCurrentTimeString, List.length_append, year.1, mon.1, mday.1, hour.1, min.1, sec.1]
  have digits : ∀ byte ∈ getCurrentTimeString platform time, Decimal.IsDigit byte := by
    intro byte member
    simp only [getCurrentTimeString, List.mem_append] at member
    rcases member with ((((inner | inner) | inner) | inner) | inner) | inner
    · exact year.2 byte inner
    · exact mon.2 byte inner
    · exact mday.2 byte inner
    · exact hour.2 byte inner
    · exact min.2 byte inner
    · exact sec.2 byte inner
  have name : archiveName platform logBaseName time =
      logBaseName ++ dot :: (getCurrentTimeString platform time ++ tarGz) := by
    rw [archiveName, rotatedName, List.append_assoc, List.cons_append]
  have stamp : ((archiveName platform logBaseName time).drop (logBaseName.length + 1)).take 14 =
      getCurrentTimeString platform time := by
    rw [name, List.append_cons, List.drop_left', ← length, List.take_left]
    rw [List.length_append, List.length_singleton]
  refine ⟨?_, ?_, ?_⟩
  · rw [stamp, length]
  · rw [stamp]
    exact digits
  · rw [stamp, name]

/-- Archives of this log alone are counted, and they alone are deleted. -/
structure OwnOnly (platform : Platform) (manager next : LogManager) : Prop where
  counted : ∀ info ∈ scanLogFiles platform manager, IsOwnArchive manager.logBaseName info.filename
  deleted : ∀ place, manager.volume.node? place ≠ none → next.volume.node? place = none →
    ∃ name home, place = name :: home ∧ IsOwnArchive manager.logBaseName name

/-- What begins with the base name and a dot and has the ending anywhere is an archive of this log. -/
def Unmistakable (platform : Platform) (manager : LogManager) : Prop :=
  ∀ names ∈ manager.volume.opendir platform.cwd (cStr manager.logDir), ∀ name ∈ names,
    isArchive manager.logBaseName name = true → IsOwnArchive manager.logBaseName name

instance (platform : Platform) (manager : LogManager) : Decidable (Unmistakable platform manager) :=
  inferInstanceAs (Decidable (∀ _ ∈ _, ∀ _ ∈ _, _ → _))

theorem unmistakable_iff : Unmistakable platform manager ↔
    ∀ name ∈ matching platform manager, IsOwnArchive manager.logBaseName name := by
  rw [Unmistakable, matching]
  cases manager.volume.opendir platform.cwd (cStr manager.logDir) with
  | none => simp
  | some names => simp [List.mem_filter]

/-- The cleanup keeps to the archives of this log exactly when nothing in the directory
can be mistaken for one. -/
theorem own_only_iff (documented : Documented platform) (manager : LogManager) :
    OwnOnly platform manager (cleanupOldLogs platform manager) ↔ Unmistakable platform manager := by
  have names := scanLogFiles_names documented manager
  rw [unmistakable_iff]
  constructor
  · intro own name member
    obtain ⟨info, scanned, rfl⟩ := List.mem_map.mp (names.mem_iff.mpr member)
    exact own.counted info scanned
  · intro every
    refine ⟨fun info scanned => every _ (names.subset (List.mem_map_of_mem scanned)), ?_⟩
    intro place there gone
    rcases node?_cleanupOldLogs_cases documented manager place with same | ⟨home, name, -, picked, here⟩
    · exact absurd (same.symm.trans gone) there
    · exact ⟨name, home, here, every name picked⟩

theorem own_only_iff_two : OwnOnly january
    (beforeCleanup [bytes "app.20260102000000.tar.gz", bytes "app.20260101000000.tar.gz"] 1)
    (cleanupOldLogs january
      (beforeCleanup [bytes "app.20260102000000.tar.gz", bytes "app.20260101000000.tar.gz"] 1)) :=
  (own_only_iff documented_january _).mpr (by decide +kernel)

/-- The archive of a log called `app.log` is deleted for that of a log called `app`. -/
theorem not_own_only : ¬OwnOnly january
    (beforeCleanup [bytes "app.20260102000000.tar.gz", bytes "app.log.20260101000000.tar.gz"] 1)
    (cleanupOldLogs january
      (beforeCleanup [bytes "app.20260102000000.tar.gz", bytes "app.log.20260101000000.tar.gz"] 1)) := by
  intro own
  have there : ((beforeCleanup [bytes "app.20260102000000.tar.gz",
      bytes "app.log.20260101000000.tar.gz"] 1).volume.node?
        [bytes "app.log.20260101000000.tar.gz"]).isNone = false := by decide +kernel
  have gone : ((cleanupOldLogs january (beforeCleanup [bytes "app.20260102000000.tar.gz",
      bytes "app.log.20260101000000.tar.gz"] 1)).volume.node?
        [bytes "app.log.20260101000000.tar.gz"]).isNone = true := by decide +kernel
  obtain ⟨name, home, same, ours⟩ := own.deleted _ (fun absent => by rw [absent] at there; cases there)
    (Option.isNone_iff_eq_none.mp gone)
  rw [← (List.cons_eq_cons.mp same).1] at ours
  exact absurd ours (by decide +kernel)

end ModbusDatabase.Cleanup
