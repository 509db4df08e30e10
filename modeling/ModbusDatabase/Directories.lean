import ModbusDatabase.Rotation

/-! The two routines that make a directory with everything above it. Both cut the
path at its last slash; a path is handed over through `c_str()`. -/

namespace ModbusDatabase.Directories
open Message Library FileSystem Logging Rotation
set_option autoImplicit false

/-- `S_ISDIR`. -/
def isDir : Node LogFile → Bool
  | .directory => true
  | .file _ => false

/-- A prefix of the path: the whole of it, or what stands before a slash. -/
def IsFront (front dir : Bytes) : Prop := front = dir ∨ front ++ [slash] <+: dir

instance (front dir : Bytes) : Decidable (IsFront front dir) := inferInstanceAs (Decidable (_ ∨ _))

theorem mem_inits_of_isFront {front dir : Bytes} (isFront : IsFront front dir) : front ∈ dir.inits := by
  rw [List.mem_inits]
  rcases isFront with rfl | inner
  · exact List.prefix_refl _
  · exact (List.prefix_append _ _).trans inner

variable {platform : Platform} {volume next : Volume LogFile} {cwd place : Place}
  {dir front parent behind : Bytes}

/-! Fronts. -/

theorem isFront_of_undivided (undivided : splitLast dir = none) : IsFront front dir ↔ front = dir := by
  constructor
  · rintro (same | ⟨rest, same⟩)
    · exact same
    · apply absurd (slash_not_mem_of_none undivided)
      rw [← same]
      simp
  · exact .inl

theorem isFront_of_divided (divided : splitLast dir = some (parent, behind)) :
    IsFront front dir ↔ front = dir ∨ IsFront front parent := by
  have whole := splitLast_eq divided
  have last := slash_not_mem_behind divided
  constructor
  · rintro (same | ⟨rest, cut⟩)
    · exact .inl same
    · right
      rw [whole, List.append_assoc, List.singleton_append] at cut
      rcases List.append_eq_append_iff.mp cut with ⟨between, same, ends⟩ | ⟨between, same, ends⟩
      · cases between with
        | nil => exact .inl (same.trans (List.append_nil _)).symm
        | cons byte later =>
          obtain ⟨rfl, -⟩ := List.cons_eq_cons.mp ends
          exact .inr ⟨later, by rw [same, List.append_assoc, List.singleton_append]⟩
      -- a front beyond the last slash would have another slash behind it
      · cases between with
        | nil => exact .inl (same.trans (List.append_nil _))
        | cons byte later =>
          obtain ⟨-, inner⟩ := List.cons_eq_cons.mp ends
          apply absurd last
          rw [inner]
          simp
  · rintro (same | rfl | inner)
    · exact .inl same
    · exact .inr ⟨behind, by rw [whole, List.append_assoc, List.singleton_append]⟩
    · exact .inr (inner.trans ⟨slash :: behind, whole.symm⟩)

/-! What the system is handed over. -/

theorem cStr_split (free : NulFree front) (rest : Bytes) :
    cStr (front ++ slash :: rest) = front ++ slash :: cStr rest := by
  rw [cStr_append_of_nulFree free]
  rfl

theorem components_split (free : NulFree front) (rest : Bytes) :
    components (cStr (front ++ slash :: rest)) = components front ++ components (cStr rest) := by
  rw [cStr_split free, components_append]

theorem start_split (free : NulFree front) (nonempty : front ≠ []) (rest : Bytes) :
    start cwd (cStr (front ++ slash :: rest)) = start cwd front := by
  rw [cStr_split free, start, List.head?_append_of_ne_nil _ nonempty, start]

theorem nonempty_of_cStr (path : cStr dir ≠ []) : dir ≠ [] := by
  rintro rfl
  exact path rfl

/-- A front that does not begin with a NUL names something on the way to what the path names. -/
theorem front_on_way (cwd : Place) (isFront : IsFront front dir) (nonempty : front ≠ []) (path : cStr dir ≠ []) :
    cStr front ≠ [] ∧ placed cwd (cStr front) <:+ placed cwd (cStr dir) ∧
      (Plain (cStr dir) → Plain (cStr front)) := by
  rcases isFront with rfl | ⟨rest, same⟩
  · exact ⟨path, List.suffix_refl _, id⟩
  · rw [List.append_assoc, List.singleton_append] at same
    subst same
    by_cases free : NulFree front
    · rw [cStr_eq_self.mpr free]
      refine ⟨nonempty, ?_, fun plain name member => plain name ?_⟩
      · rw [placed, placed, components_split free, start_split free nonempty, List.reverse_append,
          List.append_assoc]
        exact List.suffix_append _ _
      · rw [components_split free]
        exact List.mem_append_left _ member
    · rw [cStr_append_of_nul free] at path ⊢
      exact ⟨path, List.suffix_refl _, id⟩

/-! What a routine may add. -/

/-- What was there stays as it was; what is new is a directory that a front of the path names. -/
structure Grown (cwd : Place) (dir : Bytes) (volume next : Volume LogFile) : Prop where
  kept : ∀ place, volume.node? place ≠ none → next.node? place = volume.node? place
  added : ∀ place, volume.node? place = none → next.node? place ≠ none →
    next.node? place = some .directory ∧
      ∃ front, IsFront front dir ∧ front ≠ [] ∧ place = placed cwd (cStr front)

theorem Grown.refl (cwd : Place) (dir : Bytes) (volume : Volume LogFile) : Grown cwd dir volume volume where
  kept _ _ := rfl
  added _ absent there := absurd absent there

theorem Grown.widen (grown : Grown cwd parent volume next)
    (wider : ∀ front, IsFront front parent → IsFront front dir) : Grown cwd dir volume next where
  kept := grown.kept
  added place absent there := by
    obtain ⟨directory, front, isFront, nonempty, same⟩ := grown.added place absent there
    exact ⟨directory, front, wider front isFront, nonempty, same⟩

theorem Grown.isDirectory (grown : Grown cwd dir volume next) (around : volume.isDirectory place = true) :
    next.isDirectory place = true := by
  rw [Volume.isDirectory_iff] at around ⊢
  rw [grown.kept place (by rw [around]; exact Option.some_ne_none _), around]

theorem Grown.mkdir {made : Volume LogFile} (grown : Grown cwd dir volume next) (nonempty : dir ≠ [])
    (absent : volume.node? (placed cwd (cStr dir)) = none)
    (nodes : ∀ other, made.node? other =
      if other = placed cwd (cStr dir) then some .directory else next.node? other) :
    Grown cwd dir volume made where
  kept place there := by
    have other : place ≠ placed cwd (cStr dir) := fun same => there (same ▸ absent)
    rw [nodes, if_neg other, grown.kept place there]
  added place gone there := by
    rw [nodes] at there ⊢
    split
    next same => exact ⟨rfl, dir, .inl rfl, nonempty, same⟩
    next other =>
      rw [if_neg other] at there
      exact grown.added place gone there

/-- No front of the path names a regular file. -/
def Unblocked (cwd : Place) (volume : Volume LogFile) (dir : Bytes) : Prop :=
  ∀ front, IsFront front dir → front ≠ [] → volume.file? (placed cwd (cStr front)) = none

/-- Around what exists there are directories only. -/
theorem unblocked_of_directory (path : cStr dir ≠ [])
    (there : volume.node? (placed cwd (cStr dir)) = some .directory) : Unblocked cwd volume dir := by
  intro front isFront nonempty
  obtain ⟨-, above, -⟩ := front_on_way cwd isFront nonempty path
  have around : volume.isDirectory (placed cwd (cStr front)) = true := by
    by_cases same : placed cwd (cStr front) = placed cwd (cStr dir)
    · rw [same, Volume.isDirectory_iff, there]
    · exact Volume.isDirectory_above (by rw [there]; exact Option.some_ne_none _) above same
  rw [Volume.file?, Volume.isDirectory_iff.mp around]

theorem unblocked_of_undivided (undivided : splitLast dir = none)
    (absent : volume.node? (placed cwd (cStr dir)) = none) : Unblocked cwd volume dir := by
  intro front isFront _
  rw [(isFront_of_undivided undivided).mp isFront, Volume.file?, absent]

theorem unblocked_of_divided (divided : splitLast dir = some (parent, behind))
    (absent : volume.node? (placed cwd (cStr dir)) = none) :
    Unblocked cwd volume dir ↔ Unblocked cwd volume parent := by
  constructor
  · intro free front isFront
    exact free front ((isFront_of_divided divided).mpr (.inr isFront))
  · intro free front isFront nonempty
    rcases (isFront_of_divided divided).mp isFront with rfl | inner
    · rw [Volume.file?, absent]
    · exact free front inner nonempty

/-- The directory of a path can be made when what is around it is there. -/
theorem exists_mkdir_below {next : Volume LogFile} (working : next.isDirectory cwd = true)
    (plain : Plain (cStr dir)) (divided : splitLast dir = some (parent, behind)) (free : NulFree parent)
    (named : cStr behind ≠ []) (around : parent = [] ∨ next.isDirectory (placed cwd parent) = true)
    (absent : next.node? (placed cwd (cStr dir)) = none) :
    ∃ made, next.mkdir cwd (cStr dir) = .ok made ∧ ∀ other, made.node? other =
      if other = placed cwd (cStr dir) then some .directory else next.node? other := by
  have whole := splitLast_eq divided
  have noSlash : slash ∉ cStr behind := fun member =>
    slash_not_mem_behind divided ((List.takeWhile_sublist _).subset member)
  have split : components (cStr dir) = components parent ++ [cStr behind] := by
    rw [whole, components_split free, components_name named noSlash]
  have isName : IsName (cStr behind) := plain _ (by rw [split]; simp)
  have nonempty : cStr dir ≠ [] := by
    rw [whole, cStr_split free]
    simp
  refine Volume.exists_mkdir nonempty plain working split
    ⟨named, noSlash, nulFree_cStr behind, isName.1, isName.2⟩ ?_ absent
  by_cases top : parent = []
  · rw [whole, top]
    rfl
  · rw [whole, start_split free top]
    exact around.resolve_left top

/-- What stands behind the last slash is a name, and no NUL cuts the path off before it. -/
def EndsInName (parent behind : Bytes) : Prop := NulFree parent ∧ cStr behind ≠ []

instance (parent behind : Bytes) : Decidable (EndsInName parent behind) :=
  inferInstanceAs (Decidable (_ ∧ _))

/-- Where it is none, the path before the slash names the same place. -/
theorem same_place (path : cStr dir ≠ []) (divided : splitLast dir = some (parent, behind))
    (unnamed : ¬EndsInName parent behind) (absent : volume.node? (placed cwd (cStr dir)) = none) :
    parent ≠ [] ∧ cStr parent ≠ [] ∧ placed cwd (cStr dir) = placed cwd (cStr parent) := by
  have whole := splitLast_eq divided
  by_cases free : NulFree parent
  · have ends : cStr behind = [] := by
      by_contra named
      exact unnamed ⟨free, named⟩
    have nonempty : parent ≠ [] := by
      rintro rfl
      rw [whole, cStr_split free, ends] at absent
      cases absent
    rw [cStr_eq_self.mpr free]
    refine ⟨nonempty, nonempty, ?_⟩
    rw [whole, placed, components_split free, start_split free nonempty, ends, placed]
    exact congrArg (fun names => List.reverse names ++ start cwd parent) (List.append_nil _)
  · have same : cStr dir = cStr parent := by rw [whole, cStr_append_of_nul free]
    rw [same] at path ⊢
    exact ⟨nonempty_of_cStr path, path, rfl⟩

/-- Behind a name the path before it is empty or free of NULs, and one level up. -/
theorem place_below (cwd : Place) (divided : splitLast dir = some (parent, behind)) (named : EndsInName parent behind)
    (nonempty : parent ≠ []) :
    cStr parent = parent ∧ placed cwd (cStr dir) = cStr behind :: placed cwd parent := by
  have whole := splitLast_eq divided
  have noSlash : slash ∉ cStr behind := fun member =>
    slash_not_mem_behind divided ((List.takeWhile_sublist _).subset member)
  refine ⟨cStr_eq_self.mpr named.1, ?_⟩
  rw [whole, placed, components_split named.1, start_split named.1 nonempty,
    components_name named.2 noSlash, List.reverse_append, placed]
  rfl

/-- The ways a routine can go: something is there; a single name is missing; a name below the
root is; or something is missing below a front that the routine turns to first. -/
@[elab_as_elim]
theorem path_induction (cwd : Place) (volume : Volume LogFile)
    {motive : (dir : Bytes) → cStr dir ≠ [] → Plain (cStr dir) → Prop}
    (existing : ∀ dir node path plain, volume.node? (placed cwd (cStr dir)) = some node →
      motive dir path plain)
    (single : ∀ dir path plain, volume.node? (placed cwd (cStr dir)) = none →
      splitLast dir = none → motive dir path plain)
    (root : ∀ dir behind path plain, volume.node? (placed cwd (cStr dir)) = none →
      splitLast dir = some ([], behind) → EndsInName [] behind → motive dir path plain)
    (below : ∀ dir parent behind path plain parentPath parentPlain,
      volume.node? (placed cwd (cStr dir)) = none → splitLast dir = some (parent, behind) →
      parent ≠ [] → motive parent parentPath parentPlain → motive dir path plain)
    (dir : Bytes) (path : cStr dir ≠ []) (plain : Plain (cStr dir)) : motive dir path plain := by
  induction dir using splitLast_induction with
  | whole dir undivided =>
    cases found : volume.node? (placed cwd (cStr dir)) with
    | some node => exact existing dir node path plain found
    | none => exact single dir path plain found undivided
  | divided dir parent behind divided ih =>
    cases found : volume.node? (placed cwd (cStr dir)) with
    | some node => exact existing dir node path plain found
    | none =>
      by_cases top : parent = []
      · subst top
        refine root dir behind path plain found divided ?_
        by_contra unnamed
        exact (same_place path divided unnamed found).1 rfl
      · obtain ⟨parentPath, -, kept⟩ := front_on_way cwd
          ((isFront_of_divided divided).mpr (.inr (.inl rfl))) top path
        exact below dir parent behind path plain parentPath (kept plain) found divided top
          (ih parentPath (kept plain))

/-! The routine of the log. -/

/-- The path names a directory afterwards unless a file is in the way, and nothing else happens. -/
structure Created (cwd : Place) (dir : Bytes) (volume : Volume LogFile) (result : Volume LogFile × Bool) :
    Prop where
  grown : Grown cwd dir volume result.1
  created_iff : result.2 = true ↔ Unblocked cwd volume dir
  made : result.2 = true → result.1.node? (placed cwd (cStr dir)) = some .directory

/-- One level up everything has been seen to; the name itself is missing still. -/
theorem Created.absent {result : Volume LogFile × Bool} (created : Created cwd parent volume result)
    (path : cStr parent = parent) (nonempty : parent ≠ []) {name : Name}
    (absent : volume.node? (name :: placed cwd parent) = none) :
    result.1.node? (name :: placed cwd parent) = none := by
  by_contra there
  obtain ⟨-, front, isFront, some_, same⟩ := created.grown.added _ absent there
  have above := (front_on_way cwd isFront some_ (by rw [path]; exact nonempty)).2.1.length_le
  rw [← same, path, List.length_cons] at above
  omega

theorem created_existing (path : cStr dir ≠ []) {node : Node LogFile}
    (there : volume.node? (placed cwd (cStr dir)) = some node) :
    Created cwd dir volume (volume, isDir node) := by
  cases node with
  | directory =>
    exact ⟨.refl _ _ _, iff_of_true rfl (unblocked_of_directory path there), fun _ => there⟩
  | file data =>
    refine ⟨.refl _ _ _, iff_of_false Bool.false_ne_true fun free => ?_, fun made => nomatch made⟩
    have none := free dir (.inl rfl) (nonempty_of_cStr path)
    rw [Volume.file?, there] at none
    cases none

/-! One level up, and then the path itself. -/

section
variable {above : Volume LogFile × Bool} (divided : splitLast dir = some (parent, behind))
  (absent : volume.node? (placed cwd (cStr dir)) = none)
include divided absent

/-- What is refused one level up is refused. -/
theorem Created.refused (created : Created cwd parent volume above) (no : above.2 = false) :
    Created cwd dir volume (above.1, false) where
  grown := created.grown.widen fun _ inner => (isFront_of_divided divided).mpr (.inr inner)
  created_iff := by
    rw [unblocked_of_divided divided absent, ← created.created_iff, no]
  made made := nomatch made

/-- What is there already when its turn comes has been made one level up. -/
theorem Created.repeated (created : Created cwd parent volume above) (yes : above.2 = true)
    (same : placed cwd (cStr dir) = placed cwd (cStr parent)) : Created cwd dir volume (above.1, true) where
  grown := created.grown.widen fun _ inner => (isFront_of_divided divided).mpr (.inr inner)
  created_iff := by
    rw [unblocked_of_divided divided absent, ← created.created_iff, yes]
  made _ := by rw [same, created.made yes]

/-- A name below a directory that is there is made. -/
theorem Created.below (working : volume.isDirectory cwd = true) (plain : Plain (cStr dir))
    (named : EndsInName parent behind) (nonempty : parent ≠ [])
    (created : Created cwd parent volume above) (yes : above.2 = true) :
    ∃ made, above.1.mkdir cwd (cStr dir) = .ok made ∧ Created cwd dir volume (made, true) := by
  obtain ⟨whole, place⟩ := place_below cwd divided named nonempty
  have around : above.1.isDirectory (placed cwd parent) = true := by
    rw [Volume.isDirectory_iff, ← created.made yes, whole]
  have still : above.1.node? (placed cwd (cStr dir)) = none := by
    rw [place] at absent ⊢
    exact created.absent whole nonempty absent
  obtain ⟨made, mkdir, nodes⟩ := exists_mkdir_below (created.grown.isDirectory working) plain divided
    named.1 named.2 (.inr around) still
  refine ⟨made, mkdir, ?_, ?_, fun _ => by rw [nodes, if_pos rfl]⟩
  · refine (created.grown.widen fun _ inner => (isFront_of_divided divided).mpr (.inr inner)).mkdir ?_
      absent nodes
    rw [splitLast_eq divided]
    simp
  · rw [unblocked_of_divided divided absent, ← created.created_iff]
    exact iff_of_true rfl yes

end

theorem unblocked_nil : Unblocked cwd volume [] := fun _ isFront nonempty =>
  absurd ((isFront_of_undivided rfl).mp isFront) nonempty

/-- A name below the root is made. -/
theorem created_below_root (working : volume.isDirectory cwd = true) (plain : Plain (cStr dir))
    (divided : splitLast dir = some ([], behind))
    (absent : volume.node? (placed cwd (cStr dir)) = none) (named : EndsInName [] behind) :
    ∃ made, volume.mkdir cwd (cStr dir) = .ok made ∧ Created cwd dir volume (made, true) := by
  obtain ⟨made, mkdir, nodes⟩ := exists_mkdir_below working plain divided named.1 named.2 (.inl rfl) absent
  refine ⟨made, mkdir, ?_, ?_, fun _ => by rw [nodes, if_pos rfl]⟩
  · apply (Grown.refl cwd dir volume).mkdir _ absent nodes
    rw [splitLast_eq divided]
    simp
  · exact iff_of_true rfl ((unblocked_of_divided divided absent).mpr unblocked_nil)

/-- A single name is made in the working directory. -/
theorem created_here (working : volume.isDirectory cwd = true) (path : cStr dir ≠ [])
    (plain : Plain (cStr dir)) (undivided : splitLast dir = none)
    (absent : volume.node? (placed cwd (cStr dir)) = none) :
    ∃ made, volume.mkdir cwd (cStr dir) = .ok made ∧ Created cwd dir volume (made, true) := by
  have noSlash : slash ∉ cStr dir := fun member =>
    slash_not_mem_of_none undivided ((List.takeWhile_sublist _).subset member)
  have split : components (cStr dir) = [] ++ [cStr dir] := components_name path noSlash
  have isName : IsName (cStr dir) := plain _ (by rw [split]; simp)
  obtain ⟨made, mkdir, nodes⟩ := Volume.exists_mkdir path plain working split
    ⟨path, noSlash, nulFree_cStr dir, isName.1, isName.2⟩ (Volume.isDirectory_start working _) absent
  exact ⟨made, mkdir, (Grown.refl _ dir volume).mkdir (nonempty_of_cStr path) absent nodes,
    iff_of_true rfl (unblocked_of_undivided undivided absent), fun _ => by rw [nodes, if_pos rfl]⟩

/-- What is there by now cannot be made again. -/
theorem Created.mkdir_again {above : Volume LogFile × Bool} (created : Created cwd parent volume above)
    (working : volume.isDirectory cwd = true) (path : cStr dir ≠ []) (plain : Plain (cStr dir))
    (yes : above.2 = true) (same : placed cwd (cStr dir) = placed cwd (cStr parent)) :
    above.1.mkdir cwd (cStr dir) = .error .exist := by
  apply Volume.mkdir_of_node? path plain (created.grown.isDirectory working)
  rw [same, created.made yes]
  exact Option.some_ne_none _

theorem not_short (path : cStr dir ≠ []) (plain : Plain (cStr dir)) : ¬(dir = [] ∨ dir = [dot]) := by
  rintro (rfl | rfl)
  · exact path rfl
  · exact (plain [dot] (by decide)).1 rfl

theorem createDirectory_nil (platform : Platform) (volume : Volume LogFile) :
    createDirectory platform volume [] = (volume, true) := rfl

theorem createDirectory_existing (long : ¬(dir = [] ∨ dir = [dot])) {node : Node LogFile}
    (there : volume.stat platform.cwd (cStr dir) = some node) :
    createDirectory platform volume dir = (volume, isDir node) := by
  rw [createDirectory_eq, if_neg long, there]
  cases node with
  | directory => rfl
  | file data => rfl

theorem createDirectory_undivided (long : ¬(dir = [] ∨ dir = [dot]))
    (absent : volume.stat platform.cwd (cStr dir) = none) (undivided : splitLast dir = none) :
    createDirectory platform volume dir =
      match volume.mkdir platform.cwd (cStr dir) with
      | .ok made => (made, true)
      | .error .exist => (volume, true)
      | .error .unreachable => (volume, false) := by
  have once := createDirectory_eq platform volume dir
  rw [if_neg long, absent, undivided] at once
  exact once

theorem createDirectory_divided (long : ¬(dir = [] ∨ dir = [dot]))
    (absent : volume.stat platform.cwd (cStr dir) = none)
    (divided : splitLast dir = some (parent, behind)) {above : Volume LogFile × Bool}
    (first : createDirectory platform volume parent = above) :
    createDirectory platform volume dir =
      if above.2 then
        match above.1.mkdir platform.cwd (cStr dir) with
        | .ok made => (made, true)
        | .error .exist => (above.1, true)
        | .error .unreachable => (above.1, false)
      else (above.1, false) := by
  have once := createDirectory_eq platform volume dir
  rw [if_neg long, absent, divided] at once
  rw [← first]
  exact once

theorem createDirectory_created (working : volume.isDirectory platform.cwd = true) (dir : Bytes)
    (path : cStr dir ≠ []) (plain : Plain (cStr dir)) :
    Created platform.cwd dir volume (createDirectory platform volume dir) := by
  induction dir, path, plain using path_induction platform.cwd volume with
  | existing dir node path plain found =>
    have stat := Volume.stat_plain path plain working
    rw [createDirectory_existing (not_short path plain) (stat.trans found)]
    exact created_existing path found
  | single dir path plain found undivided =>
    have stat := Volume.stat_plain path plain working
    obtain ⟨made, mkdir, created⟩ := created_here working path plain undivided found
    rw [createDirectory_undivided (not_short path plain) (stat.trans found) undivided, mkdir]
    exact created
  | root dir behind path plain found divided named =>
    have stat := Volume.stat_plain path plain working
    obtain ⟨made, mkdir, created⟩ := created_below_root working plain divided found named
    rw [createDirectory_divided (not_short path plain) (stat.trans found) divided
      (createDirectory_nil platform volume), if_pos rfl, mkdir]
    exact created
  | below dir parent behind path plain parentPath parentPlain found divided top created =>
    have stat := Volume.stat_plain path plain working
    rw [createDirectory_divided (not_short path plain) (stat.trans found) divided rfl]
    cases ok : (createDirectory platform volume parent).2 with
    | false => exact created.refused divided found ok
    | true =>
      rw [if_pos rfl]
      by_cases named : EndsInName parent behind
      · obtain ⟨made, mkdir, finished⟩ := created.below divided found working plain named top ok
        rw [mkdir]
        exact finished
      -- the path before the slash names the same directory, which is there by now
      · have same := (same_place path divided named found).2.2
        rw [created.mkdir_again working path plain ok same]
        exact created.repeated divided found ok same

/-- The routine makes the directory unless a prefix of its path is a regular file. All that
is new afterwards are directories that prefixes of the path name. -/
structure Complete (platform : Platform) (dir : Bytes) (volume next : Volume LogFile) (created : Bool) :
    Prop where
  created_iff : created = true ↔ ∀ front, IsFront front dir → front ≠ [] → ∀ file,
    volume.stat platform.cwd (cStr front) ≠ some (.file file)
  made : created = true → next.stat platform.cwd (cStr dir) = some .directory
  kept : ∀ place, volume.node? place ≠ none → next.node? place = volume.node? place
  added : ∀ place, volume.node? place = none → next.node? place ≠ none →
    next.node? place = some .directory ∧
      ∃ front, IsFront front dir ∧ front ≠ [] ∧ next.find platform.cwd (cStr front) = some place

theorem file?_eq_none {place : Place} :
    volume.file? place = none ↔ ∀ file, volume.node? place ≠ some (.file file) := by
  rw [Option.eq_none_iff_forall_ne_some]
  exact forall_congr' fun file => not_congr Volume.file?_eq_some

theorem unblocked_iff (working : volume.isDirectory cwd = true) (path : cStr dir ≠ [])
    (plain : Plain (cStr dir)) : Unblocked cwd volume dir ↔
      ∀ front, IsFront front dir → front ≠ [] → ∀ file, volume.stat cwd (cStr front) ≠ some (.file file) := by
  refine forall_congr' fun front => forall_congr' fun isFront => forall_congr' fun nonempty => ?_
  obtain ⟨frontPath, -, kept⟩ := front_on_way cwd isFront nonempty path
  rw [Volume.stat_plain frontPath (kept plain) working, file?_eq_none]

/-- The recursion ends, and the directory is made unless a file is in the way. -/
theorem createDirectory_complete (platform : Platform) (volume : Volume LogFile) (dir : Bytes)
    (working : volume.isDirectory platform.cwd = true) (path : cStr dir ≠ [])
    (plain : Plain (cStr dir)) :
    (∀ fuel, dir.length ≤ fuel →
        createWithin platform fuel volume dir = createDirectory platform volume dir) ∧
      Complete platform dir volume (createDirectory platform volume dir).1
        (createDirectory platform volume dir).2 := by
  refine ⟨fun fuel enough => createWithin_fuel platform enough le_rfl volume, ?_⟩
  have created := createDirectory_created working dir path plain
  have still := created.grown.isDirectory working
  refine ⟨created.created_iff.trans (unblocked_iff working path plain), ?_, created.grown.kept, ?_⟩
  · intro yes
    rw [Volume.stat_plain path plain still, created.made yes]
  · intro place absent there
    obtain ⟨directory, front, isFront, nonempty, rfl⟩ := created.grown.added place absent there
    obtain ⟨frontPath, -, kept⟩ := front_on_way platform.cwd isFront nonempty path
    exact ⟨directory, front, isFront, nonempty,
      Volume.find_of_node? frontPath (kept plain) still there⟩

theorem createDirectory_complete_log :
    (createDirectory january .empty (bytes "/var//log/")).1.stat [] (bytes "/var//log/") =
      some .directory :=
  (createDirectory_complete january .empty (bytes "/var//log/") rfl (by decide) (by decide)).2.made
    (by decide +kernel)

/-! The routine of the database manager. -/

section
variable (platform : Platform)

/-- `ensureDir` for a path shorter than the fuel. -/
def ensureWithin : Nat → Volume LogFile → Bytes → Volume LogFile × Bool
  | 0, volume, _ => (volume, false)
  | fuel + 1, volume, dir =>
    match volume.stat platform.cwd (cStr dir) with
    | some node => (volume, isDir node)
    | none =>
      let above := match splitLast dir with
        | some (parent, _) => ensureWithin fuel volume parent
        | none => (volume, true)
      if above.2 then
        match above.1.mkdir platform.cwd (cStr dir) with
        | .ok made => (made, true)
        | .error _ => (above.1, false)
      else (above.1, false)

def ensureDir (volume : Volume LogFile) (dir : Bytes) : Volume LogFile × Bool :=
  ensureWithin platform (dir.length + 1) volume dir

/-- Any fuel that covers the path and one call more will do. -/
theorem ensureWithin_fuel {dir : Bytes} {first second : Nat} (enough : dir.length < first)
    (also : dir.length < second) (volume : Volume LogFile) :
    ensureWithin platform first volume dir = ensureWithin platform second volume dir := by
  induction first generalizing second dir with
  | zero => exact absurd enough (Nat.not_lt_zero _)
  | succ first ih =>
    cases second with
    | zero => exact absurd also (Nat.not_lt_zero _)
    | succ second =>
      rw [ensureWithin, ensureWithin]
      cases divided : splitLast dir with
      | none => rfl
      | some parts =>
        have length := length_splitLast divided
        have same : ensureWithin platform first volume parts.1 =
            ensureWithin platform second volume parts.1 := ih (by omega) (by omega)
        simp only [same]

/-- The recursion as it stands in the source. -/
theorem ensureDir_eq (volume : Volume LogFile) (dir : Bytes) :
    ensureDir platform volume dir =
      match volume.stat platform.cwd (cStr dir) with
      | some node => (volume, isDir node)
      | none =>
        let above := match splitLast dir with
          | some (parent, _) => ensureDir platform volume parent
          | none => (volume, true)
        if above.2 then
          match above.1.mkdir platform.cwd (cStr dir) with
          | .ok made => (made, true)
          | .error _ => (above.1, false)
        else (above.1, false) := by
  rw [ensureDir, ensureWithin]
  cases divided : splitLast dir with
  | none => rfl
  | some parts =>
    have length := length_splitLast divided
    have same : ensureWithin platform dir.length volume parts.1 = ensureDir platform volume parts.1 :=
      ensureWithin_fuel platform (by omega) (Nat.lt_succ_self _) volume
    simp only [same]

end

theorem ensureDir_existing {node : Node LogFile}
    (there : volume.stat platform.cwd (cStr dir) = some node) :
    ensureDir platform volume dir = (volume, isDir node) := by
  rw [ensureDir_eq, there]

theorem ensureDir_undivided (absent : volume.stat platform.cwd (cStr dir) = none)
    (undivided : splitLast dir = none) :
    ensureDir platform volume dir =
      match volume.mkdir platform.cwd (cStr dir) with
      | .ok made => (made, true)
      | .error _ => (volume, false) := by
  have once := ensureDir_eq platform volume dir
  rw [absent, undivided] at once
  exact once

theorem ensureDir_divided (absent : volume.stat platform.cwd (cStr dir) = none)
    (divided : splitLast dir = some (parent, behind)) {above : Volume LogFile × Bool}
    (first : ensureDir platform volume parent = above) :
    ensureDir platform volume dir =
      if above.2 then
        match above.1.mkdir platform.cwd (cStr dir) with
        | .ok made => (made, true)
        | .error _ => (above.1, false)
      else (above.1, false) := by
  have once := ensureDir_eq platform volume dir
  rw [absent, divided] at once
  rw [← first]
  exact once

/-- An empty path is refused, where the other routine takes it for the root. -/
theorem ensureDir_nil (platform : Platform) (volume : Volume LogFile) :
    ensureDir platform volume [] = (volume, false) := rfl

/-- Behind the last slash of the path is a name, and before it another path. -/
def Sound (path : Bytes) : Prop := ∀ parts ∈ splitLast path, parts.1 ≠ [] ∧ EndsInName parts.1 parts.2

instance (path : Bytes) : Decidable (Sound path) := inferInstanceAs (Decidable (∀ _ ∈ _, _ ∧ _))

/-- Every prefix of the path that is missing ends in a name below another prefix. -/
def Cuttable (cwd : Place) (volume : Volume LogFile) (dir : Bytes) : Prop :=
  ∀ front, IsFront front dir → front ≠ [] → volume.node? (placed cwd (cStr front)) = none → Sound front

theorem cuttable_of_directory (path : cStr dir ≠ [])
    (there : volume.node? (placed cwd (cStr dir)) = some .directory) : Cuttable cwd volume dir := by
  intro front isFront nonempty absent
  have above := (front_on_way cwd isFront nonempty path).2.1
  by_cases same : placed cwd (cStr front) = placed cwd (cStr dir)
  · rw [same, there] at absent
    cases absent
  · have around := Volume.isDirectory_above (by rw [there]; exact Option.some_ne_none _) above same
    rw [Volume.isDirectory_iff, absent] at around
    cases around

theorem cuttable_of_undivided (undivided : splitLast dir = none) : Cuttable cwd volume dir := by
  intro front isFront _ _ parts divided
  rw [(isFront_of_undivided undivided).mp isFront, Option.mem_def, undivided] at divided
  cases divided

theorem cuttable_of_divided (divided : splitLast dir = some (parent, behind))
    (absent : volume.node? (placed cwd (cStr dir)) = none) :
    Cuttable cwd volume dir ↔ (parent ≠ [] ∧ EndsInName parent behind) ∧ Cuttable cwd volume parent := by
  have nonempty : dir ≠ [] := by
    rw [splitLast_eq divided]
    simp
  constructor
  · intro cuttable
    exact ⟨cuttable dir (.inl rfl) nonempty absent (parent, behind) divided,
      fun front inner => cuttable front ((isFront_of_divided divided).mpr (.inr inner))⟩
  · rintro ⟨named, cuttable⟩ front isFront some_ missing
    rcases (isFront_of_divided divided).mp isFront with rfl | inner
    · intro parts found
      cases divided.symm.trans found
      exact named
    · exact cuttable front inner some_ missing

/-- Where a file is in the way both routines see it, and do nothing. -/
theorem refused_of_blocked (working : volume.isDirectory platform.cwd = true) (dir : Bytes)
    (path : cStr dir ≠ []) (plain : Plain (cStr dir)) (blocked : ¬Unblocked platform.cwd volume dir) :
    createDirectory platform volume dir = (volume, false) ∧
      ensureDir platform volume dir = (volume, false) := by
  induction dir, path, plain using path_induction platform.cwd volume with
  | existing dir node path plain found =>
    have stat := (Volume.stat_plain path plain working).trans found
    rw [createDirectory_existing (not_short path plain) stat, ensureDir_existing stat]
    cases node with
    | directory => exact absurd (unblocked_of_directory path found) blocked
    | file data => exact ⟨rfl, rfl⟩
  | single dir path plain found undivided =>
    exact absurd (unblocked_of_undivided undivided found) blocked
  | root dir behind path plain found divided named =>
    exact absurd ((unblocked_of_divided divided found).mpr unblocked_nil) blocked
  | below dir parent behind path plain parentPath parentPlain found divided top ih =>
    have stat := (Volume.stat_plain path plain working).trans found
    rw [unblocked_of_divided divided found] at blocked
    obtain ⟨created, ensured⟩ := ih blocked
    rw [createDirectory_divided (not_short path plain) stat divided created,
      ensureDir_divided stat divided ensured]
    exact ⟨rfl, rfl⟩

/-- Where nothing is in the way the other routine does the same, or refuses. -/
theorem ensureDir_unblocked (working : volume.isDirectory platform.cwd = true) (dir : Bytes)
    (path : cStr dir ≠ []) (plain : Plain (cStr dir)) (free : Unblocked platform.cwd volume dir) :
    (Cuttable platform.cwd volume dir →
      ensureDir platform volume dir = createDirectory platform volume dir) ∧
    (¬Cuttable platform.cwd volume dir → (ensureDir platform volume dir).2 = false) := by
  induction dir, path, plain using path_induction platform.cwd volume with
  | existing dir node path plain found =>
    have stat := (Volume.stat_plain path plain working).trans found
    rw [createDirectory_existing (not_short path plain) stat, ensureDir_existing stat]
    cases node with
    | directory => exact ⟨fun _ => rfl, fun uncut => absurd (cuttable_of_directory path found) uncut⟩
    | file data => exact ⟨fun _ => rfl, fun _ => rfl⟩
  | single dir path plain found undivided =>
    have stat := (Volume.stat_plain path plain working).trans found
    obtain ⟨made, mkdir, -⟩ := created_here working path plain undivided found
    rw [createDirectory_undivided (not_short path plain) stat undivided,
      ensureDir_undivided stat undivided, mkdir]
    exact ⟨fun _ => rfl, fun uncut => absurd (cuttable_of_undivided undivided) uncut⟩
  | root dir behind path plain found divided named =>
    have stat := (Volume.stat_plain path plain working).trans found
    rw [ensureDir_divided stat divided (ensureDir_nil platform volume), cuttable_of_divided divided found]
    exact ⟨fun cuttable => absurd rfl cuttable.1.1, fun _ => rfl⟩
  | below dir parent behind path plain parentPath parentPlain found divided top ih =>
    have stat := (Volume.stat_plain path plain working).trans found
    have freeParent := (unblocked_of_divided divided found).mp free
    have created := createDirectory_created working parent parentPath parentPlain
    have yes := created.created_iff.mpr freeParent
    obtain ⟨agrees, refuses⟩ := ih freeParent
    rw [ensureDir_divided stat divided rfl, cuttable_of_divided divided found]
    constructor
    · rintro ⟨⟨-, named⟩, cuttable⟩
      obtain ⟨made, mkdir, -⟩ := created.below divided found working plain named top yes
      rw [createDirectory_divided (not_short path plain) stat divided rfl, agrees cuttable, if_pos yes,
        if_pos yes, mkdir]
    · intro uncut
      by_cases cuttable : Cuttable platform.cwd volume parent
      -- the path is the same place again, and `mkdir` finds it there
      · have unnamed : ¬EndsInName parent behind := fun named => uncut ⟨⟨top, named⟩, cuttable⟩
        have same := (same_place path divided unnamed found).2.2
        rw [agrees cuttable, if_pos yes, created.mkdir_again working path plain yes same]
      · rw [if_neg (by rw [refuses cuttable]; exact Bool.false_ne_true)]

/-- Some prefix of the path is a regular file. -/
def Blocked (platform : Platform) (volume : Volume LogFile) (dir : Bytes) : Prop :=
  ∃ front, IsFront front dir ∧ front ≠ [] ∧ ∃ file, volume.stat platform.cwd (cStr front) = some (.file file)

/-- Every prefix of the path that names nothing ends in a name below another prefix. -/
def CutsToNames (platform : Platform) (volume : Volume LogFile) (dir : Bytes) : Prop :=
  ∀ front, IsFront front dir → front ≠ [] → volume.stat platform.cwd (cStr front) = none → Sound front

instance (platform : Platform) (volume : Volume LogFile) (dir : Bytes) :
    Decidable (CutsToNames platform volume dir) :=
  decidable_of_iff (∀ front ∈ dir.inits, IsFront front dir → front ≠ [] →
      (volume.stat platform.cwd (cStr front)).isNone = true → Sound front)
    ⟨fun every front isFront nonempty absent =>
        every front (mem_inits_of_isFront isFront) isFront nonempty (Option.isNone_iff_eq_none.mpr absent),
      fun cuts front _ isFront nonempty absent =>
        cuts front isFront nonempty (Option.isNone_iff_eq_none.mp absent)⟩

/-- The two routines do the same exactly where a file is in the way or every missing prefix
of the path is cut to a path that is shorter by a name. -/
theorem routines_agree_iff (platform : Platform) (volume : Volume LogFile) (dir : Bytes)
    (working : volume.isDirectory platform.cwd = true) (path : cStr dir ≠ [])
    (plain : Plain (cStr dir)) :
    ensureDir platform volume dir = createDirectory platform volume dir ↔
      Blocked platform volume dir ∨ CutsToNames platform volume dir := by
  have blocked : Blocked platform volume dir ↔ ¬Unblocked platform.cwd volume dir := by
    rw [unblocked_iff working path plain]
    simp only [Blocked, not_forall, not_not, exists_prop]
  have cuts : CutsToNames platform volume dir ↔ Cuttable platform.cwd volume dir := by
    refine forall_congr' fun front => forall_congr' fun isFront => forall_congr' fun nonempty => ?_
    obtain ⟨frontPath, -, kept⟩ := front_on_way platform.cwd isFront nonempty path
    rw [Volume.stat_plain frontPath (kept plain) working]
  rw [blocked, cuts]
  by_cases free : Unblocked platform.cwd volume dir
  · obtain ⟨agrees, refuses⟩ := ensureDir_unblocked working dir path plain free
    have yes := (createDirectory_created working dir path plain).created_iff.mpr free
    constructor
    · intro same
      right
      by_contra uncut
      have no := refuses uncut
      rw [same, yes] at no
      cases no
    · rintro (inTheWay | cuttable)
      · exact absurd free inTheWay
      · exact agrees cuttable
  · obtain ⟨created, ensured⟩ := refused_of_blocked working dir path plain free
    exact iff_of_true (ensured.trans created.symm) (.inl free)

theorem routines_agree_iff_relative :
    ensureDir january .empty (bytes "log/app") = createDirectory january .empty (bytes "log/app") :=
  (routines_agree_iff january .empty (bytes "log/app") rfl (by decide) (by decide)).mpr
    (.inr (by decide +kernel))

/-- Only one of them makes a directory of the root, or one whose path has a slash at its end. -/
theorem routines_disagree :
    (createDirectory january .empty (bytes "/data")).2 = true ∧
      (createDirectory january .empty (bytes "data/")).2 = true ∧
      ensureDir january .empty (bytes "/data") ≠ createDirectory january .empty (bytes "/data") ∧
      ensureDir january .empty (bytes "data/") ≠ createDirectory january .empty (bytes "data/") := by
  have root : (createDirectory january .empty (bytes "/data")).2 = true := by decide +kernel
  have ending : (createDirectory january .empty (bytes "data/")).2 = true := by decide +kernel
  have noRoot : (ensureDir january .empty (bytes "/data")).2 = false := by decide +kernel
  have noEnding : (ensureDir january .empty (bytes "data/")).2 = false := by decide +kernel
  refine ⟨root, ending, fun same => ?_, fun same => ?_⟩
  · rw [same, root] at noRoot
    cases noRoot
  · rw [same, ending] at noEnding
    cases noEnding

end ModbusDatabase.Directories
