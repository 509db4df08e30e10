import Mathlib.Data.List.AList

/-! A tree of directories and regular files without links, the walk of a path
through it, and the calls that change it. What a file holds is of any type. -/

namespace ModbusDatabase.Library.FileSystem
set_option autoImplicit false

abbrev Name := List (Fin 256)

/-- The names from an entry up to the root, which is the empty list. -/
abbrev Place := List Name

inductive Node (α : Type*) where
  | directory
  | file (data : α)

def slash : Fin 256 := ⟨47, by decide⟩

def dot : Fin 256 := ⟨46, by decide⟩

def nul : Fin 256 := ⟨0, by decide⟩

/-- What an entry can be called. -/
def Valid (name : Name) : Prop :=
  name ≠ [] ∧ slash ∉ name ∧ nul ∉ name ∧ name ≠ [dot] ∧ name ≠ [dot, dot]

instance (name : Name) : Decidable (Valid name) := inferInstanceAs (Decidable (_ ∧ _))

/-- Every entry lies in a directory. -/
structure Volume (α : Type*) where
  entries : AList fun _ : Place => Node α
  rooted : ∀ place ∈ entries, ∃ name parent, place = name :: parent ∧ Valid name ∧
    (parent = [] ∨ entries.lookup parent = some .directory)

namespace Volume

variable {α : Type*} {volume next : Volume α} {place other parent home cwd : Place} {name : Name}
  {node : Node α} {data : α}

def empty : Volume α := ⟨∅, fun _ member => absurd member (AList.notMem_empty _)⟩

def node? (volume : Volume α) (place : Place) : Option (Node α) :=
  if place = [] then some .directory else volume.entries.lookup place

def isDirectory (volume : Volume α) (place : Place) : Bool :=
  match volume.node? place with
  | some .directory => true
  | _ => false

def file? (volume : Volume α) (place : Place) : Option α :=
  match volume.node? place with
  | some (.file data) => some data
  | _ => none

theorem isDirectory_iff : volume.isDirectory place = true ↔ volume.node? place = some .directory := by
  unfold isDirectory
  split
  next found => simp [found]
  next other => simpa using other

theorem file?_eq_some : volume.file? place = some data ↔ volume.node? place = some (.file data) := by
  unfold file?
  split
  next found => simp [found]
  next other => simpa using other data

theorem file?_empty (place : Place) : (empty : Volume α).file? place = none := by
  cases found : (empty : Volume α).file? place with
  | none => rfl
  | some data =>
    rw [file?_eq_some, node?] at found
    split at found
    next => cases found
    next => cases found

theorem directory_or_lookup (directory : volume.isDirectory parent = true) :
    parent = [] ∨ volume.entries.lookup parent = some .directory := by
  rw [isDirectory_iff, node?] at directory
  split at directory
  next root => exact .inl root
  next => exact .inr directory

/-- Every entry has a valid name and a directory around it. -/
theorem entry_placed (found : volume.node? (name :: parent) ≠ none) :
    Valid name ∧ volume.isDirectory parent = true := by
  rw [node?, if_neg (List.cons_ne_nil _ _), ne_eq, AList.lookup_eq_none, not_not] at found
  obtain ⟨_, _, same, valid, placed⟩ := volume.rooted _ found
  cases same
  refine ⟨valid, isDirectory_iff.mpr ?_⟩
  rw [node?]
  split
  next => rfl
  next inner => exact placed.resolve_left inner

/-- Puts a new entry in a directory, or replaces a file. -/
def put? (volume : Volume α) (place : Place) (node : Node α) : Option (Volume α) :=
  match place with
  | [] => none
  | name :: parent =>
    if free : Valid name ∧ volume.isDirectory parent = true ∧ volume.isDirectory (name :: parent) = false
    then some {
      entries := volume.entries.insert (name :: parent) node
      rooted := by
        intro other member
        rcases (AList.mem_insert _).mp member with rfl | old
        · refine ⟨name, parent, rfl, free.1, (directory_or_lookup free.2.1).imp id fun inner => ?_⟩
          rw [AList.lookup_insert_ne (List.ne_cons_self), inner]
        · obtain ⟨inner, around, same, valid, placed⟩ := volume.rooted other old
          refine ⟨inner, around, same, valid, placed.imp id fun known => ?_⟩
          rw [AList.lookup_insert_ne, known]
          rintro rfl
          have directory : volume.isDirectory (name :: parent) = true :=
            isDirectory_iff.mpr ((if_neg (List.cons_ne_nil _ _)).trans known)
          exact Bool.false_ne_true (free.2.2.symm.trans directory) }
    else none

/-- Removes a file. -/
def remove? (volume : Volume α) (place : Place) : Option (Volume α) :=
  if there : (volume.file? place).isSome then some {
    entries := volume.entries.erase place
    rooted := by
      intro other member
      obtain ⟨name, parent, same, valid, placed⟩ := volume.rooted other (AList.mem_erase.mp member).2
      refine ⟨name, parent, same, valid, placed.imp id fun known => ?_⟩
      rw [AList.lookup_erase_ne, known]
      rintro rfl
      obtain ⟨data, found⟩ := Option.isSome_iff_exists.mp there
      rw [file?_eq_some, node?] at found
      split at found
      next => cases found
      next => cases known.symm.trans found }
  else none

theorem node?_put (stored : volume.put? place node = some next) (other : Place) :
    next.node? other = if other = place then some node else volume.node? other := by
  unfold put? at stored
  split at stored
  next => cases stored
  next name parent =>
    split at stored
    next =>
      cases stored
      unfold node?
      by_cases root : other = []
      · rw [if_pos root, if_pos root, if_neg (root ▸ (List.cons_ne_nil _ _).symm)]
      · rw [if_neg root, if_neg root]
        by_cases same : other = name :: parent
        · rw [if_pos same, same, AList.lookup_insert]
        · rw [if_neg same, AList.lookup_insert_ne same]
    next => cases stored

theorem exists_put (valid : Valid name) (around : volume.isDirectory parent = true)
    (free : volume.isDirectory (name :: parent) = false) (node : Node α) :
    ∃ next, volume.put? (name :: parent) node = some next := by
  rw [put?, dif_pos ⟨valid, around, free⟩]
  exact ⟨_, rfl⟩

theorem node?_remove (removed : volume.remove? place = some next) (other : Place) :
    next.node? other = if other = place then none else volume.node? other := by
  unfold remove? at removed
  split at removed
  next there =>
    cases removed
    obtain ⟨data, found⟩ := Option.isSome_iff_exists.mp there
    have inner : place ≠ [] := by
      rintro rfl
      cases file?_eq_some.mp found
    unfold node?
    by_cases root : other = []
    · rw [if_pos root, if_pos root, if_neg (root ▸ inner.symm)]
    · rw [if_neg root, if_neg root]
      by_cases same : other = place
      · rw [if_pos same, same, AList.lookup_erase]
      · rw [if_neg same, AList.lookup_erase_ne same]
  next => cases removed

theorem exists_remove (found : volume.file? place = some data) :
    ∃ next, volume.remove? place = some next := by
  rw [remove?, dif_pos (by rw [found]; rfl)]
  exact ⟨_, rfl⟩

theorem isDirectory_of_node? {first second : Volume α} (same : first.node? place = second.node? place) :
    first.isDirectory place = second.isDirectory place := by rw [isDirectory, same, isDirectory]

theorem file?_of_node? {first second : Volume α} (same : first.node? place = second.node? place) :
    first.file? place = second.file? place := by rw [file?, same, file?]

theorem not_directory_of_put (stored : volume.put? place node = some next) :
    volume.isDirectory place = false := by
  unfold put? at stored
  split at stored
  next => cases stored
  next =>
    split at stored
    next free => exact free.2.2
    next => cases stored

/-- Files come and go without touching the directories. -/
theorem isDirectory_put_file (stored : volume.put? place (.file data) = some next) (other : Place) :
    next.isDirectory other = volume.isDirectory other := by
  by_cases same : other = place
  · rw [same, not_directory_of_put stored, isDirectory, node?_put stored, if_pos rfl]
  · exact isDirectory_of_node? ((node?_put stored other).trans (if_neg same))

theorem file?_put (stored : volume.put? place (.file data) = some next) (other : Place) :
    next.file? other = if other = place then some data else volume.file? other := by
  by_cases same : other = place
  · rw [if_pos same, file?_eq_some, node?_put stored, if_pos same]
  · rw [if_neg same]
    exact file?_of_node? ((node?_put stored other).trans (if_neg same))

theorem file_of_remove (removed : volume.remove? place = some next) :
    ∃ data, volume.file? place = some data := by
  unfold remove? at removed
  split at removed
  next there => exact Option.isSome_iff_exists.mp there
  next => cases removed

theorem isDirectory_remove (removed : volume.remove? place = some next) (other : Place) :
    next.isDirectory other = volume.isDirectory other := by
  by_cases same : other = place
  · obtain ⟨data, found⟩ := file_of_remove removed
    rw [same, isDirectory, node?_remove removed, if_pos rfl, isDirectory, file?_eq_some.mp found]
  · exact isDirectory_of_node? ((node?_remove removed other).trans (if_neg same))

theorem file?_remove (removed : volume.remove? place = some next) (other : Place) :
    next.file? other = if other = place then none else volume.file? other := by
  by_cases same : other = place
  · rw [if_pos same, file?, node?_remove removed, if_pos same]
  · rw [if_neg same]
    exact file?_of_node? ((node?_remove removed other).trans (if_neg same))

/-! What is on the volume, and in a directory of it. -/

def files (volume : Volume α) : List α :=
  volume.entries.entries.filterMap fun entry =>
    match entry.2 with
    | .directory => none
    | .file data => some data

theorem mem_files (found : volume.file? place = some data) : data ∈ volume.files := by
  rw [file?_eq_some, node?] at found
  split at found
  next => cases found
  next =>
    have listed := AList.mem_lookup_iff.mp found
    exact List.mem_filterMap.mpr ⟨_, listed, rfl⟩

def children (volume : Volume α) (home : Place) : List Name :=
  volume.entries.keys.filterMap fun place => if place.tail = home then place.head? else none

theorem mem_children : name ∈ volume.children home ↔ volume.node? (name :: home) ≠ none := by
  rw [node?, if_neg (List.cons_ne_nil _ _), ne_eq, AList.lookup_eq_none, not_not, AList.mem_keys,
    children, List.mem_filterMap]
  constructor
  · rintro ⟨place, member, found⟩
    obtain ⟨inside, first⟩ := Option.ite_none_right_eq_some.mp found
    rw [← inside, List.cons_head?_tail first]
    exact member
  · exact fun member => ⟨name :: home, member, if_pos rfl⟩

theorem children_nodup (volume : Volume α) (home : Place) : (volume.children home).Nodup := by
  refine List.Nodup.filterMap ?_ volume.entries.keys_nodup
  intro first second name left right
  obtain ⟨inside, head⟩ := Option.ite_none_right_eq_some.mp left
  obtain ⟨within, top⟩ := Option.ite_none_right_eq_some.mp right
  rw [← List.cons_head?_tail head, ← List.cons_head?_tail top, inside, within]

/-- How many names of a kind there are in a directory, by what is there. -/
theorem children_le {kind : Name → Bool}
    (kept : ∀ name, kind name = true → next.node? (name :: home) ≠ none →
      volume.node? (name :: home) ≠ none) :
    ((next.children home).filter kind).length ≤ ((volume.children home).filter kind).length := by
  refine (List.subperm_of_subset ((next.children_nodup home).filter kind) ?_).length_le
  intro name member
  obtain ⟨there, good⟩ := List.mem_filter.mp member
  exact List.mem_filter.mpr ⟨mem_children.mpr (kept name good (mem_children.mp there)), good⟩

theorem children_grown {kind : Name → Bool} (target : Place)
    (added : ∀ other, next.node? other ≠ none → other = target ∨ volume.node? other ≠ none) :
    ((next.children home).filter kind).length ≤ ((volume.children home).filter kind).length + 1 := by
  rw [← List.length_cons (a := target.headI)]
  refine (List.subperm_of_subset ((next.children_nodup home).filter kind) ?_).length_le
  intro name member
  obtain ⟨there, good⟩ := List.mem_filter.mp member
  rcases added _ (mem_children.mp there) with rfl | old
  · exact List.mem_cons_self
  · exact List.mem_cons_of_mem _ (List.mem_filter.mpr ⟨mem_children.mpr old, good⟩)

end Volume

/-! Paths. -/

/-- What stands between the slashes; repeated and trailing ones make no difference. -/
def components (path : List (Fin 256)) : List Name := (path.splitOn slash).filter (· ≠ [])

theorem components_name {name : Name} (nonempty : name ≠ []) (whole : slash ∉ name) :
    components name = [name] := by
  rw [components, List.splitOn_eq_singleton whole]
  exact List.filter_cons_of_pos (decide_eq_true nonempty)

theorem components_append (front behind : List (Fin 256)) :
    components (front ++ slash :: behind) = components front ++ components behind := by
  rw [components, List.splitOn_append_cons_self, List.filter_append, components, components]

theorem components_join {dir : List (Fin 256)} {name : Name} (nonempty : name ≠ [])
    (whole : slash ∉ name) : components (dir ++ slash :: name) = components dir ++ [name] := by
  rw [components_append, components_name nonempty whole]

namespace Volume

variable {α : Type*} {volume next : Volume α} {place other parent home cwd : Place} {name : Name}
  {data fresh : α} {path dir : List (Fin 256)}

/-- One name further; nothing is found behind what is no directory. -/
def step (volume : Volume α) (place : Place) (name : Name) : Option Place :=
  if volume.isDirectory place then
    if name = [dot] then some place
    else if name = [dot, dot] then some place.tail
    else some (name :: place)
  else none

/-- The place a path leads to, whether anything is there or not. -/
def find (volume : Volume α) (cwd : Place) (path : List (Fin 256)) : Option Place :=
  if path = [] then none
  else (components path).foldlM volume.step (if path.head? = some slash then [] else cwd)

/-- The same for the path of a file, which does not end in a slash. -/
def locate (volume : Volume α) (cwd : Place) (path : List (Fin 256)) : Option Place :=
  if path.getLast? = some slash then none else volume.find cwd path

def stat (volume : Volume α) (cwd : Place) (path : List (Fin 256)) : Option (Node α) :=
  (volume.find cwd path).bind volume.node?

inductive Errno where
  | exist
  | unreachable

def mkdir (volume : Volume α) (cwd : Place) (path : List (Fin 256)) : Except Errno (Volume α) :=
  match volume.find cwd path with
  | none => .error .unreachable
  | some place =>
    if (volume.node? place).isSome then .error .exist
    else match volume.put? place .directory with
      | some next => .ok next
      | none => .error .unreachable

/-- Opens a file for appending, and creates it when there is none. -/
def openAppend (volume : Volume α) (cwd : Place) (path : List (Fin 256)) (fresh : α) :
    Option (Volume α × Place) :=
  (volume.locate cwd path).bind fun place =>
    match volume.node? place with
    | some .directory => none
    | some (.file _) => some (volume, place)
    | none => (volume.put? place (.file fresh)).map fun next => (next, place)

/-- Moves a file, over another one if there is one. -/
def rename (volume : Volume α) (cwd : Place) (old new : List (Fin 256)) : Option (Volume α) :=
  (volume.locate cwd old).bind fun source => (volume.locate cwd new).bind fun target =>
    (volume.file? source).bind fun data =>
      if source = target then some volume
      else (volume.remove? source).bind fun rest => rest.put? target (.file data)

def unlink (volume : Volume α) (cwd : Place) (path : List (Fin 256)) : Option (Volume α) :=
  (volume.locate cwd path).bind volume.remove?

/-- The names a directory stream yields, but for `.` and `..`. -/
def opendir (volume : Volume α) (cwd : Place) (path : List (Fin 256)) : Option (List Name) :=
  (volume.find cwd path).bind fun place =>
    if volume.isDirectory place then some (volume.children place) else none

/-- The directory that a path begun with `dir` and a slash goes on from. -/
def base (volume : Volume α) (cwd : Place) (dir : List (Fin 256)) : Option Place :=
  if dir = [] then some [] else volume.find cwd dir

theorem find_join (nonempty : name ≠ []) (whole : slash ∉ name) :
    volume.find cwd (dir ++ slash :: name) =
      (volume.base cwd dir).bind fun home => volume.step home name := by
  have joined : dir ++ slash :: name ≠ [] := by simp
  have last : ∀ place, [name].foldlM volume.step place = volume.step place name := by
    intro place
    rw [List.foldlM_cons]
    exact bind_pure _
  rw [find, if_neg joined, components_join nonempty whole, List.foldlM_append, base]
  simp only [last]
  by_cases empty : dir = []
  · rw [if_pos empty, empty, List.nil_append, List.head?_cons, if_pos rfl]
    rfl
  · rw [if_neg empty, find, if_neg empty, List.head?_append_of_ne_nil _ empty]
    rfl

theorem locate_join (nonempty : name ≠ []) (whole : slash ∉ name) :
    volume.locate cwd (dir ++ slash :: name) = volume.find cwd (dir ++ slash :: name) := by
  rw [locate, if_neg]
  intro ends
  rw [List.append_cons, List.getLast?_append, List.getLast?_eq_some_getLast nonempty,
    Option.some_or] at ends
  exact whole (Option.some.inj ends ▸ List.getLast_mem nonempty)

theorem step_name (valid : Valid name) :
    volume.step place name = if volume.isDirectory place then some (name :: place) else none := by
  rw [step, if_neg valid.2.2.2.1, if_neg valid.2.2.2.2]

/-- Only a name proper leads to something that is no directory. -/
theorem step_to_file (stepped : volume.step home name = some place)
    (free : volume.isDirectory place = false) :
    name ≠ [dot] ∧ name ≠ [dot, dot] ∧ place = name :: home ∧ volume.isDirectory home = true := by
  unfold step at stepped
  obtain ⟨around, stepped⟩ := Option.ite_none_right_eq_some.mp stepped
  split at stepped
  next =>
    cases stepped
    exact absurd (free.symm.trans around) (by decide)
  next here =>
    split at stepped
    next =>
      cases stepped
      refine absurd (free.symm.trans ?_) Bool.false_ne_true
      cases home with
      | nil => exact around
      | cons inner above =>
        have there : volume.node? (inner :: above) ≠ none := by
          rw [isDirectory_iff.mp around]
          exact Option.some_ne_none _
        exact (entry_placed there).2
    next up =>
      cases stepped
      exact ⟨here, up, rfl, around⟩

/-- Where a path leads depends on the directories alone. -/
theorem find_congr (same : ∀ place, next.isDirectory place = volume.isDirectory place) :
    next.find cwd path = volume.find cwd path := by
  have steps : next.step = volume.step := by
    funext place name
    rw [step, same, step]
  rw [find, steps, find]

theorem base_congr (same : ∀ place, next.isDirectory place = volume.isDirectory place) :
    next.base cwd dir = volume.base cwd dir := by rw [base, find_congr same, base]

theorem locate_congr (same : ∀ place, next.isDirectory place = volume.isDirectory place) :
    next.locate cwd path = volume.locate cwd path := by rw [locate, find_congr same, locate]

/-! What the calls that succeed have done. -/

theorem isDirectory_eq_false : volume.isDirectory place = false ↔
    volume.node? place = none ∨ ∃ data, volume.node? place = some (.file data) := by
  unfold isDirectory
  cases volume.node? place with
  | none => simp
  | some node => cases node <;> simp

/-- What is no directory stays none, and the other way round. -/
theorem directories_of_nodes (changed : Place → Prop)
    (files : ∀ other, changed other → volume.isDirectory other = false ∧ next.isDirectory other = false)
    (rest : ∀ other, ¬changed other → next.node? other = volume.node? other) (other : Place) :
    next.isDirectory other = volume.isDirectory other := by
  by_cases touched : changed other
  · rw [(files other touched).1, (files other touched).2]
  · exact isDirectory_of_node? (rest other touched)

theorem openAppend_cases (opened : volume.openAppend cwd path fresh = some (next, place)) :
    volume.locate cwd path = some place ∧ volume.isDirectory place = false ∧
      ∀ other, next.node? other = if other = place then
        some (.file ((volume.file? place).getD fresh)) else volume.node? other := by
  obtain ⟨found, located, opened⟩ := Option.bind_eq_some_iff.mp opened
  split at opened
  next => cases opened
  next data there =>
    cases opened
    refine ⟨located, isDirectory_eq_false.mpr (.inr ⟨data, there⟩), fun other => ?_⟩
    rw [file?_eq_some.mpr there, Option.getD_some]
    split
    next same => rw [same, there]
    next => rfl
  next absent =>
    obtain ⟨next, stored, same⟩ := Option.map_eq_some_iff.mp opened
    cases same
    refine ⟨located, not_directory_of_put stored, fun other => ?_⟩
    rw [node?_put stored, file?, absent]
    rfl

theorem exists_openAppend (fresh : α) (located : volume.locate cwd path = some (name :: home)) (valid : Valid name)
    (around : volume.isDirectory home = true) (free : volume.isDirectory (name :: home) = false) :
    ∃ next, volume.openAppend cwd path fresh = some (next, name :: home) := by
  rw [openAppend, located, Option.bind_some]
  rcases isDirectory_eq_false.mp free with absent | ⟨data, found⟩
  · obtain ⟨next, stored⟩ := exists_put valid around free (.file fresh)
    exact ⟨next, by rw [absent, stored]; rfl⟩
  · exact ⟨volume, by rw [found]⟩

theorem rename_cases {old new : List (Fin 256)} (renamed : volume.rename cwd old new = some next) :
    ∃ source target data, volume.locate cwd old = some source ∧ volume.locate cwd new = some target ∧
      volume.file? source = some data ∧ volume.isDirectory target = false ∧
      ∀ other, next.node? other = if other = target then some (.file data)
        else if other = source then none else volume.node? other := by
  obtain ⟨source, first, renamed⟩ := Option.bind_eq_some_iff.mp renamed
  obtain ⟨target, second, renamed⟩ := Option.bind_eq_some_iff.mp renamed
  obtain ⟨data, found, renamed⟩ := Option.bind_eq_some_iff.mp renamed
  refine ⟨source, target, data, first, second, found, ?_⟩
  split at renamed
  next same =>
    cases renamed
    subst same
    refine ⟨isDirectory_eq_false.mpr (.inr ⟨data, file?_eq_some.mp found⟩), fun other => ?_⟩
    split
    next there => rw [there, file?_eq_some.mp found]
    next elsewhere => rfl
  next =>
    obtain ⟨rest, removed, stored⟩ := Option.bind_eq_some_iff.mp renamed
    refine ⟨(isDirectory_remove removed target).symm.trans (not_directory_of_put stored),
      fun other => ?_⟩
    rw [node?_put stored, node?_remove removed]

end Volume

/-! Paths without `.` and `..` spell out the places they lead to. -/

def IsName (name : Name) : Prop := name ≠ [dot] ∧ name ≠ [dot, dot]

def Plain (path : List (Fin 256)) : Prop := ∀ name ∈ components path, IsName name

instance (path : List (Fin 256)) : Decidable (Plain path) :=
  inferInstanceAs (Decidable (∀ _ ∈ _, _ ∧ _))

/-- Where the walk of a path begins. -/
def start (cwd : Place) (path : List (Fin 256)) : Place := if path.head? = some slash then [] else cwd

def placed (cwd : Place) (path : List (Fin 256)) : Place := (components path).reverse ++ start cwd path

theorem placed_of_components {cwd : Place} {path : List (Fin 256)} {names : List Name} {name : Name}
    (split : components path = names ++ [name]) :
    placed cwd path = name :: (names.reverse ++ start cwd path) := by
  rw [placed, split, List.reverse_append]
  rfl

namespace Volume

variable {α : Type*} {volume : Volume α} {place other home cwd : Place} {names : List Name}
  {name : Name} {path : List (Fin 256)}

/-- Everything around an entry is a directory. -/
theorem isDirectory_above (there : volume.node? place ≠ none) (above : other <:+ place)
    (proper : other ≠ place) : volume.isDirectory other = true := by
  induction place with
  | nil => exact absurd (List.suffix_nil.mp above) proper
  | cons name around ih =>
    have inside := (entry_placed there).2
    rcases List.suffix_cons_iff.mp above with same | higher
    · exact absurd same proper
    · by_cases same : other = around
      · rw [same, inside]
      · apply ih _ higher same
        rw [isDirectory_iff.mp inside]
        exact Option.some_ne_none _

theorem step_isName (isName : IsName name) (around : volume.isDirectory place = true) :
    volume.step place name = some (name :: place) := by
  rw [step, if_pos around, if_neg isName.1, if_neg isName.2]

/-- A walk through names gets to the last one if there is a directory before it. -/
theorem walk_concat (plain : ∀ other ∈ names ++ [name], IsName other)
    (around : volume.isDirectory home = true) : (names ++ [name]).foldlM volume.step home =
      if volume.isDirectory (names.reverse ++ home) then some (name :: (names.reverse ++ home)) else none := by
  induction names generalizing home with
  | nil =>
    rw [List.nil_append, List.foldlM_cons, step_isName (plain name List.mem_cons_self) around,
      List.reverse_nil, List.nil_append, if_pos around]
    rfl
  | cons first rest ih =>
    have later : ∀ other ∈ rest ++ [name], IsName other := fun other member =>
      plain other (List.mem_cons_of_mem _ member)
    rw [List.cons_append, List.foldlM_cons, step_isName (plain first List.mem_cons_self) around,
      List.reverse_cons, List.append_assoc, List.singleton_append]
    cases inside : volume.isDirectory (first :: home) with
    | true => exact ih later inside
    | false =>
      have stuck : (rest ++ [name]).foldlM volume.step (first :: home) = none := by
        obtain ⟨next, others, same⟩ := List.exists_cons_of_ne_nil
          (List.append_ne_nil_of_right_ne_nil rest (List.cons_ne_nil name []))
        rw [same, List.foldlM_cons, step, inside]
        rfl
      have outside : ¬volume.isDirectory (rest.reverse ++ first :: home) = true := by
        intro directory
        have there : volume.node? (rest.reverse ++ first :: home) ≠ none := by
          rw [isDirectory_iff.mp directory]
          exact Option.some_ne_none _
        by_cases same : first :: home = rest.reverse ++ first :: home
        · exact Bool.false_ne_true (inside.symm.trans (same ▸ directory))
        · exact Bool.false_ne_true
            (inside.symm.trans (isDirectory_above there (List.suffix_append _ _) same))
      rw [if_neg outside]
      exact stuck

theorem isDirectory_start (working : volume.isDirectory cwd = true) (path : List (Fin 256)) :
    volume.isDirectory (start cwd path) = true := by
  unfold start
  split
  next => rfl
  next => exact working

section
variable (nonempty : path ≠ []) (plain : Plain path) (working : volume.isDirectory cwd = true)
include nonempty plain working

theorem find_plain (split : components path = names ++ [name]) : volume.find cwd path =
    if volume.isDirectory (names.reverse ++ start cwd path) then some (placed cwd path) else none := by
  rw [find, if_neg nonempty, split, placed_of_components split]
  exact walk_concat (fun other member => plain other (split ▸ member)) (isDirectory_start working path)

/-- A path leads to its place, if it leads anywhere. -/
theorem stat_plain : volume.stat cwd path = volume.node? (placed cwd path) := by
  rcases List.eq_nil_or_concat (components path) with empty | ⟨names, name, split⟩
  · rw [stat, find, if_neg nonempty, empty, placed, empty]
    rfl
  · rw [List.concat_eq_append] at split
    rw [stat, find_plain nonempty plain working split]
    split
    next => rfl
    next outside =>
      cases there : volume.node? (placed cwd path) with
      | none => rfl
      | some node =>
        rw [placed_of_components split] at there
        exact absurd (entry_placed (by rw [there]; exact Option.some_ne_none _)).2 outside

theorem find_of_node? (there : volume.node? (placed cwd path) ≠ none) :
    volume.find cwd path = some (placed cwd path) := by
  rcases List.eq_nil_or_concat (components path) with empty | ⟨names, name, split⟩
  · rw [find, if_neg nonempty, empty, placed, empty]
    rfl
  · rw [List.concat_eq_append] at split
    rw [placed_of_components split] at there
    rw [find_plain nonempty plain working split, if_pos (entry_placed there).2]

theorem mkdir_of_node? (there : volume.node? (placed cwd path) ≠ none) :
    volume.mkdir cwd path = .error .exist := by
  rw [mkdir, find_of_node? nonempty plain working there]
  exact if_pos (Option.isSome_iff_ne_none.mpr there)

theorem exists_mkdir (split : components path = names ++ [name]) (valid : Valid name)
    (around : volume.isDirectory (names.reverse ++ start cwd path) = true)
    (absent : volume.node? (placed cwd path) = none) :
    ∃ made, volume.mkdir cwd path = .ok made ∧ ∀ other, made.node? other =
      if other = placed cwd path then some .directory else volume.node? other := by
  have free : volume.isDirectory (placed cwd path) = false := isDirectory_eq_false.mpr (.inl absent)
  rw [placed_of_components split] at free
  obtain ⟨made, stored⟩ := exists_put valid around free .directory
  rw [← placed_of_components split] at stored
  refine ⟨made, ?_, node?_put stored⟩
  rw [mkdir, find_plain nonempty plain working split, if_pos around]
  simp only [absent, stored, Option.isSome_none, Bool.false_eq_true, if_false]

end

end Volume

end ModbusDatabase.Library.FileSystem
