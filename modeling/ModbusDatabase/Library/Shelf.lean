import ModbusDatabase.Library.Largest

/-! A shelf holds a page of items under each of finitely many keys. Putting items
under a new key leaves no more than the pages with the largest keys. -/

namespace ModbusDatabase.Library
open Largest
set_option autoImplicit false

structure Shelf (Key Item : Type*) where
  page : Key → Option (List Item)
  keys : Finset Key
  mem_keys : ∀ key, key ∈ keys ↔ page key ≠ none

namespace Shelf

variable {Key Item : Type*}

theorem ext_page {left right : Shelf Key Item} (same : ∀ key, left.page key = right.page key) :
    left = right := by
  have keys : left.keys = right.keys := by
    ext key
    rw [left.mem_keys, right.mem_keys, same]
  have pages : left.page = right.page := funext same
  cases left
  cases right
  cases keys
  cases pages
  rfl

theorem page_eq_none {shelf : Shelf Key Item} {key : Key} (unknown : key ∉ shelf.keys) :
    shelf.page key = none := by
  by_contra present
  exact unknown ((shelf.mem_keys key).mpr present)

section
variable [DecidableEq Key]

def remove (shelf : Shelf Key Item) (key : Key) : Shelf Key Item where
  page other := if other = key then none else shelf.page other
  keys := shelf.keys.erase key
  mem_keys other := by
    rw [Finset.mem_erase, shelf.mem_keys]
    by_cases same : other = key
    · rw [if_pos same]
      exact iff_of_false (fun known => known.1 same) fun present => present rfl
    · rw [if_neg same]
      exact and_iff_right same

/-- The items that additions put under a key. -/
def under (key : Key) (additions : List (Key × List Item)) : List Item :=
  (additions.filter fun addition => addition.1 = key).flatMap Prod.snd

def keysOf (additions : List (Key × List Item)) : Finset Key := (additions.map Prod.fst).toFinset

theorem under_eq_nil {key : Key} {additions : List (Key × List Item)} (other : key ∉ keysOf additions) :
    under key additions = [] := by
  rw [under, List.filter_eq_nil_iff.mpr, List.flatMap_nil]
  intro addition member same
  rw [decide_eq_true_eq] at same
  rw [keysOf, List.mem_toFinset, ← same] at other
  exact other (List.mem_map_of_mem member)

theorem keysOf_concat (before : List (Key × List Item)) (key : Key) (items : List Item) :
    keysOf (before ++ [(key, items)]) = insert key (keysOf before) := by
  rw [keysOf, List.map_append, List.toFinset_append, Finset.union_comm]
  rfl

theorem under_concat (other : Key) (before : List (Key × List Item)) (key : Key) (items : List Item) :
    under other (before ++ [(key, items)]) =
      if other = key then under other before ++ items else under other before := by
  by_cases same : other = key
  · simp [under, same]
  · simp [under, same, Ne.symm same]

end

variable [LinearOrder Key] [DecidableEq Key]

/-- The keys once one of them has been put: a new one pushes out the smallest beyond the limit. -/
def kept (limit : Nat) (keys : Finset Key) (key : Key) : Finset Key :=
  if key ∈ keys then keys else largest limit (insert key keys)

theorem mem_of_kept {limit : Nat} {keys : Finset Key} {key other : Key}
    (stays : other ∈ kept limit keys key) (new : other ≠ key) : other ∈ keys := by
  unfold kept at stays
  split at stays
  next => exact stays
  next => exact Finset.mem_of_mem_insert_of_ne (largest_subset _ _ stays) new

/-- Adds items to a page, which is opened for them if there is none. -/
def put (limit : Nat) (shelf : Shelf Key Item) (key : Key) (items : List Item) : Shelf Key Item where
  page other :=
    if other ∈ kept limit shelf.keys key then
      if other = key then some ((shelf.page other).getD [] ++ items) else shelf.page other
    else none
  keys := kept limit shelf.keys key
  mem_keys other := by
    by_cases stays : other ∈ kept limit shelf.keys key
    · refine iff_of_true stays ?_
      rw [if_pos stays]
      by_cases same : other = key
      · rw [if_pos same]
        exact Option.some_ne_none _
      · rw [if_neg same]
        exact (shelf.mem_keys other).mp (mem_of_kept stays same)
    · refine iff_of_false stays ?_
      rw [if_neg stays]
      exact fun present => present rfl

theorem page_put (limit : Nat) (shelf : Shelf Key Item) (key : Key) (items : List Item) (other : Key) :
    (shelf.put limit key items).page other =
      if other ∈ kept limit shelf.keys key then
        if other = key then some ((shelf.page other).getD [] ++ items) else shelf.page other
      else none := rfl

/-- The matching items of the first page that has any. -/
def search (matching : Item → Bool) (shelf : Shelf Key Item) : Option (List Item) :=
  ((shelf.keys.sort (· ≤ ·)).map fun key => ((shelf.page key).getD []).filter matching).find?
    fun hits => !hits.isEmpty

/-! A list of additions, from any shelf on. -/

def puts (limit : Nat) (shelf : Shelf Key Item) (additions : List (Key × List Item)) : Shelf Key Item :=
  additions.foldl (fun shelf addition => shelf.put limit addition.1 addition.2) shelf

/-- The keys that are left of these and some that are added one after the other. -/
def keptOf (limit : Nat) (keys added : Finset Key) : Finset Key :=
  if added ⊆ keys then keys else largest limit (keys ∪ added)

theorem keptOf_subset (limit : Nat) (keys added : Finset Key) : keptOf limit keys added ⊆ keys ∪ added := by
  unfold keptOf
  split
  next => exact Finset.subset_union_left
  next => exact largest_subset _ _

/-- What was added and is not there any more has been pushed out by larger keys. -/
theorem card_above_keptOf {limit : Nat} {keys added : Finset Key} {key : Key} (seen : key ∈ added)
    (lost : key ∉ keptOf limit keys added) : (above (keptOf limit keys added) key).card = limit := by
  have new : ¬added ⊆ keys := by
    intro old
    rw [keptOf, if_pos old] at lost
    exact lost (old seen)
  rw [keptOf, if_neg new] at lost ⊢
  exact card_above_largest (Finset.mem_union_right _ seen) lost

/-- What was dropped before a key came would be dropped after it too. -/
theorem kept_keptOf (limit : Nat) (keys added : Finset Key) (key : Key) :
    kept limit (keptOf limit keys added) key = keptOf limit keys (insert key added) := by
  by_cases old : added ⊆ keys
  · have before : keptOf limit keys added = keys := if_pos old
    rw [before]
    by_cases known : key ∈ keys
    · have after : keptOf limit keys (insert key added) = keys :=
        if_pos (Finset.insert_subset_iff.mpr ⟨known, old⟩)
      rw [after]
      exact if_pos known
    · have after : keptOf limit keys (insert key added) = largest limit (keys ∪ insert key added) :=
        if_neg fun all => known (Finset.insert_subset_iff.mp all).1
      rw [after, Finset.union_insert, Finset.union_eq_left.mpr old]
      exact if_neg known
  · have before : keptOf limit keys added = largest limit (keys ∪ added) := if_neg old
    have after : keptOf limit keys (insert key added) = largest limit (insert key (keys ∪ added)) := by
      rw [keptOf, if_neg fun all => old ((Finset.subset_insert key added).trans all), Finset.union_insert]
    rw [before, after, kept]
    split
    next known => rw [Finset.insert_eq_of_mem (largest_subset _ _ known)]
    next => exact largest_insert limit key (keys ∪ added)

/-- A key that is there in the end and was there or added before has not been dropped in between. -/
theorem mem_keptOf_of_insert {limit : Nat} {keys added : Finset Key} {key other : Key}
    (last : other ∈ keptOf limit keys (insert key added)) (known : other ∈ keys ∪ added) :
    other ∈ keptOf limit keys added := by
  by_cases old : added ⊆ keys
  · have before : keptOf limit keys added = keys := if_pos old
    rw [before]
    rwa [Finset.union_eq_left.mpr old] at known
  · have after : keptOf limit keys (insert key added) = largest limit (insert key (keys ∪ added)) := by
      rw [keptOf, if_neg fun all => old ((Finset.subset_insert key added).trans all), Finset.union_insert]
    rw [after] at last
    rw [keptOf, if_neg old]
    exact mem_largest_of_subset (Finset.subset_insert key _) last known

/-- The pages that are left hold what they held at first and all that was put under their keys. -/
structure Filled (limit : Nat) (shelf : Shelf Key Item) (additions : List (Key × List Item))
    (now : Shelf Key Item) : Prop where
  keys : now.keys = keptOf limit shelf.keys (keysOf additions)
  page : ∀ key ∈ now.keys, now.page key = some ((shelf.page key).getD [] ++ under key additions)

theorem filled_nil (limit : Nat) (shelf : Shelf Key Item) : Filled limit shelf [] shelf where
  keys := (if_pos (Finset.empty_subset _)).symm
  page key known := by
    obtain ⟨items, found⟩ := Option.ne_none_iff_exists'.mp ((shelf.mem_keys key).mp known)
    rw [found]
    exact congrArg some (List.append_nil items).symm

theorem Filled.put {limit : Nat} {shelf now : Shelf Key Item} {before : List (Key × List Item)}
    (filled : Filled limit shelf before now) (key : Key) (items : List Item) :
    Filled limit shelf (before ++ [(key, items)]) (now.put limit key items) := by
  have keys : kept limit now.keys key = keptOf limit shelf.keys (insert key (keysOf before)) := by
    rw [filled.keys, kept_keptOf]
  refine ⟨by rw [keysOf_concat]; exact keys, fun other stays => ?_⟩
  have step : (now.put limit key items).page other =
      if other = key then some ((now.page other).getD [] ++ items) else now.page other := if_pos stays
  have last : other ∈ keptOf limit shelf.keys (insert key (keysOf before)) := keys ▸ stays
  rw [step, under_concat]
  by_cases known : other ∈ now.keys
  · rw [filled.page other known]
    by_cases same : other = key
    · rw [if_pos same, if_pos same, Option.getD_some, List.append_assoc]
    · rw [if_neg same, if_neg same]
  · -- what was not there a step ago is the new key, which has never been there
    have unseen : other ∉ shelf.keys ∪ keysOf before := by
      intro seen
      rw [filled.keys] at known
      exact known (mem_keptOf_of_insert last seen)
    have own : other = key := by
      have inside := keptOf_subset _ _ _ last
      rw [Finset.union_insert] at inside
      exact (Finset.mem_insert.mp inside).resolve_right unseen
    have blank := page_eq_none fun there => unseen (Finset.mem_union_left _ there)
    have silent : under other before = [] := under_eq_nil fun seen => unseen (Finset.mem_union_right _ seen)
    rw [if_pos own, if_pos own, page_eq_none known, blank, silent]
    rfl

theorem filled_puts (limit : Nat) (shelf : Shelf Key Item) (additions : List (Key × List Item)) :
    Filled limit shelf additions (shelf.puts limit additions) := by
  induction additions using List.reverseRecOn with
  | nil => exact filled_nil limit shelf
  | append_singleton before addition ih =>
    rw [puts, List.foldl_append]
    exact ih.put addition.1 addition.2

end Shelf

end ModbusDatabase.Library
