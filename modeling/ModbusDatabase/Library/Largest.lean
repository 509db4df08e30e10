import Mathlib.Data.Finset.Sort
import Mathlib.Order.Lattice

/-! The `k` largest elements of a finite set in a linear order, and the law that
a stream of insertions may drop everything else as it goes. -/

namespace ModbusDatabase.Library.Largest
set_option autoImplicit false

variable {α : Type*} [LinearOrder α]

/-- The elements with fewer than `k` larger ones. -/
def largest (k : Nat) (items : Finset α) : Finset α :=
  items.filter fun x => (items.filter (x < ·)).card < k

theorem mem_largest {k : Nat} {items : Finset α} {x : α} :
    x ∈ largest k items ↔ x ∈ items ∧ (items.filter (x < ·)).card < k := Finset.mem_filter

theorem largest_subset (k : Nat) (items : Finset α) : largest k items ⊆ items :=
  Finset.filter_subset _ _

/-- The elements above `x`. -/
def above (items : Finset α) (x : α) : Finset α := items.filter (x < ·)

/-- A new element is among the largest exactly when there is room above it. -/
theorem mem_largest_insert [DecidableEq α] {k : Nat} {x : α} {items : Finset α} :
    x ∈ largest k (insert x items) ↔ (above items x).card < k := by
  have same : (insert x items).filter (x < ·) = above items x := by
    rw [Finset.filter_insert, if_neg (lt_irrefl x), above]
  rw [mem_largest, same]
  exact and_iff_right (Finset.mem_insert_self _ _)

/-- Above an element among the largest there are only others of them. -/
theorem mem_largest_of_lt {k : Nat} {items : Finset α} {x y : α} (member : x ∈ largest k items)
    (above : x < y) (inside : y ∈ items) : y ∈ largest k items := by
  refine mem_largest.mpr ⟨inside, lt_of_le_of_lt (Finset.card_le_card ?_) (mem_largest.mp member).2⟩
  intro z
  simp only [Finset.mem_filter]
  exact fun ⟨known, higher⟩ => ⟨known, above.trans higher⟩

/-- An element among the largest of a set is among the largest of any part it is in. -/
theorem mem_largest_of_subset {k : Nat} {part items : Finset α} {x : α} (inside : part ⊆ items)
    (member : x ∈ largest k items) (known : x ∈ part) : x ∈ largest k part := by
  refine mem_largest.mpr ⟨known, lt_of_le_of_lt (Finset.card_le_card ?_) (mem_largest.mp member).2⟩
  exact Finset.filter_subset_filter _ inside

theorem largest_of_card_le {k : Nat} {items : Finset α} (few : items.card ≤ k) :
    largest k items = items := by
  apply Finset.filter_true_of_mem
  intro x member
  refine lt_of_lt_of_le (Finset.card_lt_card ?_) few
  exact Finset.filter_ssubset.mpr ⟨x, member, lt_irrefl x⟩

/-- The largest elements are the only part of their size that is closed upwards. -/
theorem eq_largest {k : Nat} {part items : Finset α} (inside : part ⊆ items)
    (size : part.card = min k items.card)
    (upward : ∀ x ∈ part, ∀ y ∈ items, x < y → y ∈ part) : part = largest k items := by
  ext x
  constructor
  · intro member
    refine mem_largest.mpr ⟨inside member, ?_⟩
    have above : items.filter (x < ·) ⊂ part := by
      refine ⟨fun y higher => ?_, fun all => ?_⟩
      · obtain ⟨known, less⟩ := Finset.mem_filter.mp higher
        exact upward x member y known less
      · exact lt_irrefl x (Finset.mem_filter.mp (all member)).2
    have bound := Finset.card_lt_card above
    omega
  · intro member
    obtain ⟨known, few⟩ := mem_largest.mp member
    by_contra outside
    have above : part ⊆ items.filter (x < ·) := by
      intro y chosen
      refine Finset.mem_filter.mpr ⟨inside chosen, ?_⟩
      rcases lt_trichotomy x y with less | same | more
      · exact less
      · exact absurd (same ▸ chosen) outside
      · exact absurd (upward y chosen x known more) outside
    have small := Finset.card_le_card above
    have whole : part = items := Finset.eq_of_subset_of_card_le inside (by omega)
    exact outside (whole ▸ known)

variable [DecidableEq α]

/-- Dropping the smallest elements of a sorted list down to `k` leaves the largest. -/
theorem toFinset_drop {k : Nat} {sorted : List α} (ordered : sorted.Pairwise (· < ·)) :
    (sorted.drop (sorted.length - k)).toFinset = largest k sorted.toFinset := by
  have distinct : sorted.Nodup := ordered.imp ne_of_lt
  apply eq_largest
  · intro x late
    rw [List.mem_toFinset] at late ⊢
    exact List.mem_of_mem_drop late
  · rw [List.toFinset_card_of_nodup distinct,
      List.toFinset_card_of_nodup (distinct.sublist (List.drop_sublist _ _)), List.length_drop]
    omega
  · intro x late y known less
    rw [List.mem_toFinset] at late known ⊢
    rw [← List.take_append_drop (sorted.length - k) sorted] at known ordered
    rcases List.mem_append.mp known with early | done
    · have other := (List.pairwise_append.mp ordered).2.2 y early x late
      exact absurd (other.trans less) (lt_irrefl y)
    · exact done

theorem card_largest (k : Nat) (items : Finset α) : (largest k items).card = min k items.card := by
  have ordered : items.sort.Pairwise (· < ·) := (Finset.sortedLT_sort items).pairwise
  have dropped : _ = largest k items.sort.toFinset := toFinset_drop ordered
  rw [Finset.sort_toFinset] at dropped
  rw [← dropped, List.toFinset_card_of_nodup
    ((Finset.sort_nodup items (· ≤ ·)).sublist (List.drop_sublist _ _)), List.length_drop,
    Finset.length_sort]
  omega

/-- What is not among the largest has as many of them above it as there are to be. -/
theorem card_above_largest {k : Nat} {items : Finset α} {x : α} (known : x ∈ items)
    (lost : x ∉ largest k items) : (above (largest k items) x).card = k := by
  have higher : above (largest k items) x = largest k items := by
    apply Finset.filter_true_of_mem
    intro y kept
    rcases lt_trichotomy x y with less | same | more
    · exact less
    · exact absurd (same ▸ kept) lost
    · exact absurd (mem_largest_of_lt kept more known) lost
  have many : k ≤ items.card := by
    by_contra few
    exact lost ((largest_of_card_le (not_le.mp few).le).symm ▸ known)
  rw [higher, card_largest]
  exact min_eq_left many

/-- Streaming: whatever was dropped before an insertion would be dropped after it too. -/
theorem largest_insert (k : Nat) (x : α) (items : Finset α) :
    largest k (insert x (largest k items)) = largest k (insert x items) := by
  have part : insert x (largest k items) ⊆ insert x items :=
    Finset.insert_subset_insert x (largest_subset k items)
  apply eq_largest ((largest_subset k _).trans part)
  · rw [card_largest]
    have bound := card_largest k items
    by_cases known : x ∈ items
    · rw [Finset.insert_eq_of_mem known]
      by_cases kept : x ∈ largest k items
      · rw [Finset.insert_eq_of_mem kept]
        omega
      · rw [Finset.card_insert_of_notMem kept]
        have lost : (largest k items).card < items.card :=
          Finset.card_lt_card ⟨largest_subset k items, fun all => kept (all known)⟩
        omega
    · rw [Finset.card_insert_of_notMem known,
        Finset.card_insert_of_notMem (fun kept => known (largest_subset k items kept))]
      omega
  · intro y chosen z known less
    apply mem_largest_of_lt chosen less
    rcases Finset.mem_insert.mp known with rfl | old
    · exact Finset.mem_insert_self _ _
    · apply Finset.mem_insert_of_mem
      by_contra lost
      -- every one of the `k` largest lies above `z`, hence above `y`
      have many : k ≤ (largest k items).card := by
        rw [card_largest]
        by_contra few
        exact lost ((largest_of_card_le (by omega : items.card ≤ k)).symm ▸ old)
      have above : largest k items ⊆ (insert x (largest k items)).filter (y < ·) := by
        intro w kept
        refine Finset.mem_filter.mpr ⟨Finset.mem_insert_of_mem kept, less.trans ?_⟩
        rcases lt_trichotomy z w with higher | same | lower
        · exact higher
        · exact absurd (same ▸ kept) lost
        · exact absurd (mem_largest_of_lt kept lower old) lost
      have few := (mem_largest.mp chosen).2
      have bound := Finset.card_le_card above
      omega

end ModbusDatabase.Library.Largest
