import Mathlib.Data.List.Nodup

/-!
# Dropping the first of a sorted list

A list is cut to a length by sorting it and dropping the first items.  What is
dropped has enough other items which are not before it in the order; and an
item which is before all others is the first to go.
-/

namespace Luminosity.Foundation.OldestFirst

variable {α : Type} {le : α → α → Bool}

/-! ## The two parts -/

/-- What is dropped of the items, the first of them in the order. -/
def dropped (le : α → α → Bool) (cap : Nat) (items : List α) : List α :=
  (items.mergeSort le).take (items.length - cap)

/-- What is kept of the items, as many as the cap allows. -/
def kept (le : α → α → Bool) (cap : Nat) (items : List α) : List α :=
  (items.mergeSort le).drop (items.length - cap)

section Parts

variable {cap : Nat} {items : List α} {item other : α}

theorem length_kept : (kept le cap items).length = min items.length cap := by
  rw [kept, List.length_drop, List.length_mergeSort]
  omega

/-- Every item is dropped or kept. -/
theorem mem_iff_dropped_or_kept :
    item ∈ items ↔ item ∈ dropped le cap items ∨ item ∈ kept le cap items := by
  rw [← List.mem_append, dropped, kept, List.take_append_drop,
    List.mem_mergeSort]

theorem nodup_parts (nodup : items.Nodup) :
    (dropped le cap items ++ kept le cap items).Nodup := by
  rw [dropped, kept, List.take_append_drop]
  exact (List.mergeSort_perm items le).nodup_iff.mpr nodup

theorem nodup_kept (nodup : items.Nodup) : (kept le cap items).Nodup :=
  (List.nodup_append.mp (nodup_parts nodup)).2.1

/-- No item is dropped and kept. -/
theorem ne_of_dropped_of_kept
    (nodup : items.Nodup) (isDropped : item ∈ dropped le cap items)
    (isKept : other ∈ kept le cap items) :
    item ≠ other :=
  (List.nodup_append.mp (nodup_parts nodup)).2.2 item isDropped other isKept

/-- What is dropped comes before what is kept. -/
theorem le_of_dropped_of_kept
    (trans : ∀ first second third, le first second → le second third →
      le first third)
    (total : ∀ first second, le first second || le second first)
    (isDropped : item ∈ dropped le cap items)
    (isKept : other ∈ kept le cap items) :
    le item other := by
  have sorted := List.pairwise_mergeSort trans total items
  rw [← List.take_append_drop (items.length - cap) (items.mergeSort le)]
    at sorted
  exact (List.pairwise_append.mp sorted).2.2 item isDropped other isKept

/-- As many others as are kept do not come before what is dropped. -/
theorem exists_kept_of_dropped
    (trans : ∀ first second third, le first second → le second third →
      le first third)
    (total : ∀ first second, le first second || le second first)
    (nodup : items.Nodup) (isDropped : item ∈ dropped le cap items) :
    ∃ kept : List α,
      kept.Nodup ∧ kept.length = cap ∧
        ∀ other ∈ kept, other ∈ items ∧ other ≠ item ∧ le item other := by
  refine ⟨kept le cap items, nodup_kept nodup, ?_, ?_⟩
  · have positive := List.length_pos_of_mem isDropped
    rw [dropped, List.length_take, List.length_mergeSort] at positive
    rw [length_kept]
    omega
  · intro other isKept
    refine ⟨mem_iff_dropped_or_kept.mpr (Or.inr isKept), ?_, ?_⟩
    · exact (ne_of_dropped_of_kept nodup isDropped isKept).symm
    · exact le_of_dropped_of_kept trans total isDropped isKept

end Parts

/-! ## The first item -/

/-- What is first, and is before all others, stays first. -/
theorem mergeSort_cons_of_first
    (trans : ∀ first second third, le first second → le second third →
      le first third)
    (total : ∀ first second, le first second || le second first)
    {item : α} {items : List α} (first : ∀ other ∈ items, le item other) :
    (item :: items).mergeSort le = item :: items.mergeSort le := by
  rcases List.mergeSort_cons trans total item items with
    ⟨before, after, sorted, rest, strict⟩
  cases before with
  | nil =>
      rw [sorted, rest]
      rfl
  | cons other _ =>
      have member : other ∈ items := by
        rw [← @List.mem_mergeSort _ le, rest]
        exact List.mem_cons_self
      have strictly := strict other List.mem_cons_self
      rw [first other member] at strictly
      cases strictly

end Luminosity.Foundation.OldestFirst
