import Mathlib.Data.List.Nodup

/-!
# Counting values

How often each value of a list occurs, from the most common value down.  Which
value comes first among equally common ones depends on the order of the list;
whether one of them is more common than every other one does not.
-/

namespace Luminosity.Foundation.Tallies

variable {α : Type} [DecidableEq α]

/-- The count of each value, in the order of their first occurrences. -/
def tally (values : List α) : List (α × Nat) :=
  values.eraseDups.map fun value => (value, values.count value)

/-- The counts from the highest down; equal counts keep their order. -/
def mostCommon (counts : List (α × Nat)) : List (α × Nat) :=
  counts.mergeSort fun first second => second.2 ≤ first.2

/-- A value occurs more often than every other one. -/
def Foremost (values : List α) (value : α) : Prop :=
  value ∈ values ∧
    ∀ other ∈ values, other ≠ value → values.count other < values.count value

/-- A value is more than half of the values. -/
def Majority (values : List α) (value : α) : Prop :=
  values.length < 2 * values.count value

/-- Two values together are no more than there are. -/
theorem count_add_count_le
    {first second : α}
    (different : first ≠ second)
    (values : List α) :
    values.count first + values.count second ≤ values.length := by
  induction values with
  | nil => exact Nat.le_refl 0
  | cons head tail induction =>
      rw [List.count_cons, List.count_cons, List.length_cons]
      by_cases isFirst : head = first
      · have notSecond : head ≠ second := fun isSecond =>
          different (isFirst.symm.trans isSecond)
        simp only [isFirst, beq_self_eq_true, if_pos, beq_iff_eq,
          if_neg different]
        omega
      · simp only [beq_iff_eq, if_neg isFirst]
        split <;> omega

/-- A majority is foremost. -/
theorem Majority.foremost
    {values : List α} {value : α}
    (majority : Majority values value) :
    Foremost values value := by
  unfold Majority at majority
  constructor
  · exact List.count_pos_iff.mp (by omega)
  · intro other _ different
    have together := count_add_count_le different values
    omega

/-- Only one value is foremost. -/
theorem Foremost.unique
    {values : List α} {first second : α}
    (foremost : Foremost values first)
    (also : Foremost values second) :
    first = second := by
  by_contra different
  have below := foremost.2 second also.1 (Ne.symm different)
  have above := also.2 first foremost.1 different
  omega

theorem foremost_perm
    {values others : List α}
    (same : values.Perm others)
    (value : α) :
    Foremost values value ↔ Foremost others value := by
  simp only [Foremost, same.mem_iff, same.count_eq]

theorem nodup_eraseDups (values : List α) :
    values.eraseDups.Nodup := by
  cases values with
  | nil => exact List.Pairwise.nil
  | cons head tail =>
      rw [List.eraseDups_cons, List.nodup_cons, List.mem_eraseDups]
      constructor
      · intro member
        have kept := (List.mem_filter.mp member).2
        simp at kept
      · exact nodup_eraseDups (tail.filter fun value => !value == head)
termination_by values.length
decreasing_by
  exact Nat.lt_succ_of_le (List.length_filter_le _ tail)

theorem mem_tally
    {values : List α} {entry : α × Nat} :
    entry ∈ tally values ↔
      entry.1 ∈ values ∧ entry.2 = values.count entry.1 := by
  rcases entry with ⟨value, count⟩
  simp only [tally, List.mem_map, List.mem_eraseDups, Prod.mk.injEq]
  constructor
  · rintro ⟨_, member, rfl, rfl⟩
    exact ⟨member, rfl⟩
  · rintro ⟨member, rfl⟩
    exact ⟨value, member, rfl, rfl⟩

/-- Each value is counted once. -/
theorem pairwise_tally (values : List α) :
    (tally values).Pairwise fun first second => first.1 ≠ second.1 :=
  List.Pairwise.map _ (fun _ _ different => different)
    (nodup_eraseDups values)

omit [DecidableEq α] in
theorem mostCommon_perm (counts : List (α × Nat)) :
    (mostCommon counts).Perm counts :=
  List.mergeSort_perm counts _

omit [DecidableEq α] in
/-- No later count is higher. -/
theorem pairwise_mostCommon (counts : List (α × Nat)) :
    (mostCommon counts).Pairwise fun first second =>
      second.2 ≤ first.2 := by
  have sorted :=
    @List.pairwise_mergeSort (α × Nat)
      (fun first second => second.2 ≤ first.2)
      (by simp only [decide_eq_true_eq]; intros; omega)
      (by simp only [Bool.or_eq_true, decide_eq_true_eq]; intros; omega)
      counts
  exact sorted.imp of_decide_eq_true

section MostCommon

variable {values : List α} {top : α × Nat} {rest : List (α × Nat)}

/-- What is counted first is a value with its count. -/
theorem top_of_mostCommon
    (counted : mostCommon (tally values) = top :: rest) :
    top.1 ∈ values ∧ top.2 = values.count top.1 := by
  have permuted := mostCommon_perm (tally values)
  rw [counted] at permuted
  exact mem_tally.mp (permuted.mem_iff.mp List.mem_cons_self)

/-- What is counted later is another value with its count. -/
theorem rest_of_mostCommon
    (counted : mostCommon (tally values) = top :: rest)
    {next : α × Nat} (member : next ∈ rest) :
    next.1 ∈ values ∧ next.2 = values.count next.1 ∧ next.1 ≠ top.1 := by
  have permuted := mostCommon_perm (tally values)
  have distinct :=
    (permuted.pairwise_iff fun unequal => Ne.symm unequal).mpr
      (pairwise_tally values)
  rw [counted] at permuted distinct
  have isCount :=
    mem_tally.mp (permuted.mem_iff.mp (List.mem_cons_of_mem _ member))
  exact ⟨isCount.1, isCount.2,
    ((List.pairwise_cons.mp distinct).1 next member).symm⟩

/-- Every other value is counted later. -/
theorem mem_rest_of_mostCommon
    (counted : mostCommon (tally values) = top :: rest)
    {other : α} (member : other ∈ values) (different : other ≠ top.1) :
    (other, values.count other) ∈ rest := by
  have permuted := mostCommon_perm (tally values)
  rw [counted] at permuted
  have isCount : (other, values.count other) ∈ tally values :=
    mem_tally.mpr ⟨member, rfl⟩
  rcases List.mem_cons.mp (permuted.mem_iff.mpr isCount) with
    isTop | later
  · exact absurd (congrArg Prod.fst isTop) different
  · exact later

/--
The most common value is foremost when the next count, if there is one, is
lower.
-/
theorem foremost_iff_of_mostCommon
    (counted : mostCommon (tally values) = top :: rest)
    (value : α) :
    Foremost values value ↔
      (rest.head?.all fun next => next.2 < top.2) = true ∧
        value = top.1 := by
  have ordered := pairwise_mostCommon (tally values)
  rw [counted] at ordered
  have topCount := top_of_mostCommon counted
  constructor
  · intro foremost
    have isTop : value = top.1 := by
      by_contra different
      have listed := (List.pairwise_cons.mp ordered).1 _
        (mem_rest_of_mostCommon counted foremost.1 different)
      have lower := foremost.2 top.1 topCount.1 (Ne.symm different)
      rw [← topCount.2] at lower
      exact absurd listed (Nat.not_le_of_lt lower)
    refine ⟨?_, isTop⟩
    cases rest with
    | nil => rfl
    | cons next later =>
        rcases rest_of_mostCommon counted List.mem_cons_self with
          ⟨member, nextCount, different⟩
        rw [← isTop] at different
        have lower := foremost.2 next.1 member different
        rw [← nextCount, isTop, ← topCount.2] at lower
        exact decide_eq_true lower
  · rintro ⟨alone, rfl⟩
    refine ⟨topCount.1, ?_⟩
    intro other member different
    have listed := mem_rest_of_mostCommon counted member different
    cases rest with
    | nil => cases listed
    | cons next later =>
        have lower : next.2 < top.2 := of_decide_eq_true alone
        have atMost : values.count other ≤ next.2 := by
          rcases List.mem_cons.mp listed with isNext | isLater
          · exact Nat.le_of_eq (congrArg Prod.snd isNext)
          · exact (List.pairwise_cons.mp (List.pairwise_cons.mp ordered).2).1
              _ isLater
        rw [← topCount.2]
        exact Nat.lt_of_le_of_lt atMost lower

end MostCommon

/-- There is one count when all values are equal. -/
theorem length_tally_eq_one
    {values : List α}
    (nonempty : values ≠ []) :
    (tally values).length = 1 ↔
      ∀ first ∈ values, ∀ second ∈ values, first = second := by
  rw [tally, List.length_map]
  cases values with
  | nil => exact absurd rfl nonempty
  | cons head tail =>
      rw [List.eraseDups_cons, List.length_cons, Nat.add_eq_right,
        List.length_eq_zero_iff]
      constructor
      · intro none first firstIn second secondIn
        have same : ∀ value ∈ head :: tail, value = head := by
          intro value member
          rcases List.mem_cons.mp member with isHead | later
          · exact isHead
          by_contra different
          have kept :
              value ∈ (tail.filter fun value => !value == head).eraseDups := by
            rw [List.mem_eraseDups, List.mem_filter]
            exact ⟨later, by simpa using different⟩
          rw [none] at kept
          cases kept
        exact (same first firstIn).trans (same second secondIn).symm
      · intro equal
        rw [List.eq_nil_iff_forall_not_mem]
        intro value member
        rw [List.mem_eraseDups, List.mem_filter] at member
        have same := equal value (List.mem_cons_of_mem _ member.1) head
          List.mem_cons_self
        rw [same] at member
        simp at member

end Luminosity.Foundation.Tallies
