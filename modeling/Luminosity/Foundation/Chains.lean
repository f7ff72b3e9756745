import Mathlib.Logic.Relation

/-!
# Following a partial function

A partial function which sends a point on to another one can be followed until
it sends nowhere.  One who follows it in a circle arrives nowhere.

Where one arrives depends on the function only at the points which one comes
by.  When the function is changed at some points, one comes by the first of
these as before.
-/

namespace Luminosity.Foundation.Chains

open Relation

variable {α : Type}

/-- The function sends one point on to the other. -/
def Sends (next : α → Option α) (here there : α) : Prop :=
  next here = some there

/-- Following the function from one point, one comes by the other. -/
abbrev Passes (next : α → Option α) : α → α → Prop :=
  ReflTransGen (Sends next)

/-- Following the function from one point, one arrives at the other. -/
structure Arrives (next : α → Option α) (start stop : α) : Prop where
  passes : Passes next start stop
  stops : next stop = none

variable {next : α → Option α} {start middle stop other : α}

theorem arrives_self (stops : next start = none) : Arrives next start start :=
  ⟨.refl, stops⟩

theorem Arrives.head
    (sends : next start = some middle) (arrives : Arrives next middle stop) :
    Arrives next start stop :=
  ⟨.head sends arrives.passes, arrives.stops⟩

/-- What comes by a point arrives where the point does. -/
theorem Arrives.of_passes
    (arrives : Arrives next start stop) (passes : Passes next start middle) :
    Arrives next middle stop := by
  induction passes using ReflTransGen.head_induction_on with
  | refl => exact arrives
  | head sends _ induction =>
      apply induction
      refine ⟨?_, arrives.stops⟩
      rcases ReflTransGen.cases_head arrives.passes with same | ⟨_, first, rest⟩
      · rw [Sends, same, arrives.stops] at sends
        cases sends
      · rw [Sends, sends, Option.some.injEq] at first
        exact first ▸ rest

theorem Arrives.unique
    (arrives : Arrives next start stop) (others : Arrives next start other) :
    stop = other := by
  have onward := others.of_passes arrives.passes
  rcases ReflTransGen.cases_head onward.passes with same | ⟨_, sends, _⟩
  · exact same
  · rw [Sends, arrives.stops] at sends
    cases sends

/-- One who arrives never comes back. -/
theorem Arrives.not_back
    (arrives : Arrives next start stop) (sends : next start = some middle) :
    ¬ Passes next middle start := by
  have straight (point : α) (passes : Passes next point stop) :
      ¬ TransGen (Sends next) point point := by
    induction passes using ReflTransGen.head_induction_on with
    | refl =>
        intro circle
        rcases TransGen.head'_iff.mp circle with ⟨_, sends, _⟩
        rw [Sends, arrives.stops] at sends
        cases sends
    | head first _ induction =>
        intro circle
        rcases TransGen.head'_iff.mp circle with ⟨_, again, back⟩
        rw [Sends, first, Option.some.injEq] at again
        subst again
        exact induction (TransGen.tail' back first)
  intro back
  exact straight start arrives.passes (TransGen.head' sends back)

/-! ## Changing the function -/

section Changes

variable {changed : α → Option α}

theorem Passes.congr
    (same : ∀ point, Passes next start point → changed point = next point)
    (passes : Passes next start stop) :
    Passes changed start stop := by
  induction passes with
  | refl => exact .refl
  | tail earlier sends induction =>
      refine induction.tail ?_
      rw [Sends, same _ earlier]
      exact sends

/-- Where the function is changed nowhere on the way, the way is the same. -/
theorem passes_congr_iff
    (same : ∀ point, Passes next start point → changed point = next point) :
    Passes changed start stop ↔ Passes next start stop := by
  refine ⟨?_, Passes.congr same⟩
  intro passes
  induction passes with
  | refl => exact .refl
  | tail _ sends induction =>
      refine induction.tail ?_
      rw [Sends, ← same _ induction]
      exact sends

theorem Arrives.congr
    (same : ∀ point, Passes next start point → changed point = next point)
    (arrives : Arrives next start stop) :
    Arrives changed start stop := by
  refine ⟨Passes.congr same arrives.passes, ?_⟩
  rw [same stop arrives.passes, arrives.stops]

/-- The first changed point is come by before and after. -/
theorem Passes.first
    {among : α → Prop} (same : ∀ point, ¬ among point →
      changed point = next point)
    (passes : Passes changed start stop) (within : among stop) :
    ∃ point, among point ∧ Passes next start point ∧
      Passes changed start point := by
  induction passes using ReflTransGen.head_induction_on with
  | refl => exact ⟨stop, within, .refl, .refl⟩
  | @head here _ sends _ induction =>
      by_cases own : among here
      · exact ⟨here, own, .refl, .refl⟩
      · rcases induction with ⟨point, isChanged, before, after⟩
        refine ⟨point, isChanged, .head ?_ before, .head sends after⟩
        rw [Sends, ← same here own]
        exact sends

/-- One arrives as before, or comes by a changed point as before. -/
theorem Arrives.unchanged
    {among : α → Prop} (same : ∀ point, ¬ among point →
      changed point = next point)
    (arrives : Arrives changed start stop) :
    (Arrives next start stop ∧ ¬ among stop) ∨
      ∃ point, among point ∧ Passes next start point ∧
        Passes changed start point := by
  by_cases meets : ∃ point, among point ∧ Passes changed start point
  · rcases meets with ⟨point, isChanged, passes⟩
    exact .inr (Passes.first same passes isChanged)
  · left
    constructor
    · apply Arrives.congr _ arrives
      intro point passes
      exact (same point fun isChanged =>
        meets ⟨point, isChanged, passes⟩).symm
    · exact fun isChanged => meets ⟨stop, isChanged, arrives.passes⟩

end Changes

/-! ## A limit -/

/-- Where one arrives when one follows the function this often at most. -/
def follow (next : α → Option α) : Nat → α → Option α
  | 0, point =>
      match next point with
      | none => some point
      | some _ => none
  | limit + 1, point =>
      match next point with
      | none => some point
      | some there => follow next limit there

theorem follow_self (limit : Nat) (stops : next start = none) :
    follow next limit start = some start := by
  cases limit <;> rw [follow, stops]

theorem follow_zero (sends : next start = some middle) :
    follow next 0 start = none := by
  rw [follow, sends]

theorem follow_succ (limit : Nat) (sends : next start = some middle) :
    follow next (limit + 1) start = follow next limit middle := by
  rw [follow, sends]

theorem follow_arrives
    {limit : Nat} (follows : follow next limit start = some stop) :
    Arrives next start stop := by
  induction limit generalizing start with
  | zero =>
      cases sends : next start with
      | none =>
          rw [follow_self 0 sends, Option.some.injEq] at follows
          subst follows
          exact arrives_self sends
      | some middle =>
          rw [follow_zero sends] at follows
          cases follows
  | succ limit induction =>
      cases sends : next start with
      | none =>
          rw [follow_self _ sends, Option.some.injEq] at follows
          subst follows
          exact arrives_self sends
      | some middle =>
          rw [follow_succ limit sends] at follows
          exact (induction follows).head sends

theorem follow_more
    {limit : Nat} (follows : follow next limit start = some stop) :
    follow next (limit + 1) start = some stop := by
  induction limit generalizing start with
  | zero =>
      cases sends : next start with
      | none =>
          rw [follow_self _ sends] at follows ⊢
          exact follows
      | some middle =>
          rw [follow_zero sends] at follows
          cases follows
  | succ limit induction =>
      cases sends : next start with
      | none =>
          rw [follow_self _ sends] at follows ⊢
          exact follows
      | some middle =>
          rw [follow_succ _ sends] at follows ⊢
          exact induction follows

/-- What one comes by is not farther away. -/
theorem follow_of_passes
    {limit : Nat} (follows : follow next limit start = some stop)
    (passes : Passes next start middle) :
    follow next limit middle = some stop := by
  induction passes with
  | refl => exact follows
  | tail _ sends induction =>
      cases limit with
      | zero =>
          rw [follow_zero sends] at induction
          cases induction
      | succ limit =>
          rw [follow_succ limit sends] at induction
          exact follow_more induction

theorem follow_congr
    {changed : α → Option α} (limit : Nat)
    (same : ∀ point, Passes next start point → changed point = next point) :
    follow changed limit start = follow next limit start := by
  have own := same start .refl
  induction limit generalizing start with
  | zero =>
      cases sends : next start with
      | none => rw [follow_self 0 sends, follow_self 0 (own.trans sends)]
      | some middle => rw [follow_zero sends, follow_zero (own.trans sends)]
  | succ limit induction =>
      cases sends : next start with
      | none => rw [follow_self _ sends, follow_self _ (own.trans sends)]
      | some middle =>
          rw [follow_succ _ sends, follow_succ _ (own.trans sends)]
          have onward (point : α) (passes : Passes next middle point) :
              changed point = next point :=
            same point (.head sends passes)
          exact induction onward (onward middle .refl)

/-! ### Fewer steps -/

section Thinned

variable {changed : α → Option α}

theorem Passes.of_thinned
    (thinned : ∀ point, changed point = next point ∨ changed point = none)
    (passes : Passes changed start stop) :
    Passes next start stop := by
  refine ReflTransGen.mono ?_ _ _ passes
  intro here there sends
  rcases thinned here with same | ends
  · rw [Sends, ← same]
    exact sends
  · rw [Sends, ends] at sends
    cases sends

theorem follow_of_thinned
    {limit : Nat}
    (thinned : ∀ point, changed point = next point ∨ changed point = none)
    (follows : follow changed limit start = some stop)
    (stops : next stop = none) :
    follow next limit start = some stop := by
  have same (point : α) (passes : Passes changed start point) :
      next point = changed point := by
    rcases thinned point with same | ends
    · exact same.symm
    · have arrived :=
        ((follow_arrives follows).of_passes passes).unique (arrives_self ends)
      rw [ends, ← arrived, stops]
  exact (follow_congr limit same).trans follows

end Thinned

end Luminosity.Foundation.Chains
