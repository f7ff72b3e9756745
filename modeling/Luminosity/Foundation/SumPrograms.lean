import Luminosity.Foundation.Interleaving

/-!
# Programs over two interfaces

A program over one interface is also one over that interface and another.  The
operations of the first act on one part of a state, and those of the second on
all of it, so what is known of a program over the part carries over: which
operations it asks for, its runs, and the rules it keeps beside other threads.
-/

namespace Luminosity.Foundation.SumPrograms

open Relation
open Luminosity.Foundation.EffectPrograms
open Luminosity.Foundation.Interleaving

/-- The operations of two interfaces. -/
abbrev both (left right : Interface) : Interface where
  Op := left.Op ⊕ right.Op
  Answer := Sum.elim left.Answer right.Answer

variable {left right : Interface} {Part Rest : Type} {α ε : Type}

/-- The program asks for operations of the first interface only. -/
def onLeft (right : Interface) :
    Program left α → Program (both left right) α
  | .done value => .done value
  | .ask op next => .ask (.inl op) fun answer => onLeft right (next answer)

/-- The same for a computation which may fail. -/
def onLeftExcept (right : Interface)
    (computation : ExceptT ε (Program left) α) :
    ExceptT ε (Program (both left right)) α :=
  ExceptT.mk (onLeft right computation.run)

/-- Ask for one operation of the second interface. -/
def onRight (left : Interface) (op : right.Op) :
    Program (both left right) (right.Answer op) :=
  @Program.perform (both left right) (.inr op)

/-- The first interface acts on a part of the state, the second on all. -/
def combined
    (first : Semantics left Part) (second : Semantics right (Part × Rest)) :
    Semantics (both left right) (Part × Rest)
  | .inl op, before, answer, after =>
      first op before.1 answer after.1 ∧ after.2 = before.2
  | .inr op, before, answer, after => second op before answer after

variable {first : Semantics left Part}
variable {second : Semantics right (Part × Rest)}

theorem asks_onRight
    {allowed : (both left right).Op → Prop} (op : right.Op) :
    Asks allowed (onRight left op) ↔ allowed (.inr op) :=
  @asks_perform (both left right) allowed (.inr op)

theorem Asks.onLeft
    {allowed : left.Op → Prop} {wider : (both left right).Op → Prop}
    {program : Program left α} (asks : Asks allowed program)
    (weaken : ∀ op, allowed op → wider (.inl op)) :
    Asks wider (SumPrograms.onLeft right program) := by
  induction program with
  | done value => trivial
  | ask op next induction =>
      exact ⟨weaken op asks.1, fun answer => induction answer (asks.2 answer)⟩

/-- A run over the part is a run over the whole, which leaves the rest. -/
theorem Runs.onLeft
    {program : Program left α} {state final : Part} {value : α}
    (runs : Runs first program state value final) (rest : Rest) :
    Runs (combined first second) (SumPrograms.onLeft right program)
      (state, rest) value (final, rest) := by
  induction runs with
  | done value state => exact .done value (state, rest)
  | ask step _ induction =>
      have whole :
          combined first second (.inl _) (_, rest) _ (_, rest) :=
        ⟨step, rfl⟩
      exact .ask whole induction

/-! ## Rules over the part and rules over the whole -/

/-- Rules over the whole which ask no more of the part than its own rules. -/
structure Extends
    (rules : Rules (Part × Rest)) (partRules : Rules Part) : Prop where
  invariant : ∀ state, rules.invariant state → partRules.invariant state.1
  rely : ∀ before after, rules.rely before after →
    partRules.rely before.1 after.1
  guarantee : ∀ before after, partRules.guarantee before.1 after.1 →
    after.2 = before.2 → rules.guarantee before after

variable {rules : Rules (Part × Rest)} {partRules : Rules Part}

theorem Extends.later
    (lifted : Extends rules partRules) {before after : Part × Rest}
    (moves : rules.Later before after) :
    partRules.Later before.1 after.1 := by
  induction moves with
  | refl => exact .refl
  | tail _ step induction =>
      exact induction.tail
        ⟨lifted.invariant _ step.1, lifted.invariant _ step.2.1,
          lifted.rely _ _ step.2.2⟩

theorem Extends.stable
    (lifted : Extends rules partRules) {assertion : Part → Prop}
    (stable : partRules.Stable assertion) :
    rules.Stable fun state => assertion state.1 := by
  intro before after first last moves holds
  exact stable before.1 after.1 (lifted.invariant _ first)
    (lifted.invariant _ last) (lifted.rely _ _ moves) holds

/-- A program which keeps the rules of the part keeps those of the whole. -/
theorem Abides.onLeft
    (lifted : Extends rules partRules)
    {pre : Part → Prop} {post : α → Part → Prop} {program : Program left α}
    (abides : Abides first partRules pre program post) :
    Abides (combined first second) rules (fun state => pre state.1)
      (SumPrograms.onLeft right program)
      fun value state => post value state.1 := by
  intro state invariant holds
  have respects := abides state.1 (lifted.invariant state invariant) holds
  clear holds invariant abides
  induction program generalizing state with
  | done value =>
      intro later moves laterInvariant
      exact respects later.1 (lifted.later moves)
        (lifted.invariant later laterInvariant)
  | ask op next induction =>
      rintro later moves laterInvariant answer after ⟨step, same⟩
      have outcome := respects later.1 (lifted.later moves)
        (lifted.invariant later laterInvariant) answer after.1 step
      refine ⟨lifted.guarantee later after outcome.1 same, ?_⟩
      intro afterInvariant
      exact induction answer after
        (outcome.2 (lifted.invariant after afterInvariant))

/-- One operation of the second interface keeps the rules. -/
theorem Abides.onRight
    {pre : Part × Rest → Prop} {op : right.Op}
    {post : right.Answer op → Part × Rest → Prop}
    (preStable : rules.Stable pre)
    (postStable : ∀ answer, rules.Stable (post answer))
    (step : ∀ state answer after, rules.invariant state → pre state →
      second op state answer after →
        rules.guarantee state after ∧
          (rules.invariant after → post answer after)) :
    Abides (combined first second) rules pre
      (SumPrograms.onRight left op) post :=
  @Abides.perform (both left right) (Part × Rest) (combined first second)
    rules pre (.inr op) post preStable postStable step

end Luminosity.Foundation.SumPrograms
