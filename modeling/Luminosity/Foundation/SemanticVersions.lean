import Luminosity.Foundation.TextSegments
import Mathlib.Data.Char
import Mathlib.Data.List.Lex
import Mathlib.Data.Prod.Lex
import Mathlib.Data.Sum.Order
import Mathlib.Order.WithBot

/-!
# Semantic versions

A semantic version is a triple of numbers, with a sequence of identifiers when
it is a prerelease.  Its precedence is the lexicographic order on them: an
identifier which is a number precedes every one which is not, a sequence
precedes its extensions, and a prerelease precedes the release it leads to.

The display of a version determines it, as long as no identifier could be read
as something else.
-/

namespace Luminosity.Foundation.SemanticVersions

open Luminosity.Foundation.TextSegments

/-- One identifier of a prerelease. -/
inductive Identifier
  | numeric (value : Nat)
  | textual (text : Text)
deriving DecidableEq, Repr

/-- The identifiers of a prerelease: there is at least one. -/
structure Prerelease where
  first : Identifier
  rest : List Identifier
deriving DecidableEq, Repr

namespace Prerelease

/-- All the identifiers, in order. -/
def identifiers (prerelease : Prerelease) : List Identifier :=
  prerelease.first :: prerelease.rest

end Prerelease

/-- A version.  Without prerelease, it is a stable release. -/
structure Version where
  major : Nat
  minor : Nat
  patch : Nat
  prerelease : Option Prerelease
deriving DecidableEq, Repr

/-! ## Precedence -/

/-- Where an identifier stands: numbers come first. -/
def Identifier.rank : Identifier → ℕ ⊕ₗ List Char
  | .numeric value => toLex (Sum.inl value)
  | .textual text => toLex (Sum.inr text)

/-- Where a prerelease stands before its release, which is on top. -/
def prereleaseRank :
    Option Prerelease → WithTop (List (ℕ ⊕ₗ List Char))
  | none => ⊤
  | some prerelease =>
      ((prerelease.identifiers.map Identifier.rank :
        List (ℕ ⊕ₗ List Char)) : WithTop (List (ℕ ⊕ₗ List Char)))

/-- The precedence of a version. -/
def Version.precedence (version : Version) :
    ℕ ×ₗ ℕ ×ₗ ℕ ×ₗ WithTop (List (ℕ ⊕ₗ List Char)) :=
  toLex (version.major, toLex (version.minor,
    toLex (version.patch, prereleaseRank version.prerelease)))

/-- The first version precedes the second one. -/
def Precedes (earlier later : Version) : Prop :=
  earlier.precedence < later.precedence

theorem Precedes.trans
    {first second third : Version}
    (before : Precedes first second)
    (after : Precedes second third) :
    Precedes first third :=
  lt_trans before after

instance : IsTrans Version Precedes :=
  ⟨fun _ _ _ before after => before.trans after⟩

theorem Precedes.irrefl (version : Version) : ¬ Precedes version version :=
  lt_irrefl _

/-- Of two versions of one line, the one with the lower minor precedes. -/
theorem precedes_of_minor
    {earlier later : Version}
    (sameMajor : earlier.major = later.major)
    (lower : earlier.minor < later.minor) :
    Precedes earlier later := by
  unfold Precedes Version.precedence
  rw [Prod.Lex.toLex_lt_toLex]
  right
  constructor
  · exact sameMajor
  · rw [Prod.Lex.toLex_lt_toLex]
    left
    exact lower

/-- Of two versions of one triple, the prereleases decide. -/
theorem precedes_of_prerelease
    {earlier later : Version}
    (sameMajor : earlier.major = later.major)
    (sameMinor : earlier.minor = later.minor)
    (samePatch : earlier.patch = later.patch)
    (lower :
      prereleaseRank earlier.prerelease < prereleaseRank later.prerelease) :
    Precedes earlier later := by
  unfold Precedes Version.precedence
  rw [sameMajor, sameMinor, samePatch]
  iterate 3
    rw [Prod.Lex.toLex_lt_toLex]
    right
    refine ⟨rfl, ?_⟩
  exact lower

/-- A prerelease precedes the release. -/
theorem prereleaseRank_some_lt_none (prerelease : Prerelease) :
    prereleaseRank (some prerelease) < prereleaseRank none :=
  WithTop.coe_lt_top _

/-- A prerelease precedes the one whose trailing number is higher. -/
theorem prereleaseRank_lt_of_trailing
    (first : Identifier) (front : List Identifier)
    {lower higher : Nat} (less : lower < higher) :
    prereleaseRank (some ⟨first, front ++ [.numeric lower]⟩) <
      prereleaseRank (some ⟨first, front ++ [.numeric higher]⟩) := by
  unfold prereleaseRank
  rw [WithTop.coe_lt_coe]
  have trailing :
      List.Lex (· < ·) [Identifier.rank (.numeric lower)]
        [Identifier.rank (.numeric higher)] :=
    List.Lex.rel (Sum.Lex.inl_lt_inl_iff.mpr less)
  have common := List.Lex.append_left (· < ·) trailing
    ((first :: front).map Identifier.rank)
  simpa [Prerelease.identifiers] using common

/-! ## Display -/

/-- The display of an identifier. -/
def Identifier.display : Identifier → Text
  | .numeric value => decimal value
  | .textual text => text

/-- The display of what follows the three numbers. -/
def displaySuffix : Option Prerelease → Text
  | none => []
  | some prerelease =>
      '-' :: ['.'].intercalate
        (prerelease.identifiers.map Identifier.display)

/-- The display of a version. -/
def Version.display (version : Version) : Text :=
  decimal version.major ++ '.' ::
    (decimal version.minor ++ '.' ::
      (decimal version.patch ++ displaySuffix version.prerelease))

/-- The display of the identifier is read back as the identifier. -/
def Identifier.WellFormed : Identifier → Prop
  | .numeric _ => True
  | .textual text =>
      '.' ∉ text ∧ ∃ character ∈ text, character.isDigit = false

/-- Every identifier of the version is well formed. -/
def Version.WellFormed (version : Version) : Prop :=
  ∀ prerelease, version.prerelease = some prerelease →
    ∀ identifier ∈ prerelease.identifiers, identifier.WellFormed

theorem Identifier.display_injective
    {left right : Identifier}
    (leftFormed : left.WellFormed)
    (rightFormed : right.WellFormed)
    (equal : left.display = right.display) :
    left = right := by
  -- A text with a character which is no digit is no numeral.
  have apart : ∀ {value : Nat} {text : Text},
      (Identifier.textual text).WellFormed → decimal value ≠ text := by
    intro value text formed same
    rcases formed with ⟨_, character, member, notDigit⟩
    exact notMem_decimal notDigit value (same ▸ member)
  cases left with
  | numeric value =>
      cases right with
      | numeric other => rw [decimal_injective equal]
      | textual text => exact absurd equal (apart rightFormed)
  | textual text =>
      cases right with
      | numeric value => exact absurd equal.symm (apart leftFormed)
      | textual other => exact congrArg Identifier.textual equal

theorem Identifier.dot_notMem_display
    {identifier : Identifier}
    (formed : identifier.WellFormed) :
    '.' ∉ identifier.display := by
  cases identifier with
  | numeric value => exact notMem_decimal (by decide) value
  | textual text => exact formed.1

theorem displays_injective
    {left right : List Identifier}
    (leftFormed : ∀ identifier ∈ left, identifier.WellFormed)
    (rightFormed : ∀ identifier ∈ right, identifier.WellFormed)
    (equal :
      left.map Identifier.display = right.map Identifier.display) :
    left = right := by
  induction left generalizing right with
  | nil => exact (List.map_eq_nil_iff.mp equal.symm).symm
  | cons head tail induction =>
      cases right with
      | nil => cases equal
      | cons other others =>
          rw [List.map_cons, List.map_cons, List.cons.injEq] at equal
          rw [List.forall_mem_cons] at leftFormed rightFormed
          rw [Identifier.display_injective leftFormed.1 rightFormed.1
              equal.1,
            induction leftFormed.2 rightFormed.2 equal.2]

/-- Splitting at the dots reads the displays of the identifiers back. -/
theorem identifiers_injective
    {left right : Prerelease}
    (leftFormed :
      ∀ identifier ∈ left.identifiers, identifier.WellFormed)
    (rightFormed :
      ∀ identifier ∈ right.identifiers, identifier.WellFormed)
    (equal :
      ['.'].intercalate (left.identifiers.map Identifier.display) =
        ['.'].intercalate (right.identifiers.map Identifier.display)) :
    left = right := by
  have fields : ∀ {prerelease : Prerelease},
      (∀ identifier ∈ prerelease.identifiers, identifier.WellFormed) →
        (['.'].intercalate
            (prerelease.identifiers.map Identifier.display)).splitOn '.' =
          prerelease.identifiers.map Identifier.display := by
    intro prerelease formed
    apply List.splitOn_intercalate
    · intro text member
      rcases List.mem_map.mp member with ⟨identifier, among, rfl⟩
      exact Identifier.dot_notMem_display (formed identifier among)
    · exact List.cons_ne_nil _ _
  have displays :
      left.identifiers.map Identifier.display =
        right.identifiers.map Identifier.display := by
    rw [← fields leftFormed, ← fields rightFormed, equal]
  have same := displays_injective leftFormed rightFormed displays
  cases left
  cases right
  rw [Prerelease.mk.injEq]
  exact List.cons.inj same

theorem displaySuffix_injective
    {patch otherPatch : Nat} {left right : Option Prerelease}
    (leftFormed : ∀ prerelease, left = some prerelease →
      ∀ identifier ∈ prerelease.identifiers, identifier.WellFormed)
    (rightFormed : ∀ prerelease, right = some prerelease →
      ∀ identifier ∈ prerelease.identifiers, identifier.WellFormed)
    (equal :
      decimal patch ++ displaySuffix left =
        decimal otherPatch ++ displaySuffix right) :
    patch = otherPatch ∧ left = right := by
  have noDash := @notMem_decimal '-' (by decide)
  cases left with
  | none =>
      cases right with
      | none =>
          simp only [displaySuffix, List.append_nil] at equal
          exact ⟨decimal_injective equal, rfl⟩
      | some prerelease =>
          have member : '-' ∈ decimal patch ++ displaySuffix none := by
            rw [equal]
            simp [displaySuffix]
          simp only [displaySuffix, List.append_nil] at member
          exact absurd member (noDash patch)
  | some prerelease =>
      cases right with
      | none =>
          have member : '-' ∈ decimal otherPatch ++ displaySuffix none := by
            rw [← equal]
            simp [displaySuffix]
          simp only [displaySuffix, List.append_nil] at member
          exact absurd member (noDash otherPatch)
      | some other =>
          rcases append_cons_inj_first (noDash _) (noDash _) equal with
            ⟨patches, displays⟩
          constructor
          · exact decimal_injective patches
          · exact congrArg some
              (identifiers_injective (leftFormed _ rfl)
                (rightFormed _ rfl) displays)

/-- Versions with well-formed identifiers have different displays. -/
theorem display_injective
    {left right : Version}
    (leftFormed : left.WellFormed)
    (rightFormed : right.WellFormed)
    (equal : left.display = right.display) :
    left = right := by
  have noDot := @notMem_decimal '.' (by decide)
  rcases append_cons_inj_first (noDot _) (noDot _) equal with
    ⟨majors, afterMajor⟩
  rcases append_cons_inj_first (noDot _) (noDot _) afterMajor with
    ⟨minors, afterMinor⟩
  rcases displaySuffix_injective leftFormed rightFormed afterMinor with
    ⟨patches, prereleases⟩
  cases left
  cases right
  simp only [Version.mk.injEq]
  exact ⟨decimal_injective majors, decimal_injective minors, patches,
    prereleases⟩

end Luminosity.Foundation.SemanticVersions
