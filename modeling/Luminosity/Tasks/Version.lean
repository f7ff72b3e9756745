import Luminosity.Foundation.SemanticVersions
import Luminosity.Foundation.Tallies
import Mathlib.Data.List.Sort

/-!
# The version task

Four files carry the version of the product.  The task which bumps it reads
the plugin manifest alone and writes all four, so that whatever the files held
before, they agree afterwards.

A bump to the next prerelease always leads to a later version: it increments
the prerelease in progress, and off a stable cut it opens the next minor line.
A bump to the final version leads to a later version only from a prerelease.
-/

namespace Luminosity.Tasks.Version

open Luminosity.Foundation.TextSegments
open Luminosity.Foundation.SemanticVersions
open Luminosity.Foundation.Tallies

/-! ## The version library -/

/-- The operations of the version library. -/
structure Semver where
  bumpMajor : Version → Version
  bumpMinor : Version → Version
  bumpPatch : Version → Version
  bumpPrerelease : (token : Text) → Version → Version
  finalizeVersion : Version → Version
  nextVersion : (part prereleaseToken : Text) → Version → Version

/-- The token of the prereleases of this product. -/
def prereleaseIdentifier : Text :=
  "pre".toList

/-- What the bumps rely on. -/
structure Semver.Lawful (semver : Semver) : Prop where
  finalize_version :
    ∀ version : Version,
      semver.finalizeVersion version =
        { version with prerelease := none }
  bump_minor :
    ∀ version : Version,
      semver.bumpMinor version =
        { version with
          minor := version.minor + 1
          patch := 0
          prerelease := none }
  bump_prerelease_start :
    ∀ version : Version,
      version.prerelease = none →
        semver.bumpPrerelease prereleaseIdentifier version =
          { version with
            prerelease :=
              some ⟨.textual prereleaseIdentifier, [.numeric 1]⟩ }
  bump_prerelease_next :
    ∀ (version : Version) (first : Identifier) (front : List Identifier)
      (number : Nat),
      version.prerelease = some ⟨first, front ++ [.numeric number]⟩ →
        semver.bumpPrerelease prereleaseIdentifier version =
          { version with
            prerelease :=
              some ⟨first, front ++ [.numeric (number + 1)]⟩ }

/-! ## The files which carry the version -/

/-- The version in each of the files. -/
structure Anchors where
  pluginJson : Version
  cargoToml : Version
  checksums : Version
  manifest : Version
deriving DecidableEq, Repr

/-- Why a task ends. -/
structure Exit where
  message : Text
  code : Nat
deriving DecidableEq, Repr

/-- `version.read`: the version of the plugin manifest. -/
def read (anchors : Anchors) : Version :=
  anchors.pluginJson

/-- `version.write`: one version for every file. -/
def write (version : Version) : Anchors where
  pluginJson := version
  cargoToml := version
  checksums := version
  manifest := version

/-- `_anchor_versions`: what each file declares, by its name. -/
def anchorVersions (anchors : Anchors) : List (Text × Version) :=
  [("plugin.json".toList, read anchors),
    ("cli/launcher/Cargo.toml".toList, anchors.cargoToml),
    ("cli/launcher/bin/checksums.json".toList, anchors.checksums),
    ("cli/launcher/bin/manifest.json".toList, anchors.manifest)]

/-- An assignment finds too few values to take apart. -/
inductive ValueError
  | notEnoughValues
deriving DecidableEq, Repr

/-- A task which does not handle the error ends with it. -/
def ValueError.exit : ValueError → Exit
  | .notEnoughValues =>
      { message :=
          "not enough values to unpack (expected at least 1, got 0)".toList
        code := 1 }

section Mismatches

variable {α : Type} [DecidableEq α]

/-- The names of the files. -/
def names (versions : List (Text × α)) : List Text :=
  versions.map Prod.fst

/-- The versions the files hold. -/
def held (versions : List (Text × α)) : List α :=
  versions.map Prod.snd

/-- The names of the files off a version. -/
def namesOff (version : α) (versions : List (Text × α)) : List Text :=
  names (versions.filter fun entry => entry.2 ≠ version)

/-- `_mismatching_anchor_files`. -/
def mismatchingAnchorFiles (versions : List (Text × α)) :
    Except ValueError (List Text) :=
  let counts := tally (held versions)
  if counts.length = 1 then
    .ok []
  else
    match mostCommon counts with
    | [] => .error .notEnoughValues
    | (topVersion, topCount) :: rest =>
        -- `not rest or rest[0][1] < top_count`
        let hasStrictMajority := rest.head?.all fun next => next.2 < topCount
        if hasStrictMajority then
          .ok (namesOff topVersion versions).mergeSort
        else
          .ok (names versions).mergeSort

end Mismatches

/-- `version.check`. -/
def check (anchors : Anchors) : Except Exit Unit :=
  match mismatchingAnchorFiles (anchorVersions anchors) with
  | .ok [] => .ok ()
  | .ok mismatching =>
      .error
        { message :=
            "version:check failed: version mismatch across anchors: ".toList
              ++ ", ".toList.intercalate mismatching
          code := 1 }
  | .error error => .error error.exit

/-- Files which carry one version agree. -/
theorem check_write (version : Version) :
    check (write version) = .ok () := by
  have agree :
      mismatchingAnchorFiles (anchorVersions (write version)) = .ok [] := by
    simp [mismatchingAnchorFiles, anchorVersions, read, write, held, tally,
      List.eraseDups_cons]
  rw [check, agree]

/-! ## Bumps -/

/-- `version.BumpType`. -/
inductive BumpType
  | major
  | minor
  | patch
  | pre
  | finalise
  | nextMinor
deriving DecidableEq, Repr

section Bumps

variable (semver : Semver)

/-- `_bump_to_next_prerelease`. -/
def bumpToNextPrerelease (version : Version) : Version :=
  if version.prerelease.isSome then
    semver.bumpPrerelease prereleaseIdentifier version
  else
    semver.bumpPrerelease prereleaseIdentifier (semver.bumpMinor version)

/-- One bump. -/
def bumpOnce (version : Version) : BumpType → Version
  | .major => semver.bumpMajor version
  | .minor => semver.bumpMinor version
  | .patch => semver.bumpPatch version
  | .pre => bumpToNextPrerelease semver version
  | .finalise => semver.finalizeVersion version
  | .nextMinor =>
      semver.nextVersion "minor".toList prereleaseIdentifier version

/-- `version.bump`: without a type, to the next prerelease. -/
def bump (anchors : Anchors) (bumpTypes : List BumpType) :
    Anchors × Version :=
  let types := if bumpTypes = [] then [.pre] else bumpTypes
  let newVersion := types.foldl (bumpOnce semver) (read anchors)
  (write newVersion, newVersion)

end Bumps

/-! ## Versions of the pipeline -/

/-- The prerelease with the given number. -/
def numbered (number : Nat) : Prerelease :=
  ⟨.textual prereleaseIdentifier, [.numeric number]⟩

/-- A stable version, or a numbered prerelease of this product. -/
def OnLine (version : Version) : Prop :=
  version.prerelease = none ∨
    ∃ number, version.prerelease = some (numbered number)

theorem OnLine.wellFormed
    {version : Version}
    (onLine : OnLine version) :
    version.WellFormed := by
  intro prerelease present identifier member
  rcases onLine with stable | ⟨number, isNumbered⟩
  · rw [stable] at present
    cases present
  · rw [isNumbered] at present
    cases present
    have cases := List.mem_pair.mp member
    rcases cases with rfl | rfl
    · exact ⟨by decide, 'p', by decide, by decide⟩
    · exact trivial

/-- The next prerelease comes later, and is a numbered prerelease. -/
theorem bumpToNextPrerelease_later
    {semver : Semver} (lawful : semver.Lawful)
    {version : Version}
    (onLine : OnLine version) :
    Precedes version (bumpToNextPrerelease semver version) ∧
      ∃ number,
        (bumpToNextPrerelease semver version).prerelease =
          some (numbered number) := by
  rcases onLine with stable | ⟨number, isNumbered⟩
  · -- Off a stable cut, the minor is higher.
    have next :
        bumpToNextPrerelease semver version =
          { version with
            minor := version.minor + 1
            patch := 0
            prerelease := some (numbered 1) } := by
      rw [bumpToNextPrerelease, stable, if_neg (by simp),
        lawful.bump_minor, lawful.bump_prerelease_start _ rfl]
      rfl
    rw [next]
    constructor
    · exact precedes_of_minor rfl (Nat.lt_succ_self version.minor)
    · exact ⟨1, rfl⟩
  · have next :
        bumpToNextPrerelease semver version =
          { version with prerelease := some (numbered (number + 1)) } := by
      rw [bumpToNextPrerelease, isNumbered,
        if_pos Option.isSome_some,
        lawful.bump_prerelease_next version _ [] number isNumbered]
      rfl
    rw [next]
    constructor
    · refine precedes_of_prerelease rfl rfl rfl ?_
      rw [isNumbered]
      exact prereleaseRank_lt_of_trailing _ [] (Nat.lt_succ_self number)
    · exact ⟨number + 1, rfl⟩

/-- The final version of a prerelease comes later. -/
theorem finalizeVersion_later
    {semver : Semver} (lawful : semver.Lawful)
    {version : Version} {prerelease : Prerelease}
    (present : version.prerelease = some prerelease) :
    Precedes version (semver.finalizeVersion version) := by
  rw [lawful.finalize_version]
  refine precedes_of_prerelease rfl rfl rfl ?_
  rw [present]
  exact prereleaseRank_some_lt_none prerelease

/-- The final version of a stable version is the same version. -/
theorem finalizeVersion_stable
    {semver : Semver} (lawful : semver.Lawful)
    {version : Version}
    (stable : version.prerelease = none) :
    semver.finalizeVersion version = version := by
  rw [lawful.finalize_version, ← stable]

end Luminosity.Tasks.Version
