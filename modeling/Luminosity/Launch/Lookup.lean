import Luminosity.Launch.Cache

/-!
# Looking up the cache

A lookup is meant to depend on the matching entries alone: those named by the
command, the version and a digest, with a signature next to them.  But it gives
up at the first name which is not Unicode text, so a matching entry is found
only when none of these names is listed before all matching entries.
-/

namespace Luminosity.Launch.Lookup

open Luminosity.Foundation.TextSegments
open Luminosity.Foundation.EffectPrograms
open Luminosity.Host.Paths
open Luminosity.Host.Calls
open Luminosity.Launch.Cache

/-- An entry as the directory iterator yields it. -/
abbrev Listed := Except IoError OsText

/-- What the cache directory shows. -/
structure Directory where
  entries : List Listed
  present : Path → Bool

section Lookup

variable {State : Type} (root : Path) (name version : Text)
variable (directory : Directory) (otherwise : Handler host State)

/-- A host which shows the directory, whatever else it does. -/
def showing : Handler host State
  | .readDir _, state => (.ok directory.entries, state)
  | .pathExists path, state => (directory.present path, state)
  | call, state => otherwise call state

/-- The result of a lookup. -/
def found (state : State) : Option CachedBinary :=
  ((find root name version).execute (showing directory otherwise) state).1

/-- The entry of a digest is listed, and its signature exists. -/
structure Matches (sha256 : Text) : Prop where
  hex : isSha256Hex sha256 = true
  listed :
    .ok (.unicode (stem name version sha256)) ∈ directory.entries
  signed :
    directory.present
      (root.join (signatureName (stem name version sha256))) = true

/-- The entry of a digest. -/
def entryOf (sha256 : Text) : CachedBinary where
  path := root.join (stem name version sha256)
  sha256 := sha256
  signaturePath := root.join (signatureName (stem name version sha256))

/-- A lookup which depends on the matching entries alone. -/
structure LooksUp (result : Option CachedBinary) : Prop where
  isSome_iff :
    result.isSome = true ↔
      ∃ sha256, Matches root name version directory sha256
  entry :
    ∀ cached, result = some cached →
      ∃ sha256, Matches root name version directory sha256 ∧
        cached = entryOf root name version sha256

/-- A name which is not Unicode text. -/
def isOther : Listed → Bool
  | .ok (.other _) => true
  | _ => false

/-- A matching entry is listed with no name before it which is not Unicode. -/
def Reached : Prop :=
  ∃ before sha256 after,
    directory.entries =
        before ++ .ok (.unicode (stem name version sha256)) :: after ∧
      Matches root name version directory sha256 ∧
        ∀ entry ∈ before, isOther entry = false

end Lookup

/-! ## What the loop finds -/

section Loop

variable {State : Type} {root : Path} {name version : Text}
variable {directory : Directory} {otherwise : Handler host State}

/-- The entry of a listed name, when the name matches. -/
def matching (root : Path) (name version : Text) (present : Path → Bool) :
    Listed → Option CachedBinary
  | .ok (.unicode file) => do
      let sha256 ←
        file.dropPrefix? (name ++ "-".toList ++ version ++ "-".toList)
      if isSha256Hex sha256 && present (root.join (signatureName file)) then
        some
          { path := root.join file
            sha256
            signaturePath := root.join (signatureName file) }
      else
        none
  | _ => none

theorem matching_eq_some_iff
    {present : Path → Bool} {entry : Listed} {cached : CachedBinary} :
    matching root name version present entry = some cached ↔
      ∃ sha256,
        entry = .ok (.unicode (stem name version sha256)) ∧
          isSha256Hex sha256 = true ∧
          present (root.join (signatureName (stem name version sha256))) =
            true ∧
          cached = entryOf root name version sha256 := by
  constructor
  · intro matched
    rcases entry with error | file | bytes
    · cases matched
    · rcases Option.bind_eq_some_iff.mp matched with
        ⟨sha256, stripped, passed⟩
      rcases List.dropPrefix?_eq_some_iff.mp stripped with ⟨front, rfl, same⟩
      rw [Option.ite_none_right_eq_some, Bool.and_eq_true] at passed
      rcases passed with ⟨⟨hex, signed⟩, ⟨⟩⟩
      rw [eq_of_beq same] at signed ⊢
      exact ⟨sha256, rfl, hex, signed, rfl⟩
    · cases matched
  · rintro ⟨sha256, rfl, hex, signed, rfl⟩
    refine Option.bind_eq_some_iff.mpr ⟨sha256, ?_, ?_⟩
    · exact List.dropPrefix?_append_of_beq _ (beq_self_eq_true _)
    · rw [if_pos]
      · rfl
      · rw [Bool.and_eq_true]
        exact ⟨hex, signed⟩

/-- The loop takes the first match before a name which is not Unicode. -/
theorem execute_findAmong (entries : List Listed) (state : State) :
    (findAmong root (name ++ "-".toList ++ version ++ "-".toList)
        entries).execute (showing directory otherwise) state =
      ((entries.takeWhile fun entry => !isOther entry).findSome?
        (matching root name version directory.present), state) := by
  induction entries with
  | nil => rfl
  | cons entry rest induction =>
      rcases entry with error | file | bytes
      · exact induction
      · rw [findAmong, List.takeWhile_cons_of_pos rfl, List.findSome?_cons,
          matching]
        simp only [OsText.toStr]
        cases stripped :
            file.dropPrefix? (name ++ "-".toList ++ version ++ "-".toList) with
        | none => exact induction
        | some sha256 =>
            simp only [Option.bind_eq_bind, Option.bind_some]
            cases hex : isSha256Hex sha256 with
            | false => exact induction
            | true =>
                have exists_at (path : Path) :
                    (issue (.pathExists path)).execute
                        (showing directory otherwise) state =
                      (directory.present path, state) := rfl
                rw [if_pos rfl, execute_bind, exists_at, Bool.true_and]
                cases directory.present (root.join (signatureName file)) with
                | true => rfl
                | false => exact induction
      · rfl

theorem found_eq (state : State) :
    found root name version directory otherwise state =
      (directory.entries.takeWhile fun entry => !isOther entry).findSome?
        (matching root name version directory.present) := by
  have listed :
      (issue (.readDir root)).execute (showing directory otherwise) state =
        (.ok directory.entries, state) := rfl
  rw [found, find, execute_bind, listed]
  exact congrArg Prod.fst (execute_findAmong directory.entries state)

/-- What is found is a matching entry. -/
theorem matches_of_found
    {state : State} {cached : CachedBinary}
    (isFound :
      found root name version directory otherwise state = some cached) :
    ∃ sha256, Matches root name version directory sha256 ∧
      cached = entryOf root name version sha256 := by
  rw [found_eq] at isFound
  rcases List.exists_of_findSome?_eq_some isFound with
    ⟨entry, member, matched⟩
  rcases matching_eq_some_iff.mp matched with
    ⟨sha256, rfl, hex, signed, rfl⟩
  exact ⟨sha256,
    ⟨hex, (List.takeWhile_sublist _).subset member, signed⟩, rfl⟩

/-- Something is found when a match is reached. -/
theorem isSome_found_iff (state : State) :
    (found root name version directory otherwise state).isSome = true ↔
      Reached root name version directory := by
  rw [found_eq, List.findSome?_isSome_iff]
  constructor
  · rintro ⟨entry, member, matched⟩
    rcases Option.isSome_iff_exists.mp matched with ⟨cached, matched⟩
    rcases matching_eq_some_iff.mp matched with
      ⟨sha256, rfl, hex, signed, _⟩
    rcases List.append_of_mem member with ⟨before, after, split⟩
    have readable : ∀ other ∈ before, isOther other = false := by
      intro other within
      have passed := List.all_eq_true.mp
        (@List.all_takeWhile _ (fun entry => !isOther entry) _) other
        (split ▸ List.mem_append_left _ within)
      exact Bool.not_eq_true' _ ▸ passed
    rcases @List.takeWhile_prefix _ directory.entries
      (fun entry => !isOther entry) with ⟨rest, whole⟩
    refine ⟨before, sha256, after ++ rest, ?_, ⟨hex, ?_, signed⟩, readable⟩
    · rw [← whole, split, List.append_assoc, List.cons_append]
    · exact (List.takeWhile_sublist _).subset member
  · rintro ⟨before, sha256, after, split, isMatch, readable⟩
    refine ⟨_, ?_, Option.isSome_iff_exists.mpr ⟨_,
      matching_eq_some_iff.mpr
        ⟨sha256, rfl, isMatch.hex, isMatch.signed, rfl⟩⟩⟩
    have passes : ∀ other ∈ before, (!isOther other) = true := by
      intro other within
      rw [readable other within]
      rfl
    rw [split, List.takeWhile_append_of_pos passes,
      List.takeWhile_cons_of_pos rfl]
    exact List.mem_append_right _ List.mem_cons_self

end Loop

/-! ## When a lookup depends on the matching entries alone -/

section Independence

variable {State : Type} (root : Path) (name version : Text)
variable (directory : Directory) (otherwise : Handler host State)

/--
A lookup depends on the matching entries alone exactly when one of them, if
there are any, is listed with no name before it which is not Unicode text.
Directories of this kind with the same matching entries are not told apart.
-/
theorem find_depends_on_matches_iff (state : State) :
    (LooksUp root name version directory
        (found root name version directory otherwise state) ↔
      ((∃ sha256, Matches root name version directory sha256) →
        Reached root name version directory)) ∧
      ∀ changed : Directory,
        (∀ sha256, Matches root name version changed sha256 ↔
          Matches root name version directory sha256) →
        ((∃ sha256, Matches root name version directory sha256) →
          Reached root name version directory ∧
            Reached root name version changed) →
        (found root name version changed otherwise state).isSome =
          (found root name version directory otherwise state).isSome := by
  have reached_matches {shown : Directory}
      (reached : Reached root name version shown) :
      ∃ sha256, Matches root name version shown sha256 := by
    rcases reached with ⟨_, sha256, _, _, isMatch, _⟩
    exact ⟨sha256, isMatch⟩
  refine ⟨⟨?_, ?_⟩, ?_⟩
  · intro looksUp some
    exact (isSome_found_iff state).mp (looksUp.isSome_iff.mpr some)
  · intro reaches
    constructor
    · rw [isSome_found_iff]
      exact ⟨reached_matches, reaches⟩
    · exact fun _ => matches_of_found
  · intro changed same reaches
    rw [Bool.eq_iff_iff, isSome_found_iff, isSome_found_iff]
    constructor
    · intro reached
      rcases reached_matches reached with ⟨sha256, isMatch⟩
      exact (reaches ⟨sha256, (same sha256).mp isMatch⟩).1
    · intro reached
      exact (reaches (reached_matches reached)).2

end Independence

/-- A name which is not Unicode text hides the entries listed after it. -/
theorem other_name_hides_entry :
    ∃ (root : Path) (name version sha256 : Text) (directory : Directory),
      Matches root name version directory sha256 ∧
        ∀ {State : Type} (otherwise : Handler host State) (state : State),
          found root name version directory otherwise state = none := by
  let root : Path := ⟨true, [.normal "cache".toList]⟩
  let sha256 : Text := List.replicate 64 '0'
  let directory : Directory :=
    { entries :=
        [.ok (.other [0xFF]),
          .ok (.unicode (stem "visualise".toList "1.0.0".toList sha256))]
      present := fun _ => true }
  refine ⟨root, "visualise".toList, "1.0.0".toList, sha256, directory,
    ⟨by decide, List.mem_cons_of_mem _ List.mem_cons_self, rfl⟩, ?_⟩
  intro State otherwise state
  rw [found_eq]
  rfl

end Luminosity.Launch.Lookup
