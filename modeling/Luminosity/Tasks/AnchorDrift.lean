import Luminosity.Tasks.Version

/-!
# Anchors which have drifted

When the files which carry the version disagree, the check names the culprits:
the files off the reference version.  The reference is meant to be a strict
majority, with every file named when there is none.  What the code takes for
the reference is a version which is more common than every other one.
-/

namespace Luminosity.Tasks.AnchorDrift

open Luminosity.Foundation.TextSegments
open Luminosity.Foundation.Tallies
open Luminosity.Foundation
open Luminosity.Tasks.Version

variable {α : Type} [DecidableEq α]

/-! ## Sorted names -/

/-- The order of the names before sorting does not matter. -/
theorem mergeSort_eq_of_perm
    {first second : List Text}
    (same : first.Perm second) :
    first.mergeSort = second.mergeSort := by
  have trans (one other third : Text)
      (below : decide (one ≤ other) = true)
      (above : decide (other ≤ third) = true) :
      decide (one ≤ third) = true :=
    decide_eq_true
      (le_trans (of_decide_eq_true below) (of_decide_eq_true above))
  have total (one other : Text) :
      (decide (one ≤ other) || decide (other ≤ one)) = true := by
    rw [Bool.or_eq_true, decide_eq_true_eq, decide_eq_true_eq]
    exact le_total one other
  have sorted (items : List Text) :
      items.mergeSort.Pairwise fun one other => one ≤ other :=
    (List.pairwise_mergeSort trans total items).imp of_decide_eq_true
  refine List.Perm.eq_of_pairwise
    (fun _ _ _ _ below above => le_antisymm below above)
    (sorted first) (sorted second) ?_
  exact (List.mergeSort_perm first _).trans
    (same.trans (List.mergeSort_perm second _).symm)

/-! ## What the code takes for the reference -/

/-- Versions which are all equal leave no file off any of them. -/
theorem namesOff_of_equal
    {versions : List (Text × α)} {version : α}
    (equal : ∀ other ∈ held versions, other = version) :
    namesOff version versions = [] := by
  rw [namesOff, names, List.map_eq_nil_iff, List.filter_eq_nil_iff]
  intro entry member
  simp [equal entry.2 (List.mem_map_of_mem member)]

theorem mostCommon_tally_ne_nil
    {values : List α} {value : α}
    (member : value ∈ values) :
    mostCommon (tally values) ≠ [] := by
  intro none
  have counted : (value, values.count value) ∈ tally values :=
    mem_tally.mpr ⟨member, rfl⟩
  have listed := (mostCommon_perm (tally values)).mem_iff.mpr counted
  rw [none] at listed
  cases listed

/-- The files off the foremost version are named. -/
theorem mismatchingAnchorFiles_of_foremost
    {versions : List (Text × α)} {version : α}
    (foremost : Foremost (held versions) version) :
    mismatchingAnchorFiles versions =
      .ok (namesOff version versions).mergeSort := by
  rw [mismatchingAnchorFiles]
  by_cases single : (tally (held versions)).length = 1
  · have equal :=
      (length_tally_eq_one (List.ne_nil_of_mem foremost.1)).mp single
    rw [if_pos single, namesOff_of_equal fun other member =>
      equal other member version foremost.1, List.mergeSort_nil]
  · rw [if_neg single]
    cases counted : mostCommon (tally (held versions)) with
    | nil => exact absurd counted (mostCommon_tally_ne_nil foremost.1)
    | cons top rest =>
        rcases top with ⟨topVersion, topCount⟩
        rcases (foremost_iff_of_mostCommon counted version).mp foremost with
          ⟨alone, rfl⟩
        exact if_pos alone

/-- Without a foremost version every file is named. -/
theorem mismatchingAnchorFiles_of_no_foremost
    {versions : List (Text × α)}
    (nonempty : versions ≠ [])
    (none : ¬∃ version, Foremost (held versions) version) :
    mismatchingAnchorFiles versions = .ok (names versions).mergeSort := by
  rcases List.exists_mem_of_ne_nil versions nonempty with ⟨entry, member⟩
  have isHeld : entry.2 ∈ held versions := List.mem_map_of_mem member
  rw [mismatchingAnchorFiles, if_neg]
  · cases counted : mostCommon (tally (held versions)) with
    | nil => exact absurd counted (mostCommon_tally_ne_nil isHeld)
    | cons top rest =>
        rcases top with ⟨topVersion, topCount⟩
        refine if_neg fun alone => none ⟨topVersion, ?_⟩
        exact (foremost_iff_of_mostCommon counted topVersion).mpr
          ⟨alone, rfl⟩
  · intro single
    have equal :=
      (length_tally_eq_one (List.ne_nil_of_mem isHeld)).mp single
    refine none ⟨entry.2, isHeld, ?_⟩
    intro other also different
    exact absurd (equal other also entry.2 isHeld) different

/-- The files named do not depend on the order of the anchors. -/
theorem mismatchingAnchorFiles_perm
    {versions reordered : List (Text × α)}
    (nonempty : versions ≠ [])
    (same : reordered.Perm versions) :
    mismatchingAnchorFiles reordered = mismatchingAnchorFiles versions := by
  have sameHeld : (held reordered).Perm (held versions) := same.map Prod.snd
  by_cases some : ∃ version, Foremost (held versions) version
  · rcases some with ⟨version, foremost⟩
    rw [mismatchingAnchorFiles_of_foremost foremost,
      mismatchingAnchorFiles_of_foremost
        ((foremost_perm sameHeld version).mpr foremost)]
    congr 1
    exact mergeSort_eq_of_perm ((same.filter _).map Prod.fst)
  · rw [mismatchingAnchorFiles_of_no_foremost nonempty some,
      mismatchingAnchorFiles_of_no_foremost]
    · congr 1
      exact mergeSort_eq_of_perm (same.map Prod.fst)
    · rintro rfl
      exact nonempty (List.nil_perm.mp same)
    · rintro ⟨version, foremost⟩
      exact some ⟨version, (foremost_perm sameHeld version).mp foremost⟩

/-! ## Culprits by strict majority -/

/-- The files to name, by the version which more than half of them hold. -/
structure NamesCulprits
    (versions : List (Text × α))
    (files : List Text) : Prop where
  empty_iff :
    files = [] ↔
      ∀ first ∈ held versions, ∀ second ∈ held versions, first = second
  off_majority :
    ∀ version, Majority (held versions) version →
      files = (namesOff version versions).mergeSort
  all_without :
    (¬∃ version, Majority (held versions) version) →
      files = (names versions).mergeSort

/-- The files off the foremost version are none when all are equal. -/
theorem namesOff_eq_nil_iff
    {versions : List (Text × α)} {version : α}
    (member : version ∈ held versions) :
    namesOff version versions = [] ↔
      ∀ first ∈ held versions, ∀ second ∈ held versions, first = second := by
  constructor
  · intro none first firstIn second secondIn
    have same : ∀ other ∈ held versions, other = version := by
      intro other isHeld
      rcases List.mem_map.mp isHeld with ⟨entry, listed, rfl⟩
      rw [namesOff, names, List.map_eq_nil_iff, List.filter_eq_nil_iff]
        at none
      simpa using none entry listed
    exact (same first firstIn).trans (same second secondIn).symm
  · intro equal
    exact namesOff_of_equal fun other isHeld =>
      equal other isHeld version member

/-- Fewer files are off a version some file holds than there are. -/
theorem namesOff_length_lt
    {versions : List (Text × α)} {version : α}
    (member : version ∈ held versions) :
    (namesOff version versions).length < (names versions).length := by
  rcases List.mem_map.mp member with ⟨entry, listed, rfl⟩
  rw [namesOff, names, names, List.length_map, List.length_map]
  exact List.length_filter_lt_length_iff_exists.mpr
    ⟨entry, listed, by simp⟩

/-- With a foremost version the culprits are named when it has a majority. -/
theorem namesCulprits_iff_majority
    {versions : List (Text × α)} {version : α}
    (foremost : Foremost (held versions) version) :
    NamesCulprits versions (namesOff version versions).mergeSort ↔
      Majority (held versions) version := by
  constructor
  · intro culprits
    by_contra notMost
    have all := culprits.all_without ?_
    · have fewer := namesOff_length_lt foremost.1
      have sameLength := congrArg List.length all
      rw [List.length_mergeSort, List.length_mergeSort] at sameLength
      omega
    · rintro ⟨most, majority⟩
      rw [majority.foremost.unique foremost] at majority
      exact notMost majority
  · intro majority
    constructor
    · rw [← namesOff_eq_nil_iff foremost.1, ← List.length_eq_zero_iff,
        List.length_mergeSort, List.length_eq_zero_iff]
    · intro most also
      rw [also.foremost.unique foremost]
    · intro without
      exact absurd ⟨version, majority⟩ without

/-- Without a foremost version all files are culprits. -/
theorem namesCulprits_of_no_foremost
    {versions : List (Text × α)}
    (nonempty : versions ≠ [])
    (none : ¬∃ version, Foremost (held versions) version) :
    NamesCulprits versions (names versions).mergeSort := by
  constructor
  · constructor
    · intro empty
      have length := congrArg List.length empty
      rw [List.length_mergeSort, names, List.length_map] at length
      exact absurd (List.length_eq_zero_iff.mp length) nonempty
    · intro equal
      rcases List.exists_mem_of_ne_nil versions nonempty with
        ⟨entry, member⟩
      have isHeld : entry.2 ∈ held versions := List.mem_map_of_mem member
      refine absurd ⟨entry.2, isHeld, ?_⟩ none
      intro other also different
      exact absurd (equal other also entry.2 isHeld) different
  · intro version majority
    exact absurd ⟨version, majority.foremost⟩ none
  · exact fun _ => rfl

/--
The files are named by strict majority exactly when a version which is more
common than every other one is held by more than half of the files; and always
in a way which does not depend on the order of the anchors.
-/
theorem names_culprits_iff
    (versions : List (Text × α))
    (nonempty : versions ≠ []) :
    ∃ files,
      mismatchingAnchorFiles versions = .ok files ∧
        (NamesCulprits versions files ↔
          ∀ version, Foremost (held versions) version →
            Majority (held versions) version) ∧
        ∀ reordered : List (Text × α), reordered.Perm versions →
          mismatchingAnchorFiles reordered = .ok files := by
  by_cases some : ∃ version, Foremost (held versions) version
  · rcases some with ⟨version, foremost⟩
    have named := mismatchingAnchorFiles_of_foremost foremost
    refine ⟨_, named, ?_, ?_⟩
    · rw [namesCulprits_iff_majority foremost]
      constructor
      · intro majority other also
        rw [also.unique foremost]
        exact majority
      · intro majority
        exact majority version foremost
    · intro reordered same
      rw [mismatchingAnchorFiles_perm nonempty same, named]
  · have named := mismatchingAnchorFiles_of_no_foremost nonempty some
    refine ⟨_, named, ?_, ?_⟩
    · rw [iff_true_left (namesCulprits_of_no_foremost nonempty some)]
      intro version foremost
      exact absurd ⟨version, foremost⟩ some
    · intro reordered same
      rw [mismatchingAnchorFiles_perm nonempty same, named]

/-- A version two of three files hold. -/
def twoAgainstOne : List (Text × Text) :=
  [("plugin.json".toList, "1.0.0".toList),
    ("cli/launcher/Cargo.toml".toList, "1.0.0".toList),
    ("cli/launcher/bin/manifest.json".toList, "1.2.0".toList)]

theorem names_culprits_two_against_one :
    twoAgainstOne ≠ [] ∧
      ∃ files,
        mismatchingAnchorFiles twoAgainstOne = .ok files ∧
          NamesCulprits twoAgainstOne files := by
  have nonempty : twoAgainstOne ≠ [] := List.cons_ne_nil _ _
  have majority : Majority (held twoAgainstOne) "1.0.0".toList := by
    unfold Majority
    decide
  rcases names_culprits_iff twoAgainstOne nonempty with
    ⟨files, named, culprits, _⟩
  refine ⟨nonempty, files, named, culprits.mpr ?_⟩
  intro version foremost
  rw [foremost.unique majority.foremost]
  exact majority

/--
Two files which agree against two which hold a version each are taken for a
majority, and only the other two are named.
-/
theorem plurality_taken_for_majority :
    ∃ (versions : List (Text × Text)) (files : List Text),
      versions ≠ [] ∧
        mismatchingAnchorFiles versions = .ok files ∧
        ¬NamesCulprits versions files := by
  let versions : List (Text × Text) :=
    [("plugin.json".toList, "1.0.0".toList),
      ("cli/launcher/Cargo.toml".toList, "1.0.0".toList),
      ("cli/launcher/bin/checksums.json".toList, "1.1.0".toList),
      ("cli/launcher/bin/manifest.json".toList, "1.2.0".toList)]
  have foremost : Foremost (held versions) "1.0.0".toList := by
    constructor <;> decide
  have named := mismatchingAnchorFiles_of_foremost foremost
  refine ⟨versions, _, by simp [versions], named, ?_⟩
  intro culprits
  have majority := (namesCulprits_iff_majority foremost).mp culprits
  revert majority
  unfold Majority
  decide

end Luminosity.Tasks.AnchorDrift
