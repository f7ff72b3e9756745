import Mathlib.Data.Set.Card
import Luminosity.Launch.RetainedBinaries

/-!
# What retention keeps of a cache directory

Retention parts the binaries of a name into the oldest beyond the cap, which it
removes together with their signatures, and the newest, which it leaves alone.
A directory is listed here in any order, with any times of modification, and
every removal of what is there succeeds.

The candidates which are sorted are the binaries of the directory one to one:
the digest at the end of a name keeps binaries and signatures apart, and no two
binaries have the same signature.  A name which is no text is passed over: what
it names is neither removed nor counted towards the cap.
-/

namespace Luminosity.Launch.RetentionOrder

open Luminosity.Foundation.TextSegments
open Luminosity.Foundation.EffectPrograms
open Luminosity.Foundation.OldestFirst
open Luminosity.Host.Paths
open Luminosity.Host.Calls
open Luminosity.Host.FlatDisk
open Luminosity.Launch.Cache
open Luminosity.Launch.RetainedBinaries

/-! ## The binaries which count for a name -/

/-- The name with a dash, anything, another dash and a digest. -/
def Counted (name file : Text) : Prop :=
  ∃ middle sha256,
    file = name ++ "-".toList ++ middle ++ "-".toList ++ sha256 ∧
      isSha256Hex sha256 = true

theorem counted_of_retained
    {name file : Text}
    {entry : Except IoError OsText}
    (kept : retained (name ++ "-".toList) entry = some file) :
    Counted name file := by
  rcases retained_some kept with rfl
  simp only [retained, OsText.toStr, Option.bind_eq_bind, Option.bind_some,
    Option.bind_eq_some_iff] at kept
  rcases kept with ⟨rest, stripped, ⟨middle, sha256⟩, divided, hex⟩
  split_ifs at hex with digits
  rcases List.dropPrefix?_eq_some_iff.mp stripped with ⟨front, whole, same⟩
  refine ⟨middle, sha256, ?_, digits⟩
  rw [whole, eq_of_beq same, (rsplitOnce_some divided).1]
  simp only [List.append_assoc]
  rfl

theorem retained_of_counted
    {name file : Text}
    (counted : Counted name file) :
    retained (name ++ "-".toList) (.ok (.unicode file)) = some file := by
  rcases counted with ⟨middle, sha256, rfl, hex⟩
  have undashed : '-' ∉ sha256 := notMem_sha256 hex rfl
  have stripped :
      (name ++ "-".toList ++ middle ++ "-".toList ++ sha256).dropPrefix?
          (name ++ "-".toList) =
        some (middle ++ '-' :: sha256) := by
    rw [List.append_assoc, List.append_assoc]
    exact List.dropPrefix?_append_of_beq _ (beq_self_eq_true _)
  have divided :
      rsplitOnce '-' (middle ++ '-' :: sha256) = some (middle, sha256) := by
    cases parts : rsplitOnce '-' (middle ++ '-' :: sha256) with
    | none =>
        exact
          absurd (List.mem_append_right _ List.mem_cons_self)
            (rsplitOnce_none parts)
    | some found =>
        rcases rsplitOnce_some parts with ⟨whole, fresh⟩
        rcases append_cons_inj_last undashed fresh whole with ⟨same, last⟩
        rw [same, last]
  simp only [retained, OsText.toStr, Option.bind_eq_bind, Option.bind_some,
    stripped, divided]
  exact if_pos hex

/-- No signature counts as a binary. -/
theorem not_counted_signatureName
    {name other file : Text}
    (counted : Counted name file) :
    ¬ Counted other (signatureName file) := by
  intro again
  have signature :=
    (@retained_named ⟨true, []⟩ _ _ _ (retained_of_counted counted)).2
  have binary :=
    (@retained_named ⟨true, []⟩ _ _ _ (retained_of_counted again)).1
  exact binary.not_signatureNamed signature

/-! ## A cache directory -/

/--
A cache directory with its listing: every file of it is listed once, whatever
else is listed with them, and every file has a time or an error for it.
-/
structure Listing (root : Path) where
  disk : Disk
  entries : List (Except IoError OsText)
  modified : Path → Except IoError Int
  distinct :
    entries.Pairwise fun earlier later =>
      ∀ name, earlier = .ok name → later ≠ .ok name
  complete :
    ∀ file, .ok (.unicode file) ∈ entries ↔
      Plain file ∧ disk.file (root.child file) ≠ none

/-- The name of an entry counts, whether or not it is a text. -/
def CountedEntry (name : Text) : OsText → Prop
  | .unicode file => Counted name file
  | .other bytes =>
      ∃ middle sha256,
        bytes =
            encode (name ++ "-".toList) ++ middle ++
              encode ('-' :: sha256) ∧
          isSha256Hex sha256 = true

/--
An entry is still there: a file, or what has a name which is no text, as no
path of the launcher leads to it.
-/
def Remains (root : Path) (disk : Disk) : OsText → Prop
  | .unicode file => disk.file (root.child file) ≠ none
  | .other _ => True

/-- The entries of the directory which count for the name. -/
def entriesOf
    (root : Path) (name : Text) (directory : Listing root) (disk : Disk) :
    Set OsText :=
  { entry |
    .ok entry ∈ directory.entries ∧ CountedEntry name entry ∧
      Remains root disk entry }

/--
The binaries of the directory which count for the name: those entries whose
names are texts.
-/
def binariesOf (root : Path) (name : Text) (disk : Disk) : Set Text :=
  { file |
    Plain file ∧ Counted name file ∧ disk.file (root.child file) ≠ none }

/-- The time which counts for a file; an unknown one is the epoch. -/
def timeOf
    (root : Path)
    (modified : Path → Except IoError Int)
    (file : Text) :
    Int :=
  (modified (root.child file)).toOption.getD 0

section Run

variable (root : Path) (name : Text) (cap : Nat)
variable (directory : Listing root)
variable (otherwise : Handler host Disk)

/-- A host which lists the directory and removes whatever is there. -/
def serving : Handler host Disk
  | .readDir path, disk =>
      if path = root then (.ok directory.entries, disk)
      else otherwise (.readDir path) disk
  | .modified path, disk => (directory.modified path, disk)
  | .removeFile path, disk =>
      if disk.file path = none then (.error missing, disk)
      else (.ok (), disk.remove path)
  | call, disk => otherwise call disk

/-- The disk after retention. -/
def afterRetention : Disk :=
  ((enforceRetentionCap root name cap).execute
    (serving root directory otherwise) directory.disk).2

end Run

/-- The newest binaries are left, and the others are gone as whole pairs. -/
structure KeepsNewest
    (root : Path)
    (name : Text)
    (cap : Nat)
    (modified : Path → Except IoError Int)
    (before after : Disk) : Prop where
  count :
    (binariesOf root name after).ncard =
      min (binariesOf root name before).ncard cap
  subset : binariesOf root name after ⊆ binariesOf root name before
  ordered :
    ∀ removed ∈ binariesOf root name before \ binariesOf root name after,
      ∀ kept ∈ binariesOf root name after,
        timeOf root modified removed ≤ timeOf root modified kept
  signature_removed :
    ∀ removed ∈ binariesOf root name before \ binariesOf root name after,
      after.file (root.child (signatureName removed)) = none
  signature_kept :
    ∀ kept ∈ binariesOf root name after,
      after.file (root.child (signatureName kept)) =
        before.file (root.child (signatureName kept))
  untouched :
    ∀ path,
      (∀ removed ∈ binariesOf root name before \ binariesOf root name after,
        path ≠ root.child removed ∧
          path ≠ root.child (signatureName removed)) →
        after.file path = before.file path

/-! ## Removing pairs -/

/-- The disk without the pairs of some candidates. -/
def withoutPairs (candidates : List Candidate) (disk : Disk) : Disk :=
  candidates.foldl
    (fun disk candidate =>
      (disk.remove candidate.binary).remove candidate.signature)
    disk

theorem withoutPairs_cons
    (candidate : Candidate)
    (rest : List Candidate)
    (disk : Disk) :
    withoutPairs (candidate :: rest) disk =
      withoutPairs rest
        ((disk.remove candidate.binary).remove candidate.signature) :=
  rfl

theorem remove_of_none
    {disk : Disk}
    {path : Path}
    (absent : disk.file path = none) :
    disk.remove path = disk := by
  rw [Disk.remove, ← absent, Function.update_eq_self]

theorem withoutPairs_none
    {disk : Disk}
    {path : Path}
    (absent : disk.file path = none)
    (candidates : List Candidate) :
    (withoutPairs candidates disk).file path = none := by
  induction candidates generalizing disk with
  | nil => exact absent
  | cons candidate rest induction =>
      rw [withoutPairs_cons]
      apply induction
      simp only [Disk.remove, Function.update_apply, absent, ite_self]

theorem withoutPairs_mem
    {candidates : List Candidate}
    {candidate : Candidate}
    (member : candidate ∈ candidates)
    (disk : Disk) :
    (withoutPairs candidates disk).file candidate.binary = none ∧
      (withoutPairs candidates disk).file candidate.signature = none := by
  induction candidates generalizing disk with
  | nil => cases member
  | cons first rest induction =>
      rw [withoutPairs_cons]
      rcases List.mem_cons.mp member with rfl | later
      · constructor
        · apply withoutPairs_none
          simp only [Disk.remove, Function.update_apply, if_true, ite_self]
        · apply withoutPairs_none
          exact Disk.remove_file_self _
      · exact induction later _

theorem withoutPairs_other
    {candidates : List Candidate}
    {path : Path}
    (others : ∀ candidate ∈ candidates,
      path ≠ candidate.binary ∧ path ≠ candidate.signature)
    (disk : Disk) :
    (withoutPairs candidates disk).file path = disk.file path := by
  induction candidates generalizing disk with
  | nil => rfl
  | cons candidate rest induction =>
      rw [List.forall_mem_cons] at others
      rcases others with ⟨⟨binary, signature⟩, later⟩
      rw [withoutPairs_cons, induction later,
        Disk.remove_file_of_ne _ signature, Disk.remove_file_of_ne _ binary]

/-! ## The run -/

section Run

variable {root : Path} {name : Text} {cap : Nat}
variable {directory : Listing root} {otherwise : Handler host Disk}

/-- The files of the directory which retention counts, as they are listed. -/
def countedFiles (name : Text) (directory : Listing root) : List Text :=
  directory.entries.filterMap (retained (name ++ "-".toList))

def candidateAt (directory : Listing root) (file : Text) : Candidate where
  modified := timeOf root directory.modified file
  binary := root.child file
  signature := root.child (signatureName file)

theorem mem_countedFiles (file : Text) :
    file ∈ countedFiles name directory ↔
      file ∈ binariesOf root name directory.disk := by
  rw [countedFiles, List.mem_filterMap]
  constructor
  · rintro ⟨entry, member, kept⟩
    have counted := counted_of_retained kept
    rcases retained_some kept with rfl
    rcases (directory.complete file).mp member with ⟨plain, present⟩
    exact ⟨plain, counted, present⟩
  · rintro ⟨plain, counted, present⟩
    exact
      ⟨_, (directory.complete file).mpr ⟨plain, present⟩,
        retained_of_counted counted⟩

theorem execute_binariesAmong
    {front : Text}
    {entries : List (Except IoError OsText)}
    (plain : ∀ file, .ok (.unicode file) ∈ entries → Plain file)
    (disk : Disk) :
    (binariesAmong root front entries).execute
        (serving root directory otherwise) disk =
      ((entries.filterMap (retained front)).map (candidateAt directory),
        disk) := by
  induction entries with
  | nil => rfl
  | cons entry rest induction =>
      have later :=
        induction fun file member =>
          plain file (List.mem_cons_of_mem entry member)
      rw [binariesAmong]
      cases kept : retained front entry with
      | none =>
          rw [List.filterMap_cons_none kept]
          exact later
      | some file =>
          rcases retained_some kept with rfl
          have isPlain := plain file List.mem_cons_self
          have looked :
              (issue (.modified (root.join file))).execute
                  (serving root directory otherwise) disk =
                (directory.modified (root.join file), disk) := rfl
          rw [List.filterMap_cons_some kept]
          simp only
          rw [execute_bind, looked, execute_bind, later,
            join_plain root isPlain,
            join_plain root (plain_signatureName isPlain)]
          rfl

theorem execute_removeFile (path : Path) (disk : Disk) :
    ((issue (.removeFile path)).execute
        (serving root directory otherwise) disk).2 =
      disk.remove path := by
  change
    (if disk.file path = none then
        ((.error missing, disk) : Except IoError Unit × Disk)
      else (.ok (), disk.remove path)).2 =
      disk.remove path
  split_ifs with absent
  · exact (remove_of_none absent).symm
  · rfl

theorem execute_removeAll (candidates : List Candidate) (disk : Disk) :
    ((removeAll candidates).execute
        (serving root directory otherwise) disk).2 =
      withoutPairs candidates disk := by
  induction candidates generalizing disk with
  | nil => rfl
  | cons candidate rest induction =>
      rw [removeAll, execute_bind, execute_removeFile, execute_bind,
        execute_removeFile, induction]
      rfl

/-- Retention removes the pairs of the outdated binaries. -/
theorem afterRetention_eq :
    afterRetention root name cap directory otherwise =
      withoutPairs
        (outdated cap
          ((countedFiles name directory).map (candidateAt directory)))
        directory.disk := by
  have shown :
      (issue (.readDir root)).execute
          (serving root directory otherwise) directory.disk =
        (.ok directory.entries, directory.disk) :=
    if_pos rfl
  have plain : ∀ file, .ok (.unicode file) ∈ directory.entries → Plain file :=
    fun file member => ((directory.complete file).mp member).1
  rw [afterRetention, enforceRetentionCap, execute_bind, shown]
  simp only
  rw [execute_bind, execute_binariesAmong plain]
  simp only
  rw [← countedFiles]
  split_ifs with few
  · rw [outdated, Nat.sub_eq_zero_of_le few]
    rfl
  · exact execute_removeAll _ _

end Run

/-! ## Which binaries stay -/

section Order

variable {root : Path} {name : Text} {cap : Nat}
variable {directory : Listing root} {otherwise : Handler host Disk}

theorem candidateAt_injective :
    Function.Injective (candidateAt directory) := by
  intro file other same
  exact (child_injective (congrArg Candidate.binary same)).2

theorem nodup_countedFiles : (countedFiles name directory).Nodup :=
  nodup_retained directory.distinct

/-- The candidates which retention sorts. -/
def candidates (name : Text) (directory : Listing root) : List Candidate :=
  (countedFiles name directory).map (candidateAt directory)

theorem nodup_candidates : (candidates name directory).Nodup :=
  nodup_countedFiles.map candidateAt_injective

/-- The order by the times of modification. -/
def notNewer (left right : Candidate) : Bool :=
  left.modified ≤ right.modified

/-- What is outdated is the pair of a binary of the directory. -/
theorem binary_of_outdated
    {candidate : Candidate}
    (isOutdated : candidate ∈ outdated cap (candidates name directory)) :
    ∃ file ∈ binariesOf root name directory.disk,
      candidate = candidateAt directory file := by
  have member : candidate ∈ candidates name directory :=
    mem_iff_dropped_or_kept.mpr (Or.inl isOutdated)
  rcases List.mem_map.mp member with ⟨file, listed, rfl⟩
  exact ⟨file, (mem_countedFiles file).mp listed, rfl⟩

/-- A binary stays exactly if it is not outdated. -/
theorem mem_after_iff (file : Text) :
    file ∈ binariesOf root name
        (afterRetention root name cap directory otherwise) ↔
      file ∈ binariesOf root name directory.disk ∧
        candidateAt directory file ∉
          outdated cap (candidates name directory) := by
  have run := @afterRetention_eq root name cap directory otherwise
  rw [← candidates] at run
  constructor
  · rintro ⟨plain, counted, present⟩
    have stays :
        candidateAt directory file ∉
          outdated cap (candidates name directory) := by
      intro isOutdated
      apply present
      rw [run]
      exact (withoutPairs_mem isOutdated directory.disk).1
    refine ⟨⟨plain, counted, ?_⟩, stays⟩
    intro absent
    apply present
    rw [run]
    exact withoutPairs_none absent _
  · rintro ⟨⟨plain, counted, present⟩, stays⟩
    refine ⟨plain, counted, ?_⟩
    rw [run, withoutPairs_other]
    · exact present
    · intro candidate isOutdated
      rcases binary_of_outdated isOutdated with ⟨other, isBinary, rfl⟩
      constructor
      · intro same
        apply stays
        rw [(child_injective same).2]
        exact isOutdated
      · intro same
        apply not_counted_signatureName isBinary.2.1
        rw [← (child_injective same).2]
        exact counted

theorem removed_iff (file : Text) :
    file ∈ binariesOf root name directory.disk \
        binariesOf root name
          (afterRetention root name cap directory otherwise) ↔
      file ∈ binariesOf root name directory.disk ∧
        candidateAt directory file ∈
          outdated cap (candidates name directory) := by
  rw [Set.mem_sdiff, mem_after_iff]
  constructor
  · rintro ⟨isBinary, gone⟩
    refine ⟨isBinary, ?_⟩
    by_contra stays
    exact gone ⟨isBinary, stays⟩
  · rintro ⟨isBinary, isOutdated⟩
    exact ⟨isBinary, fun stays => stays.2 isOutdated⟩

theorem kept_of_mem_after
    {file : Text}
    (stays : file ∈ binariesOf root name
      (afterRetention root name cap directory otherwise)) :
    candidateAt directory file ∈
      kept notNewer cap (candidates name directory) := by
  rcases (mem_after_iff file).mp stays with ⟨isBinary, notOutdated⟩
  have member : candidateAt directory file ∈ candidates name directory :=
    List.mem_map_of_mem ((mem_countedFiles file).mpr isBinary)
  rcases mem_iff_dropped_or_kept.mp member with isOutdated | isKept
  · exact absurd isOutdated notOutdated
  · exact isKept

theorem mem_after_of_kept
    {candidate : Candidate}
    (isKept : candidate ∈ kept notNewer cap (candidates name directory)) :
    ∃ file ∈ binariesOf root name
        (afterRetention root name cap directory otherwise),
      candidateAt directory file = candidate := by
  have member : candidate ∈ candidates name directory :=
    mem_iff_dropped_or_kept.mpr (Or.inr isKept)
  rcases List.mem_map.mp member with ⟨file, listed, rfl⟩
  refine ⟨file, ?_, rfl⟩
  rw [mem_after_iff]
  constructor
  · exact (mem_countedFiles file).mp listed
  · intro isOutdated
    exact ne_of_dropped_of_kept nodup_candidates isOutdated isKept rfl

/-! ## How many stay -/

theorem ncard_members
    {α : Type}
    {list : List α}
    (nodup : list.Nodup) :
    { item | item ∈ list }.ncard = list.length := by
  classical
  have members : { item | item ∈ list } = ↑list.toFinset := by
    rw [List.coe_toFinset]
  rw [members, Set.ncard_coe_finset, List.toFinset_card_of_nodup nodup]

theorem ncard_before :
    (binariesOf root name directory.disk).ncard =
      (candidates name directory).length := by
  have members :
      binariesOf root name directory.disk =
        { file | file ∈ countedFiles name directory } := by
    ext file
    exact (mem_countedFiles file).symm
  rw [members, ncard_members nodup_countedFiles, candidates,
    List.length_map]

theorem ncard_after :
    (binariesOf root name
        (afterRetention root name cap directory otherwise)).ncard =
      min (candidates name directory).length cap := by
  have image :
      candidateAt directory ''
          binariesOf root name
            (afterRetention root name cap directory otherwise) =
        { candidate |
          candidate ∈ kept notNewer cap (candidates name directory) } := by
    ext candidate
    constructor
    · rintro ⟨file, stays, rfl⟩
      exact kept_of_mem_after stays
    · intro isKept
      exact mem_after_of_kept isKept
  rw [← Set.ncard_image_of_injective _
    (@candidateAt_injective root directory), image,
    ncard_members (nodup_kept nodup_candidates), length_kept]

end Order

/--
Retention leaves the newest binaries of the name, as many as the cap allows,
and removes the others as whole pairs; nothing else of the disk changes.
-/
theorem retention_keeps_newest
    (root : Path)
    (name : Text)
    (cap : Nat)
    (directory : Listing root)
    (otherwise : Handler host Disk) :
    KeepsNewest root name cap directory.modified directory.disk
      (afterRetention root name cap directory otherwise) := by
  have run := @afterRetention_eq root name cap directory otherwise
  rw [← candidates] at run
  constructor
  · rw [ncard_after, ncard_before]
  · intro file stays
    exact ((mem_after_iff file).mp stays).1
  · intro removed gone stayed stays
    have isOutdated := ((removed_iff removed).mp gone).2
    have isKept := kept_of_mem_after stays
    exact
      of_decide_eq_true
        (le_of_dropped_of_kept modified_trans modified_total isOutdated
          isKept)
  · intro removed gone
    rw [run]
    have isOutdated := ((removed_iff removed).mp gone).2
    exact (withoutPairs_mem isOutdated directory.disk).2
  · intro stayed stays
    rcases (mem_after_iff stayed).mp stays with ⟨isBinary, notOutdated⟩
    rw [run]
    apply withoutPairs_other
    intro candidate isOutdated
    rcases binary_of_outdated isOutdated with ⟨other, isOther, rfl⟩
    constructor
    · intro same
      apply not_counted_signatureName isBinary.2.1
      rw [(child_injective same).2]
      exact isOther.2.1
    · intro same
      apply notOutdated
      rw [List.append_cancel_right (child_injective same).2]
      exact isOutdated
  · intro path others
    rw [run]
    apply withoutPairs_other
    intro candidate isOutdated
    rcases binary_of_outdated isOutdated with ⟨file, isBinary, rfl⟩
    exact others file ((removed_iff file).mpr ⟨isBinary, isOutdated⟩)

/-! ## A directory of empty files -/

/-- The files of some names, and entries whose names are no texts. -/
def Listing.holding
    (root : Path) (files : List Text) (others : List Bytes)
    (times : Text → Int)
    (plain : ∀ file ∈ files, Plain file)
    (nodup : files.Nodup) (othersNodup : others.Nodup) :
    Listing root where
  disk :=
    { file := fun path =>
        if path ∈ files.map root.child then some [] else none
      counter := fun _ => 0 }
  entries :=
    files.map (fun file => .ok (.unicode file)) ++
      others.map fun bytes => .ok (.other bytes)
  modified path := .ok (times (path.fileName.getD []))
  distinct := by
    have apart :
        (files.map OsText.unicode ++ others.map OsText.other).Nodup := by
      rw [List.nodup_append]
      refine ⟨nodup.map fun _ _ => OsText.unicode.inj,
        othersNodup.map fun _ _ => OsText.other.inj, ?_⟩
      intro entry member other otherMember same
      rcases List.mem_map.mp member with ⟨file, _, rfl⟩
      rcases List.mem_map.mp otherMember with ⟨bytes, _, rfl⟩
      cases same
    have listed :
        files.map (fun file => .ok (.unicode file)) ++
            others.map (fun bytes => .ok (.other bytes)) =
          (files.map OsText.unicode ++ others.map OsText.other).map
            (Except.ok : OsText → Except IoError OsText) := by
      rw [List.map_append, List.map_map, List.map_map]
      rfl
    rw [listed, List.pairwise_map]
    apply apart.imp
    rintro earlier later different name ⟨⟩ ⟨⟩
    exact different rfl
  complete file := by
    have placed : (root.child file ∈ files.map root.child) ↔ file ∈ files := by
      constructor
      · intro member
        rcases List.mem_map.mp member with ⟨other, isFile, same⟩
        exact (child_injective same).2 ▸ isFile
      · exact List.mem_map_of_mem
    simp only [List.mem_append, List.mem_map, Except.ok.injEq,
      OsText.unicode.injEq, exists_eq_right, reduceCtorEq, and_false,
      exists_false, or_false, placed]
    constructor
    · intro isFile
      exact ⟨plain file isFile, by simp [isFile]⟩
    · rintro ⟨_, present⟩
      by_contra absent
      exact present (if_neg absent)

section Small

def cacheDirectory : Path :=
  { absolute := true, components := [.normal "cache".toList] }

/-- The binary of a version, with a digest which repeats one digit. -/
def binaryOf (version : Text) (digit : Char) : Text :=
  "foo-".toList ++ version ++ "-".toList ++ List.replicate 64 digit

def olderBinary : Text := binaryOf "1.0.0".toList 'a'

def newerBinary : Text := binaryOf "1.1.0".toList 'b'

/-- Two binaries with their signatures, the second one newer. -/
def twoBinaries : Listing cacheDirectory :=
  .holding cacheDirectory
    [newerBinary, signatureName newerBinary, olderBinary,
      signatureName olderBinary]
    [] (fun file => if file = newerBinary then 2 else 1)
    (by decide +kernel) (by decide +kernel) (by decide +kernel)

theorem exists_notFound (_ : Text) :
    ∃ answer : Except FetchError Bytes, answer = .error .notFound :=
  ⟨.error .notFound, rfl⟩

/-- A server which has nothing. -/
def silent : Surroundings :=
  .listed (fun _ answer => answer = .error .notFound) exists_notFound

/-- A host on which nothing fails, without a server. -/
noncomputable def offline : Handler host Disk :=
  faultless silent (UInt32.ofNat 1)

/-- One of two binaries is left. -/
theorem retention_keeps_newest_two :
    (binariesOf cacheDirectory "foo".toList twoBinaries.disk).ncard = 2 ∧
      KeepsNewest cacheDirectory "foo".toList 1 twoBinaries.modified
        twoBinaries.disk
        (afterRetention cacheDirectory "foo".toList 1 twoBinaries
          offline) := by
  constructor
  · have counted :
        countedFiles "foo".toList twoBinaries =
          [newerBinary, olderBinary] := by
      decide +kernel
    rw [ncard_before, candidates, counted]
    rfl
  · exact
      retention_keeps_newest cacheDirectory "foo".toList 1 twoBinaries
        offline

/-- A name which counts, but for a byte which is in no text. -/
def illegibleEntry : Bytes :=
  encode ("foo".toList ++ "-".toList) ++ [0xFF] ++
    encode ('-' :: List.replicate 64 'c')

/-- A binary with its signature, and an entry whose name is no text. -/
def illegibleBinary : Listing cacheDirectory :=
  .holding cacheDirectory [newerBinary, signatureName newerBinary]
    [illegibleEntry] (fun _ => 1) (by decide +kernel) (by decide +kernel)
    (by decide +kernel)

/-- An entry whose name is no text stays, beyond the cap. -/
theorem illegible_entry_stays :
    ¬ ∀ (root : Path) (name : Text) (cap : Nat) (directory : Listing root)
        (otherwise : Handler host Disk),
      1 ≤ cap →
        (entriesOf root name directory
            (afterRetention root name cap directory otherwise)).ncard =
          min (entriesOf root name directory directory.disk).ncard cap := by
  intro capped
  have single :
      countedFiles "foo".toList illegibleBinary = [newerBinary] := by
    decide +kernel
  have unchanged :
      afterRetention cacheDirectory "foo".toList 1 illegibleBinary offline =
        illegibleBinary.disk := by
    rw [afterRetention_eq, single]
    rfl
  have binary :
      newerBinary ∈
        binariesOf cacheDirectory "foo".toList illegibleBinary.disk := by
    rw [← mem_countedFiles, single]
    exact List.mem_singleton_self _
  have entries :
      entriesOf cacheDirectory "foo".toList illegibleBinary
          illegibleBinary.disk =
        {.unicode newerBinary, .other illegibleEntry} := by
    ext entry
    constructor
    · rintro ⟨listed, counted, _⟩
      have shown :
          entry = .unicode newerBinary ∨
            entry = .unicode (signatureName newerBinary) ∨
              entry = .other illegibleEntry := by
        simpa [illegibleBinary, Listing.holding] using listed
      rcases shown with rfl | rfl | rfl
      · exact Or.inl rfl
      · exact absurd counted (not_counted_signatureName binary.2.1)
      · exact Or.inr rfl
    · rintro (rfl | rfl)
      · exact
          ⟨(illegibleBinary.complete _).mpr ⟨binary.1, binary.2.2⟩,
            binary.2.1, binary.2.2⟩
      · refine ⟨?_, ⟨[0xFF], List.replicate 64 'c', rfl, ?_⟩, trivial⟩
        · simp [illegibleBinary, Listing.holding]
        · decide +kernel
  have one := capped cacheDirectory "foo".toList 1 illegibleBinary offline
    (Nat.le_refl 1)
  have different :
      OsText.unicode newerBinary ≠ OsText.other illegibleEntry := by simp
  rw [unchanged, entries, Set.ncard_pair different] at one
  exact absurd one (by decide)

end Small

end Luminosity.Launch.RetentionOrder
