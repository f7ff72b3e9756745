import Luminosity.Foundation.OldestFirst
import Luminosity.Host.ModifiedTimes
import Luminosity.Launch.Cache

/-!
# The binaries which retention counts

Retention lists the cache directory for the binaries of a command, looks up
when each was modified, and removes the oldest beyond a cap together with their
signatures.
-/

namespace Luminosity.Launch.RetainedBinaries

open Luminosity.Foundation.TextSegments
open Luminosity.Foundation.EffectPrograms
open Luminosity.Foundation.OldestFirst
open Luminosity.Foundation.Chains
open Luminosity.Host.Paths
open Luminosity.Host.Calls
open Luminosity.Host.Volumes
open Luminosity.Host.ModifiedTimes
open Luminosity.Launch.Cache

/-! ## The files of an entry -/

/-- The two files of an entry are next to each other. -/
theorem siblings
    {root : Path} {name version : Text} {cached : CachedBinary}
    (entry : EntryOf root name version cached) :
    ∃ (directory : Path) (file : Text),
      cached.path = directory.child file ∧
        cached.signaturePath = directory.child (signatureName file) := by
  rcases entry with ⟨hex, path, signaturePath⟩
  rw [stem_eq] at path signaturePath
  rw [signatureName, List.append_assoc, List.cons_append] at signaturePath
  have unseparated := notMem_sha256 hex (show isHexDigit '/' = false from rfl)
  rcases exists_join_append root (name ++ '-' :: version)
      (show '-' ≠ '.' by decide) (by decide) with ⟨directory, start, joined⟩
  refine ⟨directory, start ++ '-' :: cached.sha256, ?_, ?_⟩
  · rw [path, joined _ unseparated]
  · rw [signaturePath, joined, signatureName, List.append_assoc,
      List.cons_append]
    rw [List.mem_append, not_or]
    exact ⟨unseparated, by decide⟩

/-- A listed candidate is another one if its path is. -/
theorem signature_ne
    {root : Path} {name version : Text} {cached : CachedBinary}
    (entry : EntryOf root name version cached) {file : Text}
    (different : root.child file ≠ cached.path) :
    root.child (signatureName file) ≠ cached.signaturePath := by
  rcases siblings entry with ⟨directory, own, path, signaturePath⟩
  intro same
  rw [signaturePath] at same
  rcases child_injective same with ⟨rfl, names⟩
  apply different
  rw [path, List.append_cancel_right names]

/-! ## The binaries of a listing -/

section Listing

variable {network : Text → Except FetchError Bytes → Prop}
variable {process : UInt32}
variable {root : Path} {front : Text}

/-- A listed binary with the time which counts for it. -/
def candidateOf (root : Path) (state : DatedVolume) (file : Text) :
    Cache.Candidate where
  modified := state.seen (root.join file)
  binary := root.join file
  signature := root.join (signatureName file)

theorem candidateOf_idles
    {before after : DatedVolume} (idles : Idles before after) :
    candidateOf root after = candidateOf root before := by
  funext file
  rw [candidateOf, candidateOf, DatedVolume.seen, DatedVolume.seen, idles.dated]

theorem ensures_binariesAmong
    (entries : List (Except IoError OsText)) (state : DatedVolume) :
    Ensures (dated network process) (binariesAmong root front entries)
      (fun binaries after =>
        Idles state after ∧
          binaries =
            (entries.filterMap (retained front)).map (candidateOf root state))
      state := by
  induction entries generalizing state with
  | nil => exact ⟨.refl state, rfl⟩
  | cons entry rest induction =>
      rw [binariesAmong]
      cases kept : retained front entry with
      | none =>
          rw [List.filterMap_cons_none kept]
          exact induction state
      | some file =>
          rw [List.filterMap_cons_some kept, ensures_bind, ensures_issue]
          intro modified after step
          have idles :=
            @idles_of_reads _ _ (.modified (root.join file)) trivial _ _ _ step
          rw [ensures_bind]
          apply (induction after).mono
          rintro others last ⟨later, rfl⟩
          refine ⟨idles.trans later, ?_⟩
          rw [candidateOf_idles idles, List.map_cons, step.2.2.1]
          rfl

/-- No time passes while the binaries are listed. -/
theorem runs_binariesAmong
    (entries : List (Except IoError OsText)) (state : DatedVolume) :
    Runs (dated network process) (binariesAmong root front entries) state
      ((entries.filterMap (retained front)).map (candidateOf root state))
      state := by
  induction entries with
  | nil => exact .done _ _
  | cons entry rest induction =>
      rw [binariesAmong]
      cases kept : retained front entry with
      | none =>
          rw [List.filterMap_cons_none kept]
          exact induction
      | some file =>
          have read :
              Runs (dated network process)
                (issue (.modified (root.join file))) state
                (state.dated (root.join file)) state :=
            Runs.perform ⟨rfl, Int.le_refl _, rfl, rfl⟩
          rw [List.filterMap_cons_some kept]
          exact read.bind (induction.bind (.done _ _))

/-- What is retained is listed, and its name is the one it is listed by. -/
theorem retained_some
    {entry : Except IoError OsText} {file : Text}
    (kept : retained front entry = some file) :
    entry = .ok (.unicode file) := by
  cases entry with
  | error error => cases kept
  | ok fileName =>
      simp only [retained, Option.bind_eq_bind, Option.bind_eq_some_iff]
        at kept
      rcases kept with ⟨listed, unicode, rest, _, ⟨family, sha256⟩, _, hex⟩
      split_ifs at hex
      cases hex
      cases fileName with
      | unicode text =>
          cases unicode
          rfl
      | other bytes => cases unicode

/-- A listing names each file of the family once. -/
theorem nodup_retained
    {entries : List (Except IoError OsText)}
    (distinct : entries.Pairwise fun earlier later =>
      ∀ name, earlier = .ok name → later ≠ .ok name) :
    (entries.filterMap (retained front)).Nodup := by
  apply List.pairwise_filterMap.mpr
  apply distinct.imp
  intro earlier later different file kept other otherKept same
  subst same
  exact different _ (retained_some kept) (retained_some otherKept)

/-- The binaries which retention counts. -/
def listed (root : Path) (front : Text) (state : DatedVolume)
    (entries : List (Except IoError OsText)) : List Cache.Candidate :=
  (entries.filterMap (retained front)).map (candidateOf root state)

/-- The binaries which retention removes. -/
def outdated (cap : Nat) (binaries : List Cache.Candidate) :
    List Cache.Candidate :=
  (binaries.mergeSort fun left right => left.modified ≤ right.modified).take
    (binaries.length - cap)

theorem modified_trans (first second third : Cache.Candidate)
    (earlier : decide (first.modified ≤ second.modified))
    (later : decide (second.modified ≤ third.modified)) :
    decide (first.modified ≤ third.modified) := by
  rw [decide_eq_true_eq] at *
  exact Int.le_trans earlier later

theorem modified_total (first second : Cache.Candidate) :
    decide (first.modified ≤ second.modified) ||
      decide (second.modified ≤ first.modified) := by
  rw [Bool.or_eq_true, decide_eq_true_eq, decide_eq_true_eq]
  exact Int.le_total _ _

theorem mem_listed
    {state : DatedVolume} {entries : List (Except IoError OsText)}
    {candidate : Cache.Candidate}
    (member : candidate ∈ listed root front state entries) :
    ∃ file, .ok (.unicode file) ∈ entries ∧
      retained front (.ok (.unicode file)) = some file ∧
        candidate = candidateOf root state file := by
  rcases List.mem_map.mp member with ⟨file, kept, rfl⟩
  rcases List.mem_filterMap.mp kept with ⟨entry, inListing, isRetained⟩
  rcases retained_some isRetained with rfl
  exact ⟨file, inListing, isRetained, rfl⟩

/-- No two of them have the same path. -/
theorem nodup_listed_binaries
    {state : DatedVolume} {entries : List (Except IoError OsText)}
    (shows : Shows state.volume root entries) :
    ((listed root front state entries).map Cache.Candidate.binary).Nodup := by
  rw [listed, List.map_map]
  apply (nodup_retained shows.2.1).map_on
  intro file member other otherMember same
  rcases List.mem_filterMap.mp member with ⟨entry, inListing, kept⟩
  rcases List.mem_filterMap.mp otherMember with
    ⟨otherEntry, otherInListing, otherKept⟩
  rcases retained_some kept with rfl
  rcases retained_some otherKept with rfl
  simp only [Function.comp_apply, candidateOf,
    join_plain root (shows.1 file inListing).1,
    join_plain root (shows.1 other otherInListing).1] at same
  exact (child_injective same).2

/-- The oldest of one too many is the first to go. -/
theorem outdated_first
    {cap : Nat} {first : Cache.Candidate} {others : List Cache.Candidate}
    (length : others.length = cap)
    (oldest : ∀ other ∈ others, first.modified ≤ other.modified) :
    outdated cap (first :: others) = [first] := by
  have sorted :=
    @mergeSort_cons_of_first _ _ modified_trans modified_total first others
      (fun other member => decide_eq_true (oldest other member))
  rw [outdated, sorted, List.length_cons, length, Nat.add_sub_cancel_left]
  rfl

/-! ## Removing them -/

/-- A program which looks and removes loses what it removes. -/
theorem ensures_thins
    {α : Type} {program : HostProgram α} {among : Path → Prop}
    (asks : Asks (Removes among) program) {initial state : DatedVolume}
    (thins : Thins among initial state) :
    Ensures (dated network process) program
      (fun _ after => Thins among initial after) state := by
  apply asks.ensures
  · intro call before answer after removes step earlier
    rcases removes.reads_or_removes with reads | ⟨removed, rfl, named⟩
    · exact earlier.idles (idles_of_reads reads step)
    · exact earlier.removeFile named step
  · exact thins

/-- What comes by no name which is removed is found as before. -/
theorem ensures_agrees
    {α : Type} {program : HostProgram α} {path : Path} {state : DatedVolume}
    (asks : Asks
      (Removes fun removed => ¬ Passes state.volume.target path removed)
      program) :
    Ensures (dated network process) program
      (fun _ after => Volume.Agrees state.volume after.volume path) state := by
  apply asks.ensures
  · intro call before answer after removes step agrees
    rcases removes.reads_or_removes with reads | ⟨removed, rfl, avoids⟩
    · rw [linked_reads reads step.1]
      exact agrees
    · cases answer with
      | error error =>
          rw [step.1.1]
          exact agrees
      | ok _ =>
          rw [step.1.2.2]
          apply agrees.trans
          apply Volume.agrees_remove
          rw [agrees.passes_iff]
          exact avoids
  · exact fun _ _ => ⟨rfl, rfl⟩

/-- A name can be removed, unless it is a directory. -/
theorem runs_removeFile (path : Path) (state : DatedVolume) :
    ∃ answer after,
      Runs (dated network process) (issue (.removeFile path)) state answer
          after ∧
        (¬ state.volume.IsDirectory path → after.volume.entry path = none) ∧
          ∀ other, state.volume.entry other = none →
            after.volume.entry other = none := by
  by_cases directory : state.volume.IsDirectory path
  · refine ⟨.error { kind := .other, detail := [] }, state, Runs.perform
      ⟨⟨rfl, ?_⟩, Int.le_refl _, rfl⟩, absurd directory, fun _ => id⟩
    rintro ⟨⟩
  · cases present : state.volume.entry path with
    | none =>
        exact ⟨.error { kind := .notFound, detail := [] }, state, Runs.perform
          ⟨⟨rfl, fun _ => present⟩, Int.le_refl _, rfl⟩, fun _ => present,
          fun _ => id⟩
    | some inode =>
        refine ⟨.ok (),
          { volume := state.volume.remove path
            modified := state.modified
            now := state.now },
          Runs.perform ⟨⟨?_, directory, rfl⟩, Int.le_refl _, rfl⟩,
          fun _ => Volume.remove_entry_self, ?_⟩
        · rw [present]
          exact Option.some_ne_none inode
        · intro other absent
          by_cases same : other = path
          · subst same
            exact Volume.remove_entry_self
          · exact (Volume.remove_entry_of_ne same).trans absent

theorem runs_removeAll_one
    (candidate : Cache.Candidate) {state : DatedVolume}
    (isFile : ¬ state.volume.IsDirectory candidate.binary) :
    ∃ after,
      Runs (dated network process) (removeAll [candidate]) state ()
          after ∧
        after.volume.entry candidate.binary = none := by
  rcases @runs_removeFile network process candidate.binary state with
    ⟨_, middle, binary, gone, _⟩
  rcases @runs_removeFile network process candidate.signature middle with
    ⟨_, after, signature, _, stays⟩
  exact ⟨after, binary.bind (signature.bind (.done _ _)),
    stays _ (gone isFile)⟩

end Listing

end Luminosity.Launch.RetainedBinaries
