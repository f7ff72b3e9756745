import Luminosity.Host.Placements

/-!
# A volume with modification times

Every node has the time at which it was last modified, which may be unreadable.
A name has the time of its own node, so that a link has its own time and not
the one of the file where it leads.  Writing a file dates it, and a rename
carries its date along.  The clock never goes back, but it need not move
between two calls, and what is on the volume at first may be dated later than
the clock.

A directory is listed by the names in it, each of them once, unless an error
cuts the listing short.
-/

namespace Luminosity.Host.ModifiedTimes

open Luminosity.Foundation.TextSegments
open Luminosity.Foundation.EffectPrograms
open Luminosity.Foundation.Chains
open Luminosity.Host.Paths
open Luminosity.Host.Calls
open Luminosity.Host.Volumes
open Luminosity.Host.Placements

structure DatedVolume where
  volume : Volume
  modified : Nat → Except IoError Int
  now : Int

/-- When a name was last modified. -/
def DatedVolume.dated (state : DatedVolume) (path : Path) :
    Except IoError Int :=
  match state.volume.entry path with
  | some inode => state.modified inode
  | none => .error { kind := .notFound, detail := [] }

/-- The time by which a name counts, the epoch where it is unreadable. -/
def DatedVolume.seen (state : DatedVolume) (path : Path) : Int :=
  (state.dated path).toOption.getD 0

/-- The time of a name which is written through now: a link keeps its own. -/
def DatedVolume.due (state : DatedVolume) (path : Path) : Int :=
  match state.volume.target path with
  | some _ => state.seen path
  | none => state.now

/-- Every name in the directory once, unless an error cuts them short. -/
def Shows (volume : Volume) (path : Path)
    (entries : List (Except IoError OsText)) : Prop :=
  (∀ name, .ok (.unicode name) ∈ entries →
    Plain name ∧ volume.entry (path.child name) ≠ none) ∧
    (entries.Pairwise fun earlier later =>
      ∀ name, earlier = .ok name → later ≠ .ok name) ∧
      ((∃ error, .error error ∈ entries) ∨
        ∀ name, Plain name → volume.entry (path.child name) ≠ none →
          .ok (.unicode name) ∈ entries)

section Calls

variable (network : Text → Except FetchError Bytes → Prop)
variable (process : UInt32)

def surroundings : Surroundings where
  network
  listing := Shows

/-- What the process writes to is modified now. -/
def Stamped (before after : DatedVolume) : Prop :=
  ∃ inode position,
    after.volume.opened process = some (inode, position) ∧
      after.modified =
        Function.update before.modified inode (.ok after.now)

/-- What a call does to the times of modification, and learns of them. -/
def Stamps : (call : Call) → DatedVolume → call.Answer → DatedVolume → Prop
  | .modified path, before, answer, after =>
      answer = before.dated path ∧ after.modified = before.modified
  | .create _, before, answer, after =>
      match answer with
      | .ok _ => Stamped process before after
      | .error _ => after.modified = before.modified
  | .append _ _, before, answer, after =>
      match answer with
      | .ok _ => Stamped process before after
      | .error _ => after.modified = before.modified
  | _, before, _, after => after.modified = before.modified

/-- The calls of one process over the volume and its times. -/
def dated : Semantics host DatedVolume :=
  fun call before answer after =>
    linked (surroundings network) process call before.volume answer
        after.volume ∧
      before.now ≤ after.now ∧ Stamps process call before answer after

end Calls

variable {network : Text → Except FetchError Bytes → Prop}
variable {process : UInt32}

/-! ## What the calls leave alone -/

/-- The time is later, and nothing else has changed. -/
structure Idles (before after : DatedVolume) : Prop where
  volume : after.volume = before.volume
  modified : after.modified = before.modified
  now : before.now ≤ after.now

theorem Idles.refl (state : DatedVolume) : Idles state state :=
  ⟨rfl, rfl, Int.le_refl _⟩

theorem Idles.trans
    {first second third : DatedVolume}
    (earlier : Idles first second) (later : Idles second third) :
    Idles first third :=
  ⟨later.volume.trans earlier.volume, later.modified.trans earlier.modified,
    Int.le_trans earlier.now later.now⟩

theorem Idles.dated
    {before after : DatedVolume} (idles : Idles before after) :
    after.dated = before.dated := by
  funext path
  rw [DatedVolume.dated, DatedVolume.dated, idles.volume, idles.modified]

theorem Idles.due
    (idles : Idles before after) (path : Path) :
    before.due path ≤ after.due path ∧
      (after.now = before.now → after.due path = before.due path) := by
  rw [DatedVolume.due, DatedVolume.due, DatedVolume.seen, DatedVolume.seen,
    idles.volume, idles.dated]
  cases before.volume.target path with
  | some next => exact ⟨Int.le_refl _, fun _ => rfl⟩
  | none => exact ⟨idles.now, id⟩

theorem idles_of_reads
    {call : Call} (reads : call.Reads) {before after : DatedVolume}
    {answer : call.Answer}
    (step : ModifiedTimes.dated network process call before answer after) :
    Idles before after := by
  refine ⟨linked_reads reads step.1, ?_, step.2.1⟩
  cases call with
  | modified path => exact step.2.2.2
  | create path => exact reads.elim
  | append path byte => exact reads.elim
  | _ => exact step.2.2

theorem idles_of_scaffolds
    {call : Call} (scaffolds : call.Scaffolds) {before after : DatedVolume}
    {answer : call.Answer}
    (step : ModifiedTimes.dated network process call before answer after) :
    Idles before after := by
  refine ⟨linked_scaffolds scaffolds step.1, ?_, step.2.1⟩
  cases call with
  | isDir path => exact step.2.2
  | createDir path => exact step.2.2
  | _ => exact scaffolds.elim

/-- A program which only looks lets time pass. -/
theorem ensures_idles
    {α : Type} {program : HostProgram α} (asks : Asks Call.Reads program)
    (state : DatedVolume) :
    Ensures (dated network process) program
      (fun _ after => Idles state after) state := by
  apply asks.ensures
  · intro call before answer after reads step earlier
    exact earlier.trans (idles_of_reads reads step)
  · exact .refl state

/-! ## Losing names -/

/-- Nothing is lost but names among these, which are no directories. -/
structure Thins (among : Path → Prop) (before after : DatedVolume) :
    Prop where
  loses : Volume.Loses among before.volume after.volume
  directory : ∀ path, before.volume.IsDirectory path →
    after.volume.entry path = before.volume.entry path
  modified : after.modified = before.modified
  now : before.now ≤ after.now

section Thinning

variable {among : Path → Prop} {path : Path}
variable {initial before after : DatedVolume}

theorem Thins.refl (state : DatedVolume) : Thins among state state :=
  ⟨.refl _, fun _ _ => rfl, rfl, Int.le_refl _⟩

theorem Thins.idles
    (thins : Thins among initial before) (idles : Idles before after) :
    Thins among initial after := by
  refine ⟨?_, ?_, idles.modified.trans thins.modified,
    Int.le_trans thins.now idles.now⟩
  · rw [idles.volume]
    exact thins.loses
  · rw [idles.volume]
    exact thins.directory

theorem Thins.removeFile
    (thins : Thins among initial before) (named : among path)
    {answer : Except IoError Unit}
    (step : ModifiedTimes.dated network process (.removeFile path) before
      answer after) :
    Thins among initial after := by
  rcases step with ⟨removes, later, unstamped⟩
  cases answer with
  | error error => exact thins.idles ⟨removes.1, unstamped, later⟩
  | ok _ =>
      rcases removes with ⟨present, isFile, gone⟩
      refine ⟨?_, ?_, unstamped.trans thins.modified,
        Int.le_trans thins.now later⟩
      · rw [gone]
        exact thins.loses.remove named
      · intro other directory
        have kept := thins.directory other directory
        have different : other ≠ path := by
          rintro rfl
          apply isFile
          rw [Volume.IsDirectory, kept, thins.loses.node]
          exact directory
        rw [gone, Volume.remove_entry_of_ne different]
        exact kept

/-- What is still there has the date it had. -/
theorem Thins.kept
    (thins : Thins among before after)
    (present : after.volume.entry path ≠ none) :
    before.volume.entry path ≠ none ∧ after.seen path = before.seen path := by
  rcases thins.loses.entry path with same | ⟨_, gone⟩
  · rw [DatedVolume.seen, DatedVolume.seen, DatedVolume.dated,
      DatedVolume.dated, ← same, thins.modified]
    exact ⟨present, rfl⟩
  · exact absurd gone present

theorem Thins.due
    (thins : Thins among before after)
    (avoids : ∀ point, Passes before.volume.target path point →
      ¬ among point) :
    before.due path ≤ after.due path := by
  rcases thins.loses.agrees avoids path .refl with ⟨entry, target⟩
  have seen : after.seen path = before.seen path := by
    rw [DatedVolume.seen, DatedVolume.seen, DatedVolume.dated,
      DatedVolume.dated, entry, thins.modified]
  rw [DatedVolume.due, DatedVolume.due, target, seen]
  cases before.volume.target path with
  | some next => exact Int.le_refl _
  | none => exact thins.now

end Thinning

/-! ## Writing a file -/

/-- The process writes a file, which is dated by the writing. -/
structure Drafts (process : UInt32) (path : Path) (bytes : Bytes)
    (before after : DatedVolume) : Prop where
  stages :
    Volume.Stages process path bytes before.volume after.volume
  stamped :
    ∃ inode position stamp,
      after.volume.opened process = some (inode, position) ∧
        after.modified =
            Function.update before.modified inode (.ok stamp) ∧
          before.now ≤ stamp ∧ stamp ≤ after.now

section Drafting

variable {path other : Path} {bytes : Bytes} {before after : DatedVolume}

theorem Drafts.now (drafts : Drafts process path bytes before after) :
    before.now ≤ after.now := by
  rcases drafts.stamped with ⟨inode, position, stamp, _, _, since, upto⟩
  exact Int.le_trans since upto

/-- The writing dates no name which the path does not meet. -/
theorem Drafts.dated_of_not_meets
    (drafts : Drafts process path bytes before after)
    (apart : ¬ before.volume.Meets path other) :
    after.dated other = before.dated other := by
  have entry := (drafts.stages.agrees apart other .refl).1
  rcases drafts.stamped with ⟨inode, position, stamp, opened, stamped, _⟩
  have different := drafts.stages.entry_ne apart opened
  rw [DatedVolume.dated, DatedVolume.dated, entry, stamped]
  cases present : before.volume.entry other with
  | none => rfl
  | some found =>
      have distinct : found ≠ inode := by
        rintro rfl
        exact different present
      exact Function.update_of_ne distinct ..

/-- A link keeps its time when a file is written through it. -/
theorem Drafts.dated_link
    (drafts : Drafts process path bytes before after)
    (leads : before.volume.target path = some other) :
    after.dated path = before.dated path := by
  rcases drafts.stamped with ⟨inode, position, stamp, opened, stamped, _⟩
  rcases Volume.target_eq_some_iff.mp leads with ⟨link, present, isLink⟩
  have kept := drafts.stages.entry_kept present
  have distinct : link ≠ inode := by
    rintro rfl
    have still := (congrFun drafts.stages.target path).trans leads
    rcases Volume.target_eq_some_iff.mp still with ⟨found, here, linked⟩
    cases kept.symm.trans here
    cases (drafts.stages.node_opened opened).symm.trans linked
  rw [DatedVolume.dated, DatedVolume.dated, present, kept, stamped]
  exact Function.update_of_ne distinct ..

/-- The name counts by the time which is due, or by a later one. -/
theorem Drafts.due
    (drafts : Drafts process path bytes before after) :
    before.due path ≤ after.seen path ∧
      (after.now = before.now → after.seen path = before.due path) := by
  rw [DatedVolume.due]
  cases leads : before.volume.target path with
  | some next =>
      rw [DatedVolume.seen, DatedVolume.seen, drafts.dated_link leads]
      exact ⟨Int.le_refl _, fun _ => rfl⟩
  | none =>
      rcases drafts.stamped with
        ⟨inode, position, stamp, opened, stamped, since, upto⟩
      have here := drafts.stages.entry_of_stops (arrives_self leads) opened
      have dated : after.dated path = .ok stamp := by
        rw [DatedVolume.dated, here, stamped]
        exact Function.update_self ..
      have seen : after.seen path = stamp := by
        rw [DatedVolume.seen, dated]
        rfl
      rw [seen]
      refine ⟨since, ?_⟩
      intro still
      exact Int.le_antisymm (still ▸ upto) since

/-- A file which is written is dated by the writing. -/
theorem ensures_writeFile_drafts
    (path : Path) (bytes : Bytes) (state : DatedVolume) :
    Ensures (dated network process) (writeFile path bytes)
      (onOk (fun _ => Drafts process path bytes state) fun _ _ => True)
      state := by
  apply @ensures_writeFile _ _ _ (fun before => before = state)
    (fun written => Drafts process path written state)
  · rintro before answer after rfl step
    cases answer with
    | error error => trivial
    | ok _ =>
        rcases step with ⟨⟨last, inode, arrives, opens⟩, later, stamped⟩
        rcases stamped with ⟨found, position, opened, modified⟩
        exact ⟨Volume.stages_opens arrives opens, found, position, _, opened,
          modified, later, Int.le_refl _⟩
  · rintro written byte before answer after drafts step
    cases answer with
    | error error => trivial
    | ok _ =>
        rcases step with ⟨writes, later, inode, position, opened, modified⟩
        refine ⟨drafts.stages.write writes, inode, position, _, opened, ?_,
          Int.le_trans drafts.now later, Int.le_refl _⟩
        -- The bytes go to the file which was opened first.
        rcases drafts.stamped with ⟨first, _, stamp, here, stamped, _⟩
        rcases writes with ⟨found, reached, held, there, _, wrote⟩
        cases here.symm.trans there
        rw [wrote, Volume.write_opened_self] at opened
        cases opened
        rw [modified, stamped, Function.update_idem]
  · rfl

/-- A file can be written while no time passes. -/
theorem exists_written
    {state : DatedVolume} (openable : state.volume.Openable path)
    (bytes : Bytes) :
    ∃ after,
      Runs (dated network process) (writeFile path bytes) state (.ok ())
          after ∧
        after.now = state.now := by
  rcases Volume.exists_opens openable process with
    ⟨last, inode, opened, arrives, opens⟩
  let drafted (written : Bytes) : DatedVolume :=
    { volume := opened.filled process inode written
      modified := Function.update state.modified inode (.ok state.now)
      now := state.now }
  have created :
      dated network process (.create path) state (.ok ()) (drafted []) := by
    refine ⟨⟨last, inode, arrives, ?_⟩, Int.le_refl _, inode, 0,
      Volume.filled_opened_self [], rfl⟩
    change state.volume.Opens process last inode
      (opened.filled process inode [])
    rw [opens.filled]
    exact opens
  have appended (written : Bytes) (byte : UInt8)
      (_ : written ++ [byte] <+: bytes) :
      dated network process (.append path byte) (drafted written) (.ok ())
        (drafted (written ++ [byte])) := by
    refine ⟨Volume.appends_filled path written byte, Int.le_refl _, inode, _,
      Volume.filled_opened_self _, ?_⟩
    exact Function.update_idem .. |>.symm
  exact ⟨drafted bytes, runs_writeFile appended created, rfl⟩

end Drafting

/-! ## Putting a file in place -/

/-- A file is written through one name, which is renamed to the other. -/
def Settles (process : UInt32) (temp target : Path) (bytes : Bytes)
    (before after : DatedVolume) : Prop :=
  ∃ staged inode,
    Drafts process temp bytes before staged ∧
      staged.volume.entry temp = some inode ∧
        ¬ staged.volume.IsDirectory target ∧
          after.volume = staged.volume.rename temp target inode ∧
            after.modified = staged.modified ∧ staged.now ≤ after.now

section Settling

variable {temp target other : Path} {bytes : Bytes}
variable {before after : DatedVolume}
variable (settles : Settles process temp target bytes before after)

include settles

theorem Settles.places :
    Places process temp target bytes before.volume after.volume := by
  rcases settles with ⟨staged, inode, drafts, present, free, moved, _⟩
  exact ⟨staged.volume, inode, drafts.stages, present, free, moved⟩

theorem Settles.now : before.now ≤ after.now := by
  rcases settles with ⟨staged, inode, drafts, _, _, _, _, later⟩
  exact Int.le_trans drafts.now later

/-- No other name is dated which the first one does not meet. -/
theorem Settles.dated_of_not_meets
    (apart : ¬ before.volume.Meets temp other) (notTarget : other ≠ target) :
    after.dated other = before.dated other := by
  have notTemp : other ≠ temp := by
    rintro rfl
    exact (settles.places.openable.avoids apart).1 .refl
  rcases settles with ⟨staged, inode, drafts, _, _, moved, stamped, _⟩
  rw [← drafts.dated_of_not_meets apart, DatedVolume.dated,
    DatedVolume.dated, moved, stamped,
    Volume.rename_entry_of_ne notTemp notTarget]

/-- The file counts by the time which was due, or by a later one. -/
theorem Settles.due :
    before.due temp ≤ after.seen target ∧
      (after.now = before.now → after.seen target = before.due temp) := by
  rcases settles with
    ⟨staged, inode, drafts, present, _, moved, stamped, later⟩
  have same : after.seen target = staged.seen temp := by
    rw [DatedVolume.seen, DatedVolume.seen, DatedVolume.dated,
      DatedVolume.dated, moved, stamped, Volume.rename_entry_target, present]
  rw [same]
  refine ⟨drafts.due.1, ?_⟩
  intro still
  exact drafts.due.2 (Int.le_antisymm (still ▸ later) drafts.now)

end Settling

end Luminosity.Host.ModifiedTimes
