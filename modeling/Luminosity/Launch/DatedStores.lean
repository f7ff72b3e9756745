import Luminosity.Foundation.Exceptions
import Luminosity.Host.ModifiedTimes
import Luminosity.Launch.Requests

/-!
# Storing an entry on a dated volume

Where the scratch files of an entry are found by none of the names which are
watched, storing it leaves these names with the dates which they had.  What has
been stored is found next to its signature, and is dated when it was written,
unless the name of its scratch file was a link: then it has the date of that.
-/

namespace Luminosity.Launch.DatedStores

open Luminosity.Foundation.TextSegments
open Luminosity.Foundation.EffectPrograms
open Luminosity.Foundation.Exceptions
open Luminosity.Foundation.Chains
open Luminosity.Host.Paths
open Luminosity.Host.Calls
open Luminosity.Host.Volumes
open Luminosity.Host.Placements
open Luminosity.Host.ModifiedTimes
open Luminosity.Launch.Core
open Luminosity.Launch.Cache
open Luminosity.Launch.Requests

section Definitions

variable (request : Request) (tracked : Path → Prop)

/-- The scratch files can be opened, and their places are no directories. -/
def Unobstructed (volume : Volume) : Prop :=
  ∀ item,
    volume.Openable (request.scratch item) ∧
      ¬ volume.IsDirectory (request.placed item)

/-- The names which are tracked, and those of the entry. -/
def Watched (path : Path) : Prop :=
  tracked path ∨ ∃ item, path = request.placed item ∨
    path = request.scratch item

/-- The scratch files do not lead through other names which are watched. -/
structure Clear (volume : Volume) : Prop where
  passes : ∀ item other, Watched request tracked other →
    other ≠ request.scratch item →
      ¬ Passes volume.target (request.scratch item) other

/-- They lead to no file which is found by such a name, either. -/
structure Aloof (volume : Volume) : Prop extends
    Clear request tracked volume where
  meets : ∀ item other, Watched request tracked other →
    other ≠ request.scratch item →
      ¬ volume.Meets (request.scratch item) other

/-- The binary is put in place, and then the signature. -/
def Stores (before after : DatedVolume) : Prop :=
  ∃ current middle,
    Idles before current ∧
      Settles request.unique (request.scratch .binary)
          (request.placed .binary) (request.contents .binary) current
          middle ∧
        Settles request.unique (request.scratch .signature)
          (request.placed .signature) (request.contents .signature) middle
          after

end Definitions

variable {network : Text → Except FetchError Bytes → Prop}
variable {process : UInt32}

/-! ## What storing does -/

section Steps

/-- Marking a file lets time pass. -/
theorem ensures_marked
    (path : Path) (executable : Bool) (state : DatedVolume) :
    Ensures (dated network process)
      (if executable then setExecutable path else pure () :
        ResolutionProgram Unit).run
      (fun _ after => Idles state after) state := by
  cases executable with
  | false => exact .refl state
  | true =>
      rw [if_pos rfl, setExecutable, ensures_invoke_bind]
      rintro answer after ⟨same, later, unstamped⟩
      cases answer <;> exact ⟨same, unstamped, later⟩

theorem ensures_writeThenRename_settles
    (temp target : Path) (bytes : Bytes) (executable : Bool)
    (state : DatedVolume) :
    Ensures (dated network process)
      (writeThenRename temp target bytes executable).run
      (WhenOk fun _ after => Settles process temp target bytes state after)
      state := by
  rw [writeThenRename, ensures_run_bind, ensures_run_lift]
  apply (ensures_writeFile_drafts temp bytes state).mono
  intro written staged drafts
  cases written with
  | error error => trivial
  | ok _ =>
      rw [onOk_ok, ensures_run_bind]
      apply (ensures_marked temp executable staged).mono
      intro marked now idles
      cases marked with
      | error error => trivial
      | ok _ =>
          rw [onOk_ok, ensures_invoke_bind]
          rintro answer after ⟨renames, later, unstamped⟩
          cases answer with
          | error error =>
              rw [ensures_invoke_bind]
              intro _ _ _
              trivial
          | ok _ =>
              rcases renames with ⟨inode, present, _, free, moved⟩
              rw [idles.volume] at present free moved
              exact ⟨staged, inode, drafts, present, free, moved,
                unstamped.trans idles.modified,
                Int.le_trans idles.now later⟩

/-- No time is stamped while directories are made. -/
theorem ensures_createDirAll_idles (path : Path) (state : DatedVolume) :
    Ensures (dated network process) (createDirAll path)
      (fun _ after => Idles state after) state := by
  apply (asks_createDirAll path).ensures
  · intro call before answer after scaffolds step earlier
    exact earlier.trans (idles_of_scaffolds scaffolds step)
  · exact .refl state

theorem ensures_storing (request : Request) (state : DatedVolume) :
    Ensures (dated network request.unique) request.storing.run
      (WhenOk fun cached after =>
        cached = request.stored ∧ Stores request state after)
      state := by
  rw [Request.storing, store, ensures_run_bind, ensures_run_lift]
  apply (ensures_createDirAll_idles request.root state).mono
  intro created now idles
  cases created with
  | error error => trivial
  | ok _ =>
      rw [onOk_ok, ensures_invoke_bind]
      rintro unique current ⟨⟨same, rfl⟩, later, unstamped⟩
      have idle := idles.trans ⟨same, unstamped, later⟩
      apply Ensures.succeeds
        (ensures_writeThenRename_settles _ _ _ _ current)
      intro _ middle binary
      apply Ensures.succeeds
        (ensures_writeThenRename_settles _ _ _ _ middle)
      intro _ after signature
      exact ⟨rfl, current, middle, idle, binary, signature⟩

end Steps

/-! ## The two files of an entry -/

section Pairs

variable {request : Request} {tracked : Path → Prop} {other : Path}
variable {bytes : Bytes} {before middle after : Volume} {item : Item}

theorem watched_placed : Watched request tracked (request.placed item) :=
  .inr ⟨item, .inl rfl⟩

theorem watched_scratch : Watched request tracked (request.scratch item) :=
  .inr ⟨item, .inr rfl⟩

section Binaries

variable (clear : Clear request tracked before)
variable (aloof : Aloof request tracked before)
variable (binary : Places request.unique (request.scratch .binary)
  (request.placed .binary) bytes before middle)

theorem Clear.avoids {own : Item} (clear : Clear request tracked before) :
    ¬ Passes before.target (request.scratch own) (request.placed item) :=
  clear.passes own _ watched_placed (placed_ne_scratch item own)

theorem Aloof.scratch_apart (aloof : Aloof request tracked before) :
    ¬ before.Meets (request.scratch .binary) (request.scratch .signature) := by
  apply aloof.meets .binary _ watched_scratch
  intro same
  cases scratch_inj.mp same

section Clear

include clear binary

/-- Placing the binary leaves the place of the signature. -/
theorem signature_free_iff :
    middle.IsDirectory (request.placed .signature) ↔
      before.IsDirectory (request.placed .signature) := by
  apply binary.isDirectory_iff
  apply binary.entry_of_ne clear.avoids
  intro same
  cases placed_inj.mp same

/-- The signature can be written then only if it could be before. -/
theorem openable_of_places
    (openable : middle.Openable (request.scratch .signature)) :
    before.Openable (request.scratch .signature) := by
  apply binary.openable_of _ clear.avoids openable
  apply clear.passes .signature _ watched_scratch
  intro same
  cases scratch_inj.mp same

end Clear

include aloof binary

/-- Placing the binary leaves the scratch file of the signature. -/
theorem scratch_agrees :
    Volume.Agrees before middle (request.scratch .signature) :=
  binary.agrees aloof.scratch_apart aloof.avoids

section Watched

variable (watched : Watched request tracked other)
variable (foreign : ∀ item, other ≠ request.scratch item)

include watched foreign

/-- The signature's scratch file is as aloof as it was. -/
theorem signature_apart :
    ¬ middle.Meets (request.scratch .signature) other :=
  binary.not_meets aloof.avoids aloof.scratch_apart aloof.avoids
    (aloof.meets .binary other watched (foreign .binary))
    (aloof.meets .signature other watched (foreign .signature))

theorem signature_avoids :
    ¬ Passes middle.target (request.scratch .signature) other := by
  rw [(scratch_agrees aloof binary).passes_iff]
  exact aloof.passes .signature other watched (foreign .signature)

end Watched

theorem binary_apart :
    ¬ middle.Meets (request.scratch .signature) (request.placed .binary) :=
  signature_apart aloof binary watched_placed (placed_ne_scratch .binary)

theorem signature_onward :
    ¬ Passes middle.target (request.scratch .signature)
      (request.placed .signature) :=
  signature_avoids aloof binary watched_placed (placed_ne_scratch .signature)

end Binaries

section Signatures

variable {others : Bytes} (aloof : Aloof request tracked before)
variable (binary : Places request.unique (request.scratch .binary)
  (request.placed .binary) bytes before middle)
variable (signature : Places request.unique (request.scratch .signature)
  (request.placed .signature) others middle after)

include aloof binary signature

/-- Placing the signature leaves the binary where it is found. -/
theorem binary_agrees :
    Volume.Agrees middle after (request.placed .binary) := by
  apply signature.agrees (binary_apart aloof binary)
  intro passes
  rcases binary.passes_target aloof.avoids passes with same | passes
  · cases placed_inj.mp same
  · exact aloof.avoids passes

theorem leads_of_places (item : Item) :
    after.Leads (request.placed item) := by
  cases item with
  | binary =>
      rw [(binary_agrees aloof binary signature).leads_iff]
      rcases binary.finds aloof.avoids with ⟨inode, finds, _⟩
      exact ⟨inode, finds⟩
  | signature =>
      rcases signature.finds (signature_onward aloof binary) with
        ⟨inode, finds, _⟩
      exact ⟨inode, finds⟩

theorem isFile_of_places :
    ¬ after.IsDirectory (request.placed .binary) := by
  rw [signature.isDirectory_iff
    (binary_agrees aloof binary signature _ .refl).1]
  exact binary.isFile

section Watched

variable (watched : Watched request tracked other)
variable (foreign : ∀ item, other ≠ request.scratch item)

include watched foreign

/-- A watched name is left, unless it is one of the entry. -/
theorem entry_kept (different : ∀ item, other ≠ request.placed item) :
    after.entry other = before.entry other := by
  rw [signature.entry_of_ne (signature_avoids aloof binary watched foreign)
      (different .signature),
    binary.entry_of_ne
      (aloof.passes .binary other watched (foreign .binary))
      (different .binary)]

/-- The links of an entry come by no other name which is watched. -/
theorem placed_avoids (different : other ≠ request.placed item) :
    ¬ Passes after.target (request.placed item) other := by
  cases item with
  | binary =>
      rw [(binary_agrees aloof binary signature).passes_iff]
      intro passes
      rcases binary.passes_target aloof.avoids passes with same | passes
      · exact different same
      · exact aloof.passes .binary other watched (foreign .binary) passes
  | signature =>
      intro passes
      rcases signature.passes_target (signature_onward aloof binary)
          passes with same | passes
      · exact different same
      · exact signature_avoids aloof binary watched foreign passes

end Watched

end Signatures

end Pairs

/-! ## What is stored -/

section Stored

variable {request : Request} {tracked : Path → Prop} {other : Path}
variable {before after : DatedVolume} {item : Item}
variable (stores : Stores request before after)
variable (aloof : Aloof request tracked before.volume)

include stores

theorem Stores.places :
    ∃ middle,
      Places request.unique (request.scratch .binary)
          (request.placed .binary) (request.contents .binary) before.volume
          middle ∧
        Places request.unique (request.scratch .signature)
          (request.placed .signature) (request.contents .signature) middle
          after.volume := by
  rcases stores with ⟨current, middle, idles, first, second⟩
  exact ⟨middle.volume, idles.volume ▸ first.places, second.places⟩

/-- An entry is stored where nothing obstructs it. -/
theorem Stores.unobstructed (clear : Clear request tracked before.volume) :
    Unobstructed request before.volume := by
  rcases stores.places with ⟨middle, binary, signature⟩
  intro item
  cases item with
  | binary => exact ⟨binary.openable, binary.free⟩
  | signature =>
      refine ⟨openable_of_places clear binary signature.openable, ?_⟩
      rw [← signature_free_iff clear binary]
      exact signature.free

include aloof

theorem Stores.leads (item : Item) :
    after.volume.Leads (request.placed item) := by
  rcases stores.places with ⟨middle, binary, signature⟩
  exact leads_of_places aloof binary signature item

theorem Stores.present :
    after.volume.entry (request.placed .binary) ≠ none := by
  rcases stores.places with ⟨middle, binary, signature⟩
  rw [(binary_agrees aloof binary signature _ .refl).1]
  exact binary.present

theorem Stores.isFile :
    ¬ after.volume.IsDirectory (request.placed .binary) := by
  rcases stores.places with ⟨middle, binary, signature⟩
  exact isFile_of_places aloof binary signature

/-- The binary counts by the time which was due, or by a later one. -/
theorem Stores.due :
    before.due (request.scratch .binary) ≤
        after.seen (request.placed .binary) ∧
      (after.now = before.now →
        after.seen (request.placed .binary) =
          before.due (request.scratch .binary)) := by
  rcases stores with ⟨current, middle, idles, first, second⟩
  have binary := first.places
  rw [idles.volume] at binary
  have dated :
      after.dated (request.placed .binary) =
        middle.dated (request.placed .binary) := by
    apply second.dated_of_not_meets (binary_apart aloof binary)
    intro same
    cases placed_inj.mp same
  have seen :
      after.seen (request.placed .binary) =
        middle.seen (request.placed .binary) := by
    rw [DatedVolume.seen, DatedVolume.seen, dated]
  have due := idles.due (request.scratch .binary)
  have early := idles.now
  have late := first.now
  have last := second.now
  rw [seen]
  refine ⟨Int.le_trans due.1 first.due.1, ?_⟩
  intro still
  rw [first.due.2 (by omega), due.2 (by omega)]

section Watched

variable (watched : Watched request tracked other)
variable (foreign : ∀ item, other ≠ request.scratch item)

include watched foreign

theorem Stores.avoids (different : other ≠ request.placed item) :
    ¬ Passes after.volume.target (request.placed item) other := by
  rcases stores.places with ⟨middle, binary, signature⟩
  exact placed_avoids aloof binary signature watched foreign different

variable (different : ∀ item, other ≠ request.placed item)

include different

theorem Stores.entry :
    after.volume.entry other = before.volume.entry other := by
  rcases stores.places with ⟨middle, binary, signature⟩
  exact entry_kept aloof binary signature watched foreign different

/-- The watched names keep their dates. -/
theorem Stores.dated : after.dated other = before.dated other := by
  rcases stores with ⟨current, middle, idles, first, second⟩
  have binary := first.places
  rw [idles.volume] at binary
  rw [second.dated_of_not_meets
      (signature_apart aloof binary watched foreign) (different .signature),
    first.dated_of_not_meets _ (different .binary), idles.dated]
  rw [idles.volume]
  exact aloof.meets .binary other watched (foreign .binary)

end Watched

end Stored

/-! ## After names are lost -/

section Thinned

variable {request : Request} {tracked : Path → Prop}
variable {before after : DatedVolume} {item : Item}

/-- The tracked names are none of the scratch files. -/
def Foreign (request : Request) (tracked : Path → Prop) : Prop :=
  ∀ path item, tracked path → path ≠ request.scratch item

theorem Clear.untracked
    {volume : Volume} (clear : Clear request tracked volume)
    (foreign : Foreign request tracked) {point : Path}
    (passes : Passes volume.target (request.scratch item) point) :
    ¬ tracked point :=
  fun isTracked =>
    clear.passes item point (.inl isTracked) (foreign point item isTracked)
      passes

variable (thins : Thins tracked before after)
variable (foreign : Foreign request tracked)
variable (clear : Clear request tracked before.volume)

include thins foreign clear

theorem Clear.of_thins : Clear request tracked after.volume where
  passes item other watched different := by
    have agrees :=
      thins.loses.agrees fun _ => @clear.untracked _ _ item _ foreign _
    rw [agrees.passes_iff]
    exact clear.passes item other watched different

theorem unobstructed_of_thins
    (unobstructed : Unobstructed request after.volume) :
    Unobstructed request before.volume := by
  intro item
  rcases unobstructed item with ⟨openable, free⟩
  refine ⟨thins.loses.openable
    (fun _ => clear.untracked foreign) openable, ?_⟩
  intro directory
  apply free
  rw [Volume.IsDirectory, thins.directory _ directory, thins.loses.node]
  exact directory

omit clear in
theorem Aloof.of_thins (aloof : Aloof request tracked before.volume) :
    Aloof request tracked after.volume where
  toClear := aloof.toClear.of_thins thins foreign
  meets item other watched different meets :=
    aloof.meets item other watched different
      (thins.loses.meets (fun _ => aloof.toClear.untracked foreign) meets)

end Thinned

/-! ## Storing while no time passes -/

section Runs

variable {request : Request} {state : DatedVolume}

theorem exists_placed
    {temp target : Path} (openable : state.volume.Openable temp)
    (free : ¬ state.volume.IsDirectory target)
    (bytes : Bytes) (executable : Bool) :
    ∃ after,
      Runs (dated network process)
          (writeThenRename temp target bytes executable).run state (.ok ())
          after ∧
        after.now = state.now := by
  rcases @exists_written network process temp state openable bytes with
    ⟨staged, written, still⟩
  have drafts :=
    (ensures_writeFile_drafts temp bytes state).of_run written
  rcases drafts.stages.present with ⟨⟨inode, present⟩, isFile⟩
  have marked :
      Runs (dated network process)
        (if executable then setExecutable temp else pure () :
          ResolutionProgram Unit).run staged (.ok ()) staged := by
    cases executable with
    | false => exact .done _ _
    | true =>
        have allowed :
            Runs (dated network process)
              (invoke (.setPermissions temp 0o755) :
                ResolutionProgram (Except IoError Unit)).run
              staged (.ok (.ok ())) staged :=
          Runs.run_lift (Runs.perform ⟨rfl, Int.le_refl _, rfl⟩)
        exact allowed.run_bind (.done _ _)
  have renamed :
      Runs (dated network process)
        (invoke (.rename temp target) :
          ResolutionProgram (Except IoError Unit)).run
        staged (.ok (.ok ()))
        { volume := staged.volume.rename temp target inode
          modified := staged.modified
          now := staged.now } :=
    Runs.run_lift (Runs.perform
      ⟨⟨inode, present, isFile, mt drafts.stages.of_isDirectory free, rfl⟩,
        Int.le_refl _, rfl⟩)
  exact ⟨_, written.run_lift.run_bind (marked.run_bind
    (renamed.run_bind (.done _ _))), still⟩

/-- An entry can be stored while no time passes. -/
theorem exists_stored
    {tracked : Path → Prop} (aloof : Aloof request tracked state.volume)
    (unobstructed : Unobstructed request state.volume) :
    ∃ after,
      Runs (dated network request.unique) request.storing.run state
          (.ok request.stored) after ∧
        after.now = state.now := by
  rcases unobstructed .binary with ⟨openable, free⟩
  rcases unobstructed .signature with ⟨signatureOpenable, signatureFree⟩
  have own :
      Runs (dated network request.unique)
        (invoke .processId : ResolutionProgram UInt32).run state
        (.ok request.unique) state :=
    Runs.run_lift (Runs.perform ⟨⟨rfl, rfl⟩, Int.le_refl _, rfl⟩)
  have made :=
    @runs_createDirAll _ (dated network request.unique) state
      (fun _ => ⟨rfl, Int.le_refl _, rfl⟩) request.root
  rcases @exists_placed network request.unique state _ _ openable free
      (request.contents .binary) true with ⟨middle, placing, still⟩
  have binary :=
    ((ensures_writeThenRename_settles _ _ _ _ state).of_run placing).places
  rw [← binary.openable_iff (scratch_agrees aloof binary)]
    at signatureOpenable
  rw [← signature_free_iff aloof.toClear binary] at signatureFree
  rcases @exists_placed network request.unique middle _ _ signatureOpenable
      signatureFree (request.contents .signature) false with
    ⟨after, signing, same⟩
  exact ⟨after, made.run_lift.run_bind (own.run_bind
    (placing.run_bind (signing.run_bind (.done _ _)))), same.trans still⟩

end Runs

end Luminosity.Launch.DatedStores
