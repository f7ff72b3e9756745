import Luminosity.Host.Calls

/-!
# A flat disk

Files are addressed by their paths, as if no two paths named one file.  Every
call on the file system may fail; it may report a file as missing only when
the file is missing.  Directories are not represented, so the answers to
questions about them are unconstrained.

What the network and the directory listings answer is a parameter of the
semantics.  `faultless` answers every call without failing.
-/

namespace Luminosity.Host.FlatDisk

open Luminosity.Foundation.TextSegments
open Luminosity.Foundation.EffectPrograms
open Luminosity.Host.Paths
open Luminosity.Host.Calls

/-- The files of a disk, and the counter of each process. -/
structure Disk where
  file : Path → Option Bytes
  counter : UInt32 → UInt64

namespace Disk

def put (disk : Disk) (path : Path) (bytes : Bytes) : Disk :=
  { disk with file := Function.update disk.file path (some bytes) }

def remove (disk : Disk) (path : Path) : Disk :=
  { disk with file := Function.update disk.file path none }

def grow (disk : Disk) (path : Path) (byte : UInt8) : Disk :=
  { disk with
    file :=
      Function.update disk.file path
        ((disk.file path).map fun bytes => bytes ++ [byte]) }

def move (disk : Disk) (source target : Path) (bytes : Bytes) : Disk :=
  (disk.remove source).put target bytes

def advance (disk : Disk) (process : UInt32) : Disk :=
  { disk with
    counter :=
      Function.update disk.counter process (disk.counter process + 1) }

variable (disk : Disk) {path other : Path} (bytes : Bytes) (byte : UInt8)

@[simp]
theorem put_file_self : (disk.put path bytes).file path = some bytes := by
  simp [put]

theorem put_file_of_ne (different : other ≠ path) :
    (disk.put path bytes).file other = disk.file other := by
  simp [put, Function.update_of_ne different]

@[simp]
theorem remove_file_self : (disk.remove path).file path = none := by
  simp [remove]

theorem remove_file_of_ne (different : other ≠ path) :
    (disk.remove path).file other = disk.file other := by
  simp [remove, Function.update_of_ne different]

theorem grow_file_self {bytes : Bytes} (present : disk.file path = some bytes) :
    (disk.grow path byte).file path = some (bytes ++ [byte]) := by
  simp [grow, present]

theorem grow_file_of_ne (different : other ≠ path) :
    (disk.grow path byte).file other = disk.file other := by
  simp [grow, Function.update_of_ne different]

@[simp]
theorem move_file_target (source : Path) :
    (disk.move source path bytes).file path = some bytes := by
  simp [move]

theorem move_file_of_ne {source : Path}
    (notSource : other ≠ source) (notTarget : other ≠ path) :
    (disk.move source path bytes).file other = disk.file other := by
  rw [move, put_file_of_ne _ _ notTarget, remove_file_of_ne _ notSource]

@[simp]
theorem put_counter : (disk.put path bytes).counter = disk.counter := rfl

@[simp]
theorem remove_counter : (disk.remove path).counter = disk.counter := rfl

@[simp]
theorem grow_counter : (disk.grow path byte).counter = disk.counter := rfl

@[simp]
theorem move_counter (source : Path) :
    (disk.move source path bytes).counter = disk.counter := rfl

@[simp]
theorem advance_file (process : UInt32) :
    (disk.advance process).file = disk.file := rfl

end Disk

/-- What the disk does not decide, but something answers. -/
structure Surroundings where
  network : Text → Except FetchError Bytes → Prop
  listing : Disk → Path → List (Except IoError OsText) → Prop
  responds : ∀ url, ∃ answer, network url answer
  lists : ∀ disk path, ∃ entries, listing disk path entries

/--
A directory is listed by plain names, with every file in it unless an error
cuts the listing short.
-/
def Lists (disk : Disk) (path : Path)
    (entries : List (Except IoError OsText)) : Prop :=
  (∀ name, .ok (.unicode name) ∈ entries → Plain name) ∧
    ((∃ error, .error error ∈ entries) ∨
      ∀ name, Plain name → disk.file (path.child name) ≠ none →
        .ok (.unicode name) ∈ entries)

/-- A listing may be cut short after its first name. -/
theorem lists_first
    (disk : Disk) (path : Path) {name : Text} (plain : Plain name)
    (error : IoError) :
    Lists disk path [.ok (.unicode name), .error error] := by
  constructor
  · intro other member
    simp only [List.mem_cons, Except.ok.injEq, OsText.unicode.injEq,
      reduceCtorEq, List.not_mem_nil, or_false] at member
    exact member ▸ plain
  · exact Or.inl ⟨error, by simp⟩

/-- Directories are listed honestly, and the network answers somehow. -/
def Surroundings.listed
    (network : Text → Except FetchError Bytes → Prop)
    (responds : ∀ url, ∃ answer, network url answer) : Surroundings where
  network
  listing := Lists
  responds
  lists disk path :=
    ⟨[.error { kind := .other, detail := [] }], by simp [Lists]⟩

/-- A failure which reports a file as missing is honest. -/
def Honest (disk : Disk) (path : Path) (error : IoError) : Prop :=
  error.kind = .notFound → disk.file path = none

/-- The calls of one process over the disk. -/
def flat (surroundings : Surroundings) (process : UInt32) :
    Semantics host Disk
  | .canonicalize _, before, _, after => after = before
  | .symlinkMetadata _, before, _, after => after = before
  | .isDir _, before, _, after => after = before
  | .pathExists path, before, answer, after =>
      after = before ∧ (answer = true → before.file path ≠ none)
  | .read path, before, answer, after =>
      after = before ∧
        match answer with
        | .ok bytes => before.file path = some bytes
        | .error error => Honest before path error
  | .readDir path, before, answer, after =>
      after = before ∧
        match answer with
        | .ok entries => surroundings.listing before path entries
        | .error _ => True
  | .modified _, before, _, after => after = before
  | .createDir _, before, _, after => after = before
  | .create path, before, answer, after =>
      match answer with
      | .ok _ => after = before.put path []
      | .error _ => after = before
  | .append path byte, before, answer, after =>
      match answer with
      | .ok _ => after = before.grow path byte
      | .error _ => after = before
  | .setPermissions _ _, before, _, after => after = before
  | .rename source target, before, answer, after =>
      match answer with
      | .ok _ =>
          ∃ bytes, before.file source = some bytes ∧
            after = before.move source target bytes
      | .error _ => after = before
  | .removeFile path, before, answer, after =>
      match answer with
      | .ok _ => before.file path ≠ none ∧ after = before.remove path
      | .error error => after = before ∧ Honest before path error
  | .processId, before, answer, after => after = before ∧ answer = process
  | .fetchAdd, before, answer, after =>
      answer = before.counter process ∧ after = before.advance process
  | .get url, before, answer, after =>
      after = before ∧ surroundings.network url answer

/-- The calls which look at the disk leave it alone. -/
theorem flat_reads
    {surroundings : Surroundings} {process : UInt32} {call : Call}
    (reads : call.Reads) {before after : Disk} {answer : call.Answer}
    (step : flat surroundings process call before answer after) :
    after = before := by
  cases call with
  | canonicalize path => exact step
  | symlinkMetadata path => exact step
  | isDir path => exact step
  | pathExists path => exact step.1
  | read path => exact step.1
  | readDir path => exact step.1
  | modified path => exact step
  | processId => exact step.1
  | get url => exact step.1
  | createDir path => exact reads.elim
  | create path => exact reads.elim
  | append path byte => exact reads.elim
  | setPermissions path mode => exact reads.elim
  | rename source target => exact reads.elim
  | removeFile path => exact reads.elim
  | fetchAdd => exact reads.elim

theorem flat_scaffolds
    {surroundings : Surroundings} {process : UInt32} {call : Call}
    (scaffolds : call.Scaffolds) {before after : Disk}
    {answer : call.Answer}
    (step : flat surroundings process call before answer after) :
    after = before := by
  cases call with
  | isDir path => exact step
  | createDir path => exact step
  | _ => exact scaffolds.elim

/-- The file a call changes, apart from the target of a rename. -/
def Touches (path : Path) : Call → Prop
  | .create other => other = path
  | .append other _ => other = path
  | .removeFile other => other = path
  | .rename source _ => source = path
  | _ => False

/-- What a call does to the disk: a failed call leaves it alone. -/
theorem flat_cases
    {surroundings : Surroundings} {process : UInt32} {call : Call}
    {before after : Disk} {answer : call.Answer}
    (step : flat surroundings process call before answer after) :
    after = before ∨
      (∃ path, call = .create path ∧ after = before.put path []) ∨
      (∃ path byte, call = .append path byte ∧
        after = before.grow path byte) ∨
      (∃ path, call = .removeFile path ∧ after = before.remove path) ∨
      (∃ source target bytes, call = .rename source target ∧
        after = before.move source target bytes) ∨
      call = .fetchAdd ∧ after = before.advance process := by
  cases call with
  | create path =>
      cases answer with
      | ok _ => exact Or.inr (Or.inl ⟨path, rfl, step⟩)
      | error _ => exact Or.inl step
  | append path byte =>
      cases answer with
      | ok _ => exact Or.inr (Or.inr (Or.inl ⟨path, byte, rfl, step⟩))
      | error _ => exact Or.inl step
  | removeFile path =>
      cases answer with
      | ok _ =>
          apply Or.inr ∘ Or.inr ∘ Or.inr ∘ Or.inl
          exact ⟨path, rfl, step.2⟩
      | error _ => exact Or.inl step.1
  | rename source target =>
      cases answer with
      | ok _ =>
          rcases step with ⟨bytes, _, moved⟩
          apply Or.inr ∘ Or.inr ∘ Or.inr ∘ Or.inr ∘ Or.inl
          exact ⟨source, target, bytes, rfl, moved⟩
      | error _ => exact Or.inl step
  | fetchAdd =>
      apply Or.inr ∘ Or.inr ∘ Or.inr ∘ Or.inr ∘ Or.inr
      exact ⟨rfl, step.2⟩
  | createDir path => exact Or.inl step
  | setPermissions path mode => exact Or.inl step
  | _ => exact Or.inl (flat_reads (by trivial) step)

/-- A call changes only the file it touches and the target of a rename. -/
theorem flat_keeps
    {surroundings : Surroundings} {process : UInt32} {call : Call}
    {before after : Disk} {answer : call.Answer} {path : Path}
    (step : flat surroundings process call before answer after)
    (untouched : ¬ Touches path call)
    (notTarget : ∀ source, call ≠ .rename source path) :
    after.file path = before.file path := by
  rcases flat_cases step with rfl | ⟨other, rfl, rfl⟩ |
    ⟨other, byte, rfl, rfl⟩ | ⟨other, rfl, rfl⟩ |
    ⟨source, target, bytes, rfl, rfl⟩ | ⟨rfl, rfl⟩
  · rfl
  · exact before.put_file_of_ne [] (Ne.symm untouched)
  · exact before.grow_file_of_ne byte (Ne.symm untouched)
  · exact before.remove_file_of_ne (Ne.symm untouched)
  · apply before.move_file_of_ne bytes (Ne.symm untouched)
    rintro rfl
    exact notTarget source rfl
  · rw [Disk.advance_file]

/-- Only drawing a number moves a counter. -/
theorem flat_counter
    {surroundings : Surroundings} {process : UInt32} {call : Call}
    {before after : Disk} {answer : call.Answer}
    (step : flat surroundings process call before answer after)
    (notDrawn : call ≠ .fetchAdd) :
    after.counter = before.counter := by
  rcases flat_cases step with rfl | ⟨_, _, rfl⟩ | ⟨_, _, _, rfl⟩ |
    ⟨_, _, rfl⟩ | ⟨_, _, _, _, rfl⟩ | ⟨drawn, _⟩
  · rfl
  · rw [Disk.put_counter]
  · rw [Disk.grow_counter]
  · rw [Disk.remove_counter]
  · rw [Disk.move_counter]
  · exact absurd drawn notDrawn

/-! ## A run without failures -/

def missing : IoError :=
  { kind := .notFound, detail := "No such file or directory".toList }

/--
Answer every call without failing, except for what is not there: a missing
file, and every link, none of which the disk represents.
-/
noncomputable def faultless (surroundings : Surroundings)
    (process : UInt32) : Handler host Disk
  | .canonicalize _, disk => (.error missing, disk)
  | .symlinkMetadata _, disk => (.error missing, disk)
  | .isDir _, disk => (true, disk)
  | .pathExists path, disk => ((disk.file path).isSome, disk)
  | .read path, disk =>
      match disk.file path with
      | some bytes => (.ok bytes, disk)
      | none => (.error missing, disk)
  | .readDir path, disk => (.ok (surroundings.lists disk path).choose, disk)
  | .modified _, disk => (.ok 0, disk)
  | .createDir _, disk => (.ok (), disk)
  | .create path, disk => (.ok (), disk.put path [])
  | .append path byte, disk => (.ok (), disk.grow path byte)
  | .setPermissions _ _, disk => (.ok (), disk)
  | .rename source target, disk =>
      match disk.file source with
      | some bytes => (.ok (), disk.move source target bytes)
      | none => (.error missing, disk)
  | .removeFile path, disk =>
      match disk.file path with
      | some _ => (.ok (), disk.remove path)
      | none => (.error missing, disk)
  | .processId, disk => (process, disk)
  | .fetchAdd, disk => (disk.counter process, disk.advance process)
  | .get url, disk => ((surroundings.responds url).choose, disk)

theorem faultless_admissible
    (surroundings : Surroundings) (process : UInt32)
    (call : Call) (disk : Disk) :
    flat surroundings process call disk
      (faultless surroundings process call disk).1
      (faultless surroundings process call disk).2 := by
  cases call with
  | pathExists path =>
      refine ⟨rfl, ?_⟩
      intro found
      exact Option.isSome_iff_ne_none.mp found
  | read path =>
      cases present : disk.file path with
      | none => simp [faultless, flat, present, Honest]
      | some bytes => simp [faultless, flat, present]
  | readDir path => exact ⟨rfl, (surroundings.lists disk path).choose_spec⟩
  | rename source target =>
      cases present : disk.file source with
      | none => simp [faultless, flat, present]
      | some bytes => simp [faultless, flat, present]
  | removeFile path =>
      cases present : disk.file path with
      | none => simp [faultless, flat, present, Honest]
      | some bytes => simp [faultless, flat, present]
  | processId => exact ⟨rfl, rfl⟩
  | fetchAdd => exact ⟨rfl, rfl⟩
  | get url => exact ⟨rfl, (surroundings.responds url).choose_spec⟩
  | _ => rfl

/-- What reading a file answers when nothing fails. -/
def found : Option Bytes → Except IoError Bytes
  | some bytes => .ok bytes
  | none => .error missing

theorem faultless_readToString
    (surroundings : Surroundings) (process : UInt32)
    (path : Path) (disk : Disk) :
    (readToString path).execute (faultless surroundings process) disk =
      (textOf (found (disk.file path)), disk) := by
  show (textOf (faultless surroundings process (.read path) disk).1,
    (faultless surroundings process (.read path) disk).2) = _
  cases present : disk.file path with
  | none => simp [faultless, found, present]
  | some bytes => simp [faultless, found, present]

/-! ## Writing a file -/

section Writing

variable (surroundings : Surroundings) (process : UInt32)
variable {path : Path}

/--
Writing leaves every other file alone; it leaves the whole contents when it
succeeds.
-/
theorem ensures_writeFile_flat (disk : Disk) (bytes : Bytes) :
    Ensures (flat surroundings process) (writeFile path bytes)
      (fun result after =>
        (∀ other, other ≠ path → after.file other = disk.file other) ∧
          (result = .ok () → after.file path = some bytes))
      disk := by
  let others (after : Disk) : Prop :=
    ∀ other, other ≠ path → after.file other = disk.file other
  let progress (written : Bytes) (after : Disk) : Prop :=
    others after ∧ after.file path = some written
  have written :
      Ensures (flat surroundings process) (writeFile path bytes)
        (onOk (fun _ => progress bytes) fun _ => others) disk := by
    apply @ensures_writeFile _ _ _ others progress
    · intro before answer after kept step
      cases answer with
      | error error =>
          cases step
          exact kept
      | ok _ =>
          cases step
          refine ⟨?_, before.put_file_self []⟩
          intro other different
          rw [before.put_file_of_ne [] different, kept other different]
    · intro prefix_ byte before answer after holds step
      cases answer with
      | error error =>
          cases step
          exact holds.1
      | ok _ =>
          cases step
          refine ⟨?_, before.grow_file_self byte holds.2⟩
          intro other different
          rw [before.grow_file_of_ne byte different, holds.1 other different]
    · intro other _
      rfl
  apply written.mono
  intro result after holds
  cases result with
  | error error => exact ⟨holds, by simp⟩
  | ok _ => exact ⟨holds.1, fun _ => holds.2⟩

theorem faultless_writeAll (path : Path) (bytes : Bytes) (disk : Disk) :
    ((writeAll path bytes).execute (faultless surroundings process) disk).1 =
      .ok () := by
  induction bytes generalizing disk with
  | nil => rfl
  | cons byte rest induction => exact induction (disk.grow path byte)

/-- Writing succeeds when nothing fails. -/
theorem faultless_writeFile (path : Path) (bytes : Bytes) (disk : Disk) :
    ((writeFile path bytes).execute
      (faultless surroundings process) disk).1 = .ok () :=
  faultless_writeAll surroundings process path bytes (disk.put path [])

theorem faultless_createDirAll (path : Path) (disk : Disk) :
    (createDirAll path).execute (faultless surroundings process) disk =
      (.ok (), disk) := by
  rw [createDirAll]
  cases path.components.reverse with
  | nil => cases path.absolute <;> rfl
  | cons component ancestors => rfl

end Writing

end Luminosity.Host.FlatDisk
