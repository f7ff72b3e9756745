import Luminosity.Host.Calls
import Luminosity.Host.FileTree

/-!
# The host over a tree of files

The calls of a process act on a tree with symbolic links.  A call which names
a file follows every link; a call which names a directory entry follows all
but the last.  The world remembers each location a call has changed.

Every call may fail, and it may report a name as missing only when one is.
When the host is dependable, a call fails only if it cannot succeed, and then
reports a missing name whenever there is one.
-/

namespace Luminosity.Host.TreeHost

open Luminosity.Foundation.TextSegments
open Luminosity.Foundation.EffectPrograms
open Luminosity.Host.Paths
open Luminosity.Host.Calls
open Luminosity.Host.FileTree

/-- The tree, the counter of each process, and what calls have changed. -/
structure World where
  tree : Tree
  counter : UInt32 → UInt64
  touched : List Location

/-- The process whose calls are answered, and where it works. -/
structure Setting where
  workdir : Location
  process : UInt32
  dependable : Bool

namespace World

/-- Change one entry of a directory. -/
def change (world : World) (parent : Location) (name : Text)
    (new : Option Entry)
    (inside : world.tree.entry parent = some .directory)
    (childless : world.tree.entry (parent ++ [name]) ≠ some .directory) :
    World :=
  { world with
    tree := world.tree.graft parent name new inside childless
    touched := (parent ++ [name]) :: world.touched }

def advance (world : World) (process : UInt32) : World :=
  { world with
    counter :=
      Function.update world.counter process (world.counter process + 1) }

end World

def fileTypeOf : Entry → FileType
  | .directory => .directory
  | .file _ => .file
  | .link _ => .symlink

section Lookups

variable (workdir : Location) (tree : Tree) (path : Path)

/-- Where following the whole path ends. -/
def Resolves (found : Found) : Prop :=
  Walks tree (origin path workdir) path.components found

/-- A name on the way is missing. -/
def Missing : Prop :=
  ∃ parent name rest, Resolves workdir tree path (.missing parent name rest)

/-- The directory entry the path names, which the last step leaves alone. -/
def Names (parent : Location) (name : Text) : Prop :=
  ∃ front, path.components = front ++ [.normal name] ∧
    Walks tree (origin path workdir) front (.present parent) ∧
      tree.entry parent = some .directory

/-- A name on the way to the directory entry is missing. -/
def Astray : Prop :=
  ∃ front last parent name rest, path.components = front ++ [last] ∧
    Walks tree (origin path workdir) front (.missing parent name rest)

/-- There is no directory entry of the path. -/
def Unnamed : Prop :=
  Astray workdir tree path ∨
    ∃ parent name, Names workdir tree path parent name ∧
      tree.entry (parent ++ [name]) = none

/-- The file the path leads to, to be read or written. -/
def OpensAt (location : Location) : Prop :=
  Opens tree (origin path workdir) path.components location

/-- The path leads to a directory. -/
def LeadsToDirectory : Prop :=
  ∃ location, Resolves workdir tree path (.present location) ∧
    tree.entry location = some .directory

end Lookups

/-- The answer to a question, and to one which may fail. -/
def answers (setting : Setting) (fact : Prop) (answer : Bool) : Prop :=
  (answer = true → fact) ∧
    (setting.dependable = true → fact → answer = true)

/-- A call which succeeds in some ways, or fails and changes nothing. -/
def attempt {α : Type} (setting : Setting) (before : World)
    (missing : Prop) (succeeds : α → World → Prop) :
    Except IoError α → World → Prop
  | .ok value, after => succeeds value after
  | .error error, after =>
      after = before ∧ (error.kind = .notFound → missing) ∧
        (setting.dependable = true →
          (∀ value world, ¬ succeeds value world) ∧
            (missing → error.kind = .notFound))

/-- The entry which replaces one entry of a directory. -/
def Changes (before : World) (parent : Location) (name : Text)
    (new : Option Entry) (after : World) : Prop :=
  ∃ inside childless, after = before.change parent name new inside childless

/-- The calls of a process over the tree. -/
def calls (setting : Setting) : Semantics host World
  | .canonicalize path, before, answer, after =>
      attempt setting before (Missing setting.workdir before.tree path)
        (fun resolved world => world = before ∧
          ∃ location,
            Resolves setting.workdir before.tree path (.present location) ∧
              resolved = located location)
        answer after
  | .symlinkMetadata path, before, answer, after =>
      attempt setting before (Unnamed setting.workdir before.tree path)
        (fun fileType world => world = before ∧
          ∃ parent name entry,
            Names setting.workdir before.tree path parent name ∧
              before.tree.entry (parent ++ [name]) = some entry ∧
                fileType = fileTypeOf entry)
        answer after
  | .isDir path, before, answer, after =>
      after = before ∧
        answers setting (LeadsToDirectory setting.workdir before.tree path)
          answer
  | .pathExists path, before, answer, after =>
      after = before ∧
        answers setting
          (∃ location,
            Resolves setting.workdir before.tree path (.present location))
          answer
  | .read path, before, answer, after =>
      attempt setting before (Missing setting.workdir before.tree path)
        (fun bytes world => world = before ∧
          ∃ location,
            Resolves setting.workdir before.tree path (.present location) ∧
              before.tree.entry location = some (.file bytes))
        answer after
  | .readDir _, before, _, after => after = before
  | .modified _, before, _, after => after = before
  | .createDir path, before, answer, after =>
      attempt setting before (Astray setting.workdir before.tree path)
        (fun _ world => ∃ parent name,
          Names setting.workdir before.tree path parent name ∧
            before.tree.entry (parent ++ [name]) = none ∧
              Changes before parent name (some .directory) world)
        answer after
  | .create path, before, answer, after =>
      attempt setting before
        (∃ parent name first rest,
          Resolves setting.workdir before.tree path
            (.missing parent name (first :: rest)))
        (fun _ world => ∃ parent name,
          OpensAt setting.workdir before.tree path (parent ++ [name]) ∧
            Changes before parent name (some (.file [])) world)
        answer after
  | .append path byte, before, answer, after =>
      attempt setting before False
        (fun _ world => ∃ parent name bytes,
          Resolves setting.workdir before.tree path
              (.present (parent ++ [name])) ∧
            before.tree.entry (parent ++ [name]) = some (.file bytes) ∧
              Changes before parent name (some (.file (bytes ++ [byte])))
                world)
        answer after
  | .setPermissions _ _, before, _, after => after = before
  | .rename source target, before, answer, after =>
      attempt setting before
        (Unnamed setting.workdir before.tree source ∨
          Astray setting.workdir before.tree target)
        (fun _ world => ∃ parent name entry middle above last,
          Names setting.workdir before.tree source parent name ∧
            before.tree.entry (parent ++ [name]) = some entry ∧
              Names setting.workdir before.tree target above last ∧
                Changes before parent name none middle ∧
                  Changes middle above last (some entry) world)
        answer after
  | .removeFile path, before, answer, after =>
      attempt setting before (Unnamed setting.workdir before.tree path)
        (fun _ world => ∃ parent name,
          Names setting.workdir before.tree path parent name ∧
            before.tree.entry (parent ++ [name]) ≠ none ∧
              Changes before parent name none world)
        answer after
  | .processId, before, answer, after =>
      after = before ∧ answer = setting.process
  | .fetchAdd, before, answer, after =>
      answer = before.counter setting.process ∧
        after = before.advance setting.process
  | .get _, before, _, after => after = before

/-! ## Answers which may fail -/

section Attempts

variable {α : Type} {setting : Setting} {before after : World}
variable {missing : Prop} {succeeds : α → World → Prop}
variable {answer : Except IoError α}

/-- The same process on a host which is not dependable. -/
def Setting.unreliable (setting : Setting) : Setting :=
  { setting with dependable := false }

theorem attempt_unreliable
    (attempted : attempt setting before missing succeeds answer after) :
    attempt setting.unreliable before missing succeeds answer after := by
  cases answer with
  | ok value => exact attempted
  | error error => exact ⟨attempted.1, attempted.2.1, by rintro ⟨⟩⟩

theorem exists_attempt
    (setting : Setting) (before : World) (missing : Prop)
    (succeeds : α → World → Prop) :
    ∃ answer after, attempt setting before missing succeeds answer after := by
  by_cases possible : ∃ value world, succeeds value world
  · rcases possible with ⟨value, world, succeeded⟩
    exact ⟨.ok value, world, succeeded⟩
  · have impossible : ∀ value world, ¬ succeeds value world := by
      intro value world succeeded
      exact possible ⟨value, world, succeeded⟩
    by_cases absent : missing
    · refine ⟨.error { kind := .notFound, detail := [] }, before, rfl,
        fun _ => absent, fun _ => ⟨impossible, fun _ => rfl⟩⟩
    · refine ⟨.error { kind := .other, detail := [] }, before, rfl,
        by rintro ⟨⟩, fun _ => ⟨impossible, fun found => absurd found absent⟩⟩

/-- A dependable host lets a call succeed which can. -/
theorem attempt_succeeds
    (attempted : attempt setting before missing succeeds answer after)
    (dependable : setting.dependable = true)
    (possible : ∃ value world, succeeds value world) :
    ∃ result, answer = .ok result ∧ succeeds result after := by
  cases answer with
  | ok result => exact ⟨result, rfl, attempted⟩
  | error error =>
      rcases possible with ⟨value, world, succeeded⟩
      exact absurd succeeded ((attempted.2.2 dependable).1 value world)

theorem exists_answers (setting : Setting) (fact : Prop) :
    ∃ answer, answers setting fact answer := by
  by_cases holds : fact
  · exact ⟨true, fun _ => holds, fun _ _ => rfl⟩
  · exact ⟨false, by rintro ⟨⟩, fun _ fact => absurd fact holds⟩

end Attempts

/-! ## The calls as a whole -/

variable {setting : Setting} {before after : World}

/-- Every call has an answer. -/
theorem calls_responsive (setting : Setting) :
    Responsive (calls setting) := by
  intro call world
  cases call with
  | isDir path =>
      rcases exists_answers setting
        (LeadsToDirectory setting.workdir world.tree path) with
        ⟨answer, answered⟩
      exact ⟨answer, world, rfl, answered⟩
  | pathExists path =>
      rcases exists_answers setting
        (∃ location,
          Resolves setting.workdir world.tree path (.present location)) with
        ⟨answer, answered⟩
      exact ⟨answer, world, rfl, answered⟩
  | readDir path => exact ⟨.ok [], world, rfl⟩
  | modified path => exact ⟨.ok 0, world, rfl⟩
  | setPermissions path mode => exact ⟨.ok (), world, rfl⟩
  | processId => exact ⟨setting.process, world, rfl, rfl⟩
  | fetchAdd =>
      exact ⟨world.counter setting.process, world.advance setting.process,
        rfl, rfl⟩
  | get url => exact ⟨.error .notFound, world, rfl⟩
  | _ => exact exists_attempt setting world _ _

/-- What a dependable host answers, any host may answer. -/
theorem calls_unreliable
    {call : Call} {answer : call.Answer}
    (step : calls setting call before answer after) :
    calls setting.unreliable call before answer after := by
  cases call with
  | isDir path => exact ⟨step.1, step.2.1, by rintro ⟨⟩⟩
  | pathExists path => exact ⟨step.1, step.2.1, by rintro ⟨⟩⟩
  | readDir path => exact step
  | modified path => exact step
  | setPermissions path mode => exact step
  | processId => exact step
  | fetchAdd => exact step
  | get url => exact step
  | _ => exact attempt_unreliable step

/-- The calls which look at the tree leave the world alone. -/
theorem calls_reads
    {call : Call} (reads : call.Reads) {answer : call.Answer}
    (step : calls setting call before answer after) :
    after = before := by
  cases call with
  | canonicalize path =>
      cases answer with
      | ok resolved => exact step.1
      | error error => exact step.1
  | symlinkMetadata path =>
      cases answer with
      | ok fileType => exact step.1
      | error error => exact step.1
  | read path =>
      cases answer with
      | ok bytes => exact step.1
      | error error => exact step.1
  | isDir path => exact step.1
  | pathExists path => exact step.1
  | readDir path => exact step
  | modified path => exact step
  | processId => exact step.1
  | get url => exact step
  | _ => exact reads.elim

/-! ## What a call touches -/

theorem changes_counter
    {parent : Location} {name : Text} {new : Option Entry}
    (changes : Changes before parent name new after) :
    after.counter = before.counter := by
  rcases changes with ⟨_, _, rfl⟩
  rfl

theorem changes_touched
    {parent : Location} {name : Text} {new : Option Entry}
    (changes : Changes before parent name new after) :
    parent ++ [name] ∈ after.touched := by
  rcases changes with ⟨_, _, rfl⟩
  exact List.mem_cons_self

/-- What has been touched stays touched. -/
theorem calls_touched
    {location : Location} {call : Call} {answer : call.Answer}
    (step : calls setting call before answer after)
    (touched : location ∈ before.touched) :
    location ∈ after.touched := by
  have changed {middle last : World} {parent : Location} {name : Text}
      {new : Option Entry} (changes : Changes middle parent name new last)
      (known : location ∈ middle.touched) :
      location ∈ last.touched := by
    rcases changes with ⟨_, _, rfl⟩
    exact List.mem_cons_of_mem _ known
  cases call with
  | createDir path =>
      cases answer with
      | error error => exact step.1 ▸ touched
      | ok _ =>
          rcases step with ⟨_, _, _, _, changes⟩
          exact changed changes touched
  | create path =>
      cases answer with
      | error error => exact step.1 ▸ touched
      | ok _ =>
          rcases step with ⟨_, _, _, changes⟩
          exact changed changes touched
  | append path byte =>
      cases answer with
      | error error => exact step.1 ▸ touched
      | ok _ =>
          rcases step with ⟨_, _, _, _, _, changes⟩
          exact changed changes touched
  | rename source target =>
      cases answer with
      | error error => exact step.1 ▸ touched
      | ok _ =>
          rcases step with ⟨_, _, _, _, _, _, _, _, _, removed, replaced⟩
          exact changed replaced (changed removed touched)
  | removeFile path =>
      cases answer with
      | error error => exact step.1 ▸ touched
      | ok _ =>
          rcases step with ⟨_, _, _, _, changes⟩
          exact changed changes touched
  | setPermissions path mode => exact step ▸ touched
  | fetchAdd =>
      rcases step with ⟨_, rfl⟩
      exact touched
  | _ =>
      rw [calls_reads (by trivial) step]
      exact touched

/-! ## One name below a path -/

section Children

variable {workdir : Location} {tree : Tree} {path : Path} {name : Text}
variable {parent : Location} {last : Text} {found : Found}

theorem resolves_child
    (resolves : Resolves workdir tree path (.present parent))
    (onward : Walks tree parent [.normal name] found) :
    Resolves workdir tree (path.child name) found :=
  Walks.append resolves onward

/-- A path one name longer goes through the directory, or misses a name. -/
theorem resolves_child_cases
    (resolves : Resolves workdir tree (path.child name) found) :
    (∃ parent, Resolves workdir tree path (.present parent) ∧
      Walks tree parent [.normal name] found) ∨
        ∃ parent missed rest,
          Resolves workdir tree path (.missing parent missed rest) ∧
            found = .missing parent missed (rest ++ [.normal name]) :=
  Walks.split resolves

theorem missing_child (absent : Missing workdir tree path) (name : Text) :
    Missing workdir tree (path.child name) := by
  rcases absent with ⟨parent, missed, rest, walks⟩
  exact ⟨parent, missed, _, walks.missing_append [.normal name]⟩

theorem names_child :
    Names workdir tree (path.child name) parent last ↔
      last = name ∧ Resolves workdir tree path (.present parent) ∧
        tree.entry parent = some .directory := by
  constructor
  · rintro ⟨front, whole, walks, directory⟩
    rcases List.append_inj' whole rfl with ⟨rfl, ends⟩
    cases ends
    exact ⟨rfl, walks, directory⟩
  · rintro ⟨rfl, walks, directory⟩
    exact ⟨path.components, rfl, walks, directory⟩

theorem astray_child :
    Astray workdir tree (path.child name) ↔ Missing workdir tree path := by
  constructor
  · rintro ⟨front, _, parent, missed, rest, whole, walks⟩
    rcases List.append_inj' whole rfl with ⟨rfl, _⟩
    exact ⟨parent, missed, rest, walks⟩
  · rintro ⟨parent, missed, rest, walks⟩
    exact ⟨path.components, _, parent, missed, rest, rfl, walks⟩

end Children

end Luminosity.Host.TreeHost
