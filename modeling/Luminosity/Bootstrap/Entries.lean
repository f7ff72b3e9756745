import Mathlib.Logic.Function.Basic
import Luminosity.Bootstrap.VerifyShim
import Luminosity.Foundation.Chains

/-!
# Names, links and files

A path may be the name of a file, of a directory, of a special file or of a
link, and two paths may be names of the same file.  A command which opens a
path follows its links, as often as the system does; one which removes or
renames a path takes its name.

What lies inside of a directory is left out.
-/

namespace Luminosity.Bootstrap.Entries

open Relation
open Luminosity.Foundation
open Luminosity.Foundation.Chains
open Luminosity.Foundation.TextSegments
open Luminosity.Bootstrap.VerifyShim

inductive Node
  | file (contents : Bytes) (executable : Bool)
  | directory (searchable : Bool)
  /-- A pipe or a device, with what it can be read for. -/
  | special (contents : Option Bytes) (executable : Bool)
  | link (target : Text)
deriving DecidableEq, Repr

namespace Node

def executable : Node → Bool
  | .file _ executable => executable
  | .directory searchable => searchable
  | .special _ executable => executable
  | .link _ => true

def makeExecutable : Node → Node
  | .file contents _ => .file contents true
  | .directory _ => .directory true
  | .special contents _ => .special contents true
  | .link target => .link target

def target : Node → Option Text
  | .link target => some target
  | _ => none

def isFile : Node → Bool
  | .file _ _ => true
  | _ => false

def isDirectory : Node → Bool
  | .directory _ => true
  | _ => false

def isSpecial : Node → Bool
  | .special _ _ => true
  | _ => false

/-- What reading it gives, once its links are followed. -/
def read : Node → Except Text Bytes
  | .file contents _ => .ok contents
  | .special (some contents) _ => .ok contents
  | .special none _ => .error "Input/output error (os error 5)".toList
  | .directory _ => .error "Is a directory (os error 21)".toList
  | .link _ =>
      .error "Too many levels of symbolic links (os error 40)".toList

variable (node : Node)

@[simp]
theorem target_makeExecutable : node.makeExecutable.target = node.target := by
  cases node <;> rfl

@[simp]
theorem isFile_makeExecutable : node.makeExecutable.isFile = node.isFile := by
  cases node <;> rfl

@[simp]
theorem isDirectory_makeExecutable :
    node.makeExecutable.isDirectory = node.isDirectory := by
  cases node <;> rfl

@[simp]
theorem isSpecial_makeExecutable :
    node.makeExecutable.isSpecial = node.isSpecial := by
  cases node <;> rfl

@[simp]
theorem read_makeExecutable : node.makeExecutable.read = node.read := by
  rcases node with _ | _ | ⟨_ | _, _⟩ | _ <;> rfl

variable {node}

theorem isFile_iff :
    node.isFile ↔ ∃ contents executable, node = .file contents executable := by
  cases node <;> simp [isFile]

theorem isDirectory_iff :
    node.isDirectory ↔ ∃ searchable, node = .directory searchable := by
  cases node <;> simp [isDirectory]

theorem isSpecial_iff :
    node.isSpecial ↔
      ∃ contents executable, node = .special contents executable := by
  cases node <;> simp [isSpecial]

/-- What can be read is a file or a special file. -/
theorem read_ok
    {contents : Bytes} (read : node.read = .ok contents) :
    ∃ executable, node = .file contents executable ∨
      node = .special (some contents) executable := by
  cases node with
  | file other executable =>
      cases read
      exact ⟨executable, .inl rfl⟩
  | special other executable =>
      cases other with
      | none => cases read
      | some other =>
          cases read
          exact ⟨executable, .inr rfl⟩
  | directory searchable => cases read
  | link target => cases read

end Node

/-- The names, and the files which they are names of. -/
structure World where
  entry : Text → Option Nat
  node : Nat → Node
  /-- No name has this number or a greater one. -/
  size : Nat
  within : ∀ path inode, entry path = some inode → inode < size
  /-- How many links are followed. -/
  limit : Nat

namespace World

variable (world : World)

/-- What a path is the name of: a link is not followed. -/
def own (path : Text) : Option Node :=
  (world.entry path).map world.node

def target (path : Text) : Option Text :=
  (world.own path).bind Node.target

/-- The name at which the links of a path end. -/
def last (path : Text) : Option Text :=
  follow world.target world.limit path

/-- What a path leads to. -/
def found (path : Text) : Option Node :=
  (world.last path).bind world.own

def isExecutable (path : Text) : Bool :=
  (world.found path).any Node.executable

def isFile (path : Text) : Bool :=
  (world.found path).any Node.isFile

def isDirectory (path : Text) : Bool :=
  (world.found path).any Node.isDirectory

def isSpecial (path : Text) : Bool :=
  (world.found path).any Node.isSpecial

def readFile : ReadFile := fun path =>
  match world.found path with
  | none => .error "No such file or directory (os error 2)".toList
  | some node => node.read

/-- The path leads to a file, or to a name which is free. -/
def Writable (path : Text) : Prop :=
  (world.last path).isSome ∧
    (world.found path = none ∨ world.isFile path)

instance (path : Text) : Decidable (world.Writable path) :=
  inferInstanceAs (Decidable (_ ∧ _))

/-- Following its links, the path comes by the other one. -/
abbrev Passes (path other : Text) : Prop :=
  Chains.Passes world.target path other

/-- Two names of the same file. -/
def SameFile (path other : Text) : Prop :=
  path = other ∨
    ∃ inode, world.entry path = some inode ∧ world.entry other = some inode

/-- Both paths come by one name, or by names of one file. -/
def Meets (path other : Text) : Prop :=
  ∃ here there, world.Passes path here ∧ world.Passes other there ∧
    world.SameFile here there

/-- Both paths lead to one file, or to one name. -/
def Together (path other : Text) : Prop :=
  ∃ here there, world.last path = some here ∧ world.last other = some there ∧
    world.SameFile here there

/-! ## Operations -/

def put (inode : Nat) (node : Node) : World :=
  { world with node := Function.update world.node inode node }

def create (path : Text) (node : Node) : World where
  entry := Function.update world.entry path (some world.size)
  node := Function.update world.node world.size node
  size := world.size + 1
  within := by
    intro other inode isEntry
    by_cases same : other = path
    · subst same
      rw [Function.update_self, Option.some.injEq] at isEntry
      exact isEntry ▸ Nat.lt_succ_self _
    · rw [Function.update_of_ne same] at isEntry
      exact Nat.lt_succ_of_lt (world.within other inode isEntry)
  limit := world.limit

/-- The file at which the path ends is written, or made where it ends. -/
def write (path : Text) (contents : Bytes) (executable : Bool) : World :=
  match world.last path with
  | none => world
  | some place =>
      match world.entry place with
      | some inode => world.put inode (.file contents executable)
      | none => world.create place (.file contents executable)

def makeExecutable (path : Text) : World :=
  match (world.last path).bind world.entry with
  | none => world
  | some inode => world.put inode (world.node inode).makeExecutable

def remove (path : Text) : World :=
  { world with
    entry := Function.update world.entry path none
    within := by
      intro other inode isEntry
      by_cases same : other = path
      · rw [same, Function.update_self] at isEntry
        cases isEntry
      · rw [Function.update_of_ne same] at isEntry
        exact world.within other inode isEntry }

def rename (source target : Text) : World :=
  { world with
    entry :=
      Function.update
        (Function.update world.entry target (world.entry source)) source none
    within := by
      intro other inode isEntry
      by_cases isSource : other = source
      · rw [isSource, Function.update_self] at isEntry
        cases isEntry
      · rw [Function.update_of_ne isSource] at isEntry
        by_cases isTarget : other = target
        · rw [isTarget, Function.update_self] at isEntry
          exact world.within source inode isEntry
        · rw [Function.update_of_ne isTarget] at isEntry
          exact world.within other inode isEntry }

/-- What is moved to a directory ends up inside of it. -/
def move (source target : Text) : World :=
  if world.isDirectory target then
    world.remove source
  else
    world.rename source target

/-! ## Finding -/

variable {world}

theorem SameFile.symm
    {path other : Text} (same : world.SameFile path other) :
    world.SameFile other path := by
  rcases same with rfl | ⟨inode, first, second⟩
  · exact .inl rfl
  · exact .inr ⟨inode, second, first⟩

theorem SameFile.own
    {path other : Text} (same : world.SameFile path other) :
    world.own path = world.own other := by
  rcases same with rfl | ⟨inode, first, second⟩
  · rfl
  · rw [World.own, World.own, first, second]

theorem Meets.symm
    {path other : Text} (meets : world.Meets path other) :
    world.Meets other path := by
  rcases meets with ⟨here, there, passes, others, same⟩
  exact ⟨there, here, others, passes, same.symm⟩

theorem meets_of_passes
    {path other : Text} (passes : world.Passes path other) :
    world.Meets path other :=
  ⟨other, other, passes, .refl, .inl rfl⟩

theorem passes_last
    {path place : Text} (lands : world.last path = some place) :
    world.Passes path place :=
  (follow_arrives lands).passes

theorem target_last
    {path place : Text} (lands : world.last path = some place) :
    world.target place = none :=
  (follow_arrives lands).stops

theorem found_of_last
    {path place : Text} (lands : world.last path = some place) :
    world.found path = world.own place := by
  rw [found, lands]
  rfl

theorem last_of_found
    {path : Text} {node : Node} (finds : world.found path = some node) :
    ∃ place, world.last path = some place ∧ world.own place = some node :=
  Option.bind_eq_some_iff.mp finds

theorem entry_of_found
    {path : Text} {node : Node} (finds : world.found path = some node) :
    (world.entry path).isSome := by
  cases isEntry : world.entry path with
  | some inode => rfl
  | none =>
      have isNone : world.own path = none := by
        rw [own, isEntry]
        rfl
      have stops : world.target path = none := by
        rw [target, isNone]
        rfl
      rw [found_of_last (follow_self _ stops), isNone] at finds
      cases finds

theorem Together.found
    {path other : Text} (together : world.Together path other) :
    world.found path = world.found other := by
  rcases together with ⟨here, there, first, second, same⟩
  rw [found_of_last first, found_of_last second, same.own]

theorem Together.writable
    {path other : Text} (together : world.Together path other)
    (writable : world.Writable other) :
    world.Writable path := by
  have fits := writable.2
  rw [← together.found, isFile, ← together.found] at fits
  rcases together with ⟨here, _, lands, _⟩
  exact ⟨Option.isSome_iff_exists.mpr ⟨here, lands⟩, fits⟩

/-- What one comes by leads to the same. -/
theorem found_of_passes
    {path other : Text} {node : Node}
    (finds : world.found path = some node)
    (passes : world.Passes path other) :
    world.found other = some node := by
  rcases last_of_found finds with ⟨place, lands, isNode⟩
  rw [found_of_last (follow_of_passes lands passes), isNode]

theorem isFile_iff (path : Text) :
    world.isFile path ↔
      ∃ contents executable,
        world.found path = some (.file contents executable) := by
  rw [isFile, Option.any_eq_true]
  constructor
  · rintro ⟨node, finds, isFile⟩
    rcases Node.isFile_iff.mp isFile with ⟨contents, executable, rfl⟩
    exact ⟨contents, executable, finds⟩
  · rintro ⟨contents, executable, finds⟩
    exact ⟨_, finds, rfl⟩

theorem isDirectory_iff (path : Text) :
    world.isDirectory path ↔
      ∃ searchable, world.found path = some (.directory searchable) := by
  rw [isDirectory, Option.any_eq_true]
  constructor
  · rintro ⟨node, finds, isDirectory⟩
    rcases Node.isDirectory_iff.mp isDirectory with ⟨searchable, rfl⟩
    exact ⟨searchable, finds⟩
  · rintro ⟨searchable, finds⟩
    exact ⟨_, finds, rfl⟩

theorem isSpecial_iff (path : Text) :
    world.isSpecial path ↔
      ∃ contents executable,
        world.found path = some (.special contents executable) := by
  rw [isSpecial, Option.any_eq_true]
  constructor
  · rintro ⟨node, finds, isSpecial⟩
    rcases Node.isSpecial_iff.mp isSpecial with ⟨contents, executable, rfl⟩
    exact ⟨contents, executable, finds⟩
  · rintro ⟨contents, executable, finds⟩
    exact ⟨_, finds, rfl⟩

theorem readFile_of_found
    {path : Text} {node : Node} (finds : world.found path = some node) :
    world.readFile path = node.read := by
  rw [readFile, finds]

theorem readFile_ok
    {path : Text} {contents : Bytes}
    (read : world.readFile path = .ok contents) :
    ∃ executable,
      world.found path = some (.file contents executable) ∨
        world.found path = some (.special (some contents) executable) := by
  rw [readFile] at read
  cases finds : world.found path with
  | none =>
      rw [finds] at read
      cases read
  | some node =>
      rw [finds] at read
      rcases Node.read_ok read with ⟨executable, rfl | rfl⟩
      · exact ⟨executable, .inl rfl⟩
      · exact ⟨executable, .inr rfl⟩

theorem found_of_readFile
    {path : Text} {contents : Bytes}
    (read : world.readFile path = .ok contents) :
    ∃ node, world.found path = some node ∧ node.isDirectory = false := by
  rcases readFile_ok read with ⟨_, finds | finds⟩
  · exact ⟨_, finds, rfl⟩
  · exact ⟨_, finds, rfl⟩

theorem not_isFile_of_isDirectory
    {path : Text} (isDirectory : world.isDirectory path) :
    world.isFile path = false := by
  rcases (isDirectory_iff path).mp isDirectory with ⟨searchable, finds⟩
  rw [isFile, finds]
  rfl

theorem not_isFile_of_isSpecial
    {path : Text} (isSpecial : world.isSpecial path) :
    world.isFile path = false := by
  rcases (isSpecial_iff path).mp isSpecial with ⟨contents, mode, finds⟩
  rw [isFile, finds]
  rfl

section Congr

variable {other : World} {path place : Text}
  (same : world.found path = other.found place)

include same

theorem readFile_congr : world.readFile path = other.readFile place := by
  rw [readFile, readFile, same]

theorem isFile_congr : world.isFile path = other.isFile place := by
  rw [isFile, isFile, same]

theorem isDirectory_congr :
    world.isDirectory path = other.isDirectory place := by
  rw [isDirectory, isDirectory, same]

theorem isSpecial_congr : world.isSpecial path = other.isSpecial place := by
  rw [isSpecial, isSpecial, same]

end Congr

/-- The same links lead from both paths. -/
theorem found_of_entry_eq
    {path other : Text} (same : world.entry path = world.entry other) :
    world.found path = world.found other := by
  have sameOwn : world.own path = world.own other := by rw [own, own, same]
  have sameTarget : world.target path = world.target other := by
    rw [target, target, sameOwn]
  cases sends : world.target other with
  | none =>
      rw [found_of_last (follow_self _ (sameTarget.trans sends)),
        found_of_last (follow_self _ sends), sameOwn]
  | some onward =>
      have sameLast : world.last path = world.last other := by
        rw [last, last]
        cases world.limit with
        | zero =>
            rw [follow_zero (sameTarget.trans sends), follow_zero sends]
        | succ limit =>
            rw [follow_succ limit (sameTarget.trans sends),
              follow_succ limit sends]
      rw [found, found, sameLast]

end World

end Luminosity.Bootstrap.Entries
