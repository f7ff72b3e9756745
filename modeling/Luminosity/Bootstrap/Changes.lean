import Luminosity.Bootstrap.Entries

/-!
# What the operations change

A write through one path is seen through another one only if their ways meet,
and it makes nothing of a directory or of a special file.  When names are
removed, what is still found was found before.
-/

namespace Luminosity.Bootstrap.Entries

open Luminosity.Foundation
open Luminosity.Foundation.Chains
open Luminosity.Foundation.TextSegments

namespace World

/-- No two ways which did not meet before meet afterwards. -/
structure Separates (before after : World) : Prop where
  passes : ∀ path other, after.Passes path other → before.Passes path other
  meets : ∀ path other, after.Meets path other → before.Meets path other

theorem Separates.refl (world : World) : Separates world world :=
  ⟨fun _ _ passes => passes, fun _ _ meets => meets⟩

theorem Separates.trans
    {first second third : World}
    (left : Separates first second) (right : Separates second third) :
    Separates first third :=
  ⟨fun path other passes => left.passes path other
      (right.passes path other passes),
    fun path other meets => left.meets path other
      (right.meets path other meets)⟩

theorem separates_of
    {before after : World}
    (passes : ∀ path other, after.Passes path other →
      before.Passes path other)
    (same : ∀ path other, after.SameFile path other →
      before.SameFile path other) :
    Separates before after := by
  refine ⟨passes, ?_⟩
  rintro path other ⟨here, there, first, second, meets⟩
  exact ⟨here, there, passes path here first, passes other there second,
    same here there meets⟩

/-! ## One file -/

/-- The file of a name is replaced by what is no link, as it was none. -/
structure Puts (place : Text) (node : Node) (before after : World) :
    Prop where
  limit : after.limit = before.limit
  stops : before.target place = none
  plain : node.target = none
  named : ∀ path, before.SameFile place path → after.own path = some node
  others : ∀ path, ¬ before.SameFile place path →
    after.own path = before.own path
  same : ∀ path other, after.SameFile path other ↔
    before.SameFile path other

theorem puts_put
    {world : World} {place : Text} {inode : Nat} {node : Node}
    (isEntry : world.entry place = some inode)
    (stops : world.target place = none) (plain : node.target = none) :
    Puts place node world (world.put inode node) where
  limit := rfl
  stops := stops
  plain := plain
  named := by
    intro path same
    have isPath : world.entry path = some inode := by
      rcases same with rfl | ⟨other, first, second⟩
      · exact isEntry
      · rw [second, ← first, isEntry]
    change (world.entry path).map (Function.update world.node inode node) = _
    rw [isPath, Option.map_some, Function.update_self]
  others := by
    intro path different
    change (world.entry path).map (Function.update world.node inode node) =
      (world.entry path).map world.node
    cases isPath : world.entry path with
    | none => rfl
    | some other =>
        have notInode : other ≠ inode := by
          rintro rfl
          exact different (.inr ⟨other, isEntry, isPath⟩)
        rw [Option.map_some, Option.map_some,
          Function.update_of_ne notInode]
  same := fun _ _ => Iff.rfl

theorem puts_create
    {world : World} {place : Text} {node : Node}
    (isFree : world.entry place = none) (plain : node.target = none) :
    Puts place node world (world.create place node) where
  limit := rfl
  stops := by
    rw [target, own, isFree]
    rfl
  plain := plain
  named := by
    intro path same
    have isPath : path = place := by
      rcases same with rfl | ⟨other, first, _⟩
      · rfl
      · rw [isFree] at first
        cases first
    subst isPath
    simp [own, create]
  others := by
    intro path different
    have notPlace : path ≠ place := fun same => different (.inl same.symm)
    change (Function.update world.entry place (some world.size) path).map
      (Function.update world.node world.size node) = _
    rw [Function.update_of_ne notPlace, own]
    cases isPath : world.entry path with
    | none => rfl
    | some other =>
        have notSize := Nat.ne_of_lt (world.within path other isPath)
        rw [Option.map_some, Option.map_some, Function.update_of_ne notSize]
  same := by
    have fresh {path : Text} {inode : Nat}
        (isEntry : (world.create place node).entry path = some inode) :
        path = place ∧ inode = world.size ∨
          world.entry path = some inode := by
      by_cases same : path = place
      · subst same
        simp only [create, Function.update_self, Option.some.injEq] at isEntry
        exact .inl ⟨rfl, isEntry.symm⟩
      · simp only [create, Function.update_of_ne same] at isEntry
        exact .inr isEntry
    have old {path : Text} {inode : Nat}
        (isEntry : world.entry path = some inode) :
        (world.create place node).entry path = some inode := by
      have different : path ≠ place := by
        rintro rfl
        rw [isFree] at isEntry
        cases isEntry
      simp only [create, Function.update_of_ne different]
      exact isEntry
    intro path other
    constructor
    · rintro (rfl | ⟨inode, first, second⟩)
      · exact .inl rfl
      · rcases fresh first with ⟨isPlace, isNew⟩ | wasFirst
        · rcases fresh second with ⟨alsoPlace, _⟩ | wasSecond
          · exact .inl (isPlace.trans alsoPlace.symm)
          · exact (Nat.ne_of_lt (world.within _ _ wasSecond) isNew).elim
        · rcases fresh second with ⟨_, isNew⟩ | wasSecond
          · exact (Nat.ne_of_lt (world.within _ _ wasFirst) isNew).elim
          · exact .inr ⟨inode, wasFirst, wasSecond⟩
    · rintro (rfl | ⟨inode, first, second⟩)
      · exact .inl rfl
      · exact .inr ⟨inode, old first, old second⟩

namespace Puts

variable {place : Text} {node : Node} {before after : World}

theorem target_eq (puts : Puts place node before after) :
    after.target = before.target := by
  funext path
  by_cases same : before.SameFile place path
  · have stopped : before.target path = none := by
      rw [target, ← same.own]
      exact puts.stops
    rw [stopped, target, puts.named path same]
    exact puts.plain
  · rw [target, puts.others path same, target]

theorem last_eq (puts : Puts place node before after) (path : Text) :
    after.last path = before.last path := by
  rw [last, puts.target_eq, puts.limit, last]

theorem separates (puts : Puts place node before after) :
    Separates before after := by
  apply separates_of
  · intro path other passes
    rw [Passes, puts.target_eq] at passes
    exact passes
  · exact fun path other => (puts.same path other).mp

theorem found_self
    (puts : Puts place node before after)
    {path : Text} (lands : before.last path = some place) :
    after.found path = some node := by
  rw [found_of_last ((puts.last_eq path).trans lands)]
  exact puts.named place (.inl rfl)

theorem together
    (puts : Puts place node before after)
    {path other : Text} (together : before.Together path other) :
    after.Together path other := by
  rcases together with ⟨here, there, first, second, same⟩
  exact ⟨here, there, (puts.last_eq path).trans first,
    (puts.last_eq other).trans second, (puts.same here there).mpr same⟩

/-- What is found is unchanged, or the file which is replaced. -/
theorem found_or (puts : Puts place node before after) (path : Text) :
    after.found path = before.found path ∨
      after.found path = some node ∧
        before.found path = before.own place := by
  cases lands : before.last path with
  | none =>
      left
      rw [found, puts.last_eq, lands, found, lands]
      rfl
  | some stop =>
      have later := (puts.last_eq path).trans lands
      rw [found_of_last later, found_of_last lands]
      by_cases same : before.SameFile place stop
      · exact .inr ⟨puts.named stop same, same.own.symm⟩
      · exact .inl (puts.others stop same)

theorem found_of_apart
    (puts : Puts place node before after)
    {path other : Text} (lands : before.last path = some place)
    (apart : ¬ before.Meets path other) :
    after.found other = before.found other := by
  cases others : before.last other with
  | none =>
      rw [found, puts.last_eq, others, found, others]
      rfl
  | some stop =>
      rw [found_of_last ((puts.last_eq other).trans others),
        found_of_last others]
      apply puts.others
      intro same
      exact apart ⟨place, stop, passes_last lands, passes_last others, same⟩

end Puts

/-! ## Writes -/

/-- A file may have been written through the path, and nothing else. -/
structure Overwrites (path : Text) (before after : World) : Prop where
  separates : Separates before after
  apart : ∀ other, ¬ before.Meets path other →
    after.found other = before.found other
  directory : ∀ other, after.isDirectory other = before.isDirectory other
  special : ∀ other contents executable,
    after.found other = some (.special contents executable) ↔
      before.found other = some (.special contents executable)
  writable : ∀ other, after.Writable other ↔ before.Writable other

theorem Overwrites.refl (path : Text) (world : World) :
    Overwrites path world world where
  separates := .refl world
  apart := fun _ _ => rfl
  directory := fun _ => rfl
  special := fun _ _ _ => Iff.rfl
  writable := fun _ => Iff.rfl

theorem Overwrites.trans
    {path : Text} {first second third : World}
    (left : Overwrites path first second)
    (right : Overwrites path second third) :
    Overwrites path first third where
  separates := left.separates.trans right.separates
  apart := by
    intro other apart
    rw [right.apart other fun meets =>
      apart (left.separates.meets _ _ meets), left.apart other apart]
  directory := fun other => (right.directory other).trans
    (left.directory other)
  special := fun other contents executable =>
    (right.special other contents executable).trans
      (left.special other contents executable)
  writable := fun other => (right.writable other).trans (left.writable other)

/-- A file is replaced by a file, or is made. -/
theorem Puts.overwrites
    {before after : World} {path place : Text}
    {contents : Bytes} {executable : Bool}
    (puts : Puts place (.file contents executable) before after)
    (lands : before.last path = some place)
    (wasFile : before.own place = none ∨
      ∃ other mode, before.own place = some (.file other mode)) :
    Overwrites path before after where
  separates := puts.separates
  apart := fun _ apart => puts.found_of_apart lands apart
  directory := by
    intro other
    rcases puts.found_or other with same | ⟨written, was⟩
    · exact isDirectory_congr same
    · rw [isDirectory, isDirectory, written, was]
      rcases wasFile with free | ⟨_, _, isFile⟩
      · rw [free]
        rfl
      · rw [isFile]
        rfl
  special := by
    intro other bytes mode
    rcases puts.found_or other with same | ⟨written, was⟩
    · rw [same]
    · rw [written, was]
      rcases wasFile with free | ⟨_, _, isFile⟩
      · simp [free]
      · simp [isFile]
  writable := by
    intro other
    rw [Writable, Writable, puts.last_eq]
    rcases puts.found_or other with same | ⟨written, was⟩
    · rw [same, isFile_congr same]
    · rw [isFile, isFile, written, was]
      rcases wasFile with free | ⟨_, _, isFile⟩
      · simp [free, Node.isFile]
      · simp [isFile, Node.isFile]

/-- A write at a writable path leaves a file there. -/
theorem Writable.puts
    {world : World} {path : Text} (writable : world.Writable path)
    (contents : Bytes) (executable : Bool) :
    ∃ place, world.last path = some place ∧
      Puts place (.file contents executable) world
        (world.write path contents executable) ∧
      (world.own place = none ∨
        ∃ other mode, world.own place = some (.file other mode)) := by
  rcases writable with ⟨isSome, fits⟩
  rcases Option.isSome_iff_exists.mp isSome with ⟨place, lands⟩
  refine ⟨place, lands, ?_, ?_⟩
  · rw [write, lands]
    dsimp only
    cases isEntry : world.entry place with
    | none => exact puts_create isEntry rfl
    | some inode => exact puts_put isEntry (target_last lands) rfl
  · rw [isFile_iff, found_of_last lands] at fits
    exact fits

theorem Writable.found_write
    {world : World} {path : Text} (writable : world.Writable path)
    (contents : Bytes) (executable : Bool) :
    (world.write path contents executable).found path =
      some (.file contents executable) := by
  rcases writable.puts contents executable with ⟨place, lands, puts, _⟩
  exact puts.found_self lands

theorem Writable.together_write
    {world : World} {path : Text} (writable : world.Writable path)
    (contents : Bytes) (executable : Bool)
    {first second : Text} (together : world.Together first second) :
    (world.write path contents executable).Together first second := by
  rcases writable.puts contents executable with ⟨place, _, puts, _⟩
  exact puts.together together

theorem Writable.overwrites
    {world : World} {path : Text} (writable : world.Writable path)
    (contents : Bytes) (executable : Bool) :
    Overwrites path world (world.write path contents executable) := by
  rcases writable.puts contents executable with ⟨place, lands, puts, wasFile⟩
  exact puts.overwrites lands wasFile

/-! ## Modes -/

theorem puts_makeExecutable
    {world : World} {path : Text} {node : Node}
    (finds : world.found path = some node) :
    ∃ place, world.last path = some place ∧
      world.own place = some node ∧
        Puts place node.makeExecutable world (world.makeExecutable path) := by
  rcases last_of_found finds with ⟨place, lands, isNode⟩
  refine ⟨place, lands, isNode, ?_⟩
  have stops := target_last lands
  rcases Option.map_eq_some_iff.mp isNode with ⟨inode, isEntry, rfl⟩
  have isBound : (world.last path).bind world.entry = some inode := by
    rw [lands]
    exact isEntry
  rw [makeExecutable, isBound]
  apply puts_put isEntry stops
  rw [Node.target_makeExecutable]
  rw [target, isNode] at stops
  exact stops

theorem found_makeExecutable
    {world : World} {path : Text} {node : Node}
    (finds : world.found path = some node) :
    (world.makeExecutable path).found path = some node.makeExecutable := by
  rcases puts_makeExecutable finds with ⟨place, lands, _, puts⟩
  exact puts.found_self lands

theorem together_makeExecutable
    {world : World} {path : Text} {node : Node}
    (finds : world.found path = some node)
    {first second : Text} (together : world.Together first second) :
    (world.makeExecutable path).Together first second := by
  rcases puts_makeExecutable finds with ⟨_, _, _, puts⟩
  exact puts.together together

/-- What is found is the same, but its mode may have changed. -/
def Remodes (before after : World) (path : Text) : Prop :=
  after.found path = before.found path ∨
    after.found path = (before.found path).map Node.makeExecutable

theorem remodes_makeExecutable
    {world : World} {path : Text} {node : Node}
    (finds : world.found path = some node) (other : Text) :
    Remodes world (world.makeExecutable path) other := by
  rcases puts_makeExecutable finds with ⟨place, _, isNode, puts⟩
  rcases puts.found_or other with same | ⟨changed, was⟩
  · exact .inl same
  · right
    rw [changed, was, isNode]
    rfl

/-- A test which does not ask for the mode has the same result. -/
theorem Remodes.any
    {before after : World} {path : Text}
    (remodes : Remodes before after path)
    {test : Node → Bool}
    (blind : ∀ node, test node.makeExecutable = test node) :
    (after.found path).any test = (before.found path).any test := by
  rcases remodes with same | changed
  · rw [same]
  · rw [changed]
    cases before.found path with
    | none => rfl
    | some node => exact blind node

theorem Remodes.readFile
    {before after : World} {path : Text}
    (remodes : Remodes before after path) :
    after.readFile path = before.readFile path := by
  rcases remodes with same | changed
  · exact readFile_congr same
  · rw [World.readFile, World.readFile, changed]
    cases before.found path with
    | none => rfl
    | some node => exact Node.read_makeExecutable node

theorem overwrites_makeExecutable
    {world : World} {path : Text} (isFile : world.isFile path) :
    Overwrites path world (world.makeExecutable path) := by
  rcases (isFile_iff path).mp isFile with ⟨contents, executable, finds⟩
  rcases puts_makeExecutable finds with ⟨place, lands, isNode, puts⟩
  exact puts.overwrites lands (.inr ⟨contents, executable, isNode⟩)

/-! ## Files which differ in their modes -/

/-- Both worlds show the same but for the modes of the files. -/
structure Resembles (world other : World) : Prop where
  directory : ∀ path, other.isDirectory path = world.isDirectory path
  special : ∀ path contents executable,
    other.found path = some (.special contents executable) ↔
      world.found path = some (.special contents executable)
  writable : ∀ path, other.Writable path ↔ world.Writable path
  isFile : ∀ path, other.isFile path = world.isFile path
  readFile : ∀ path, other.readFile path = world.readFile path

theorem Resembles.trans
    {first second third : World}
    (left : Resembles first second) (right : Resembles second third) :
    Resembles first third where
  directory := fun path =>
    (right.directory path).trans (left.directory path)
  special := fun path contents executable =>
    (right.special path contents executable).trans
      (left.special path contents executable)
  writable := fun path => (right.writable path).trans (left.writable path)
  isFile := fun path => (right.isFile path).trans (left.isFile path)
  readFile := fun path => (right.readFile path).trans (left.readFile path)

theorem resembles_makeExecutable
    {world : World} {path : Text} (isFile : world.isFile path) :
    Resembles world (world.makeExecutable path) := by
  have overwrites := overwrites_makeExecutable isFile
  rcases (isFile_iff path).mp isFile with ⟨_, _, finds⟩
  have remodes := remodes_makeExecutable finds
  exact {
    directory := overwrites.directory
    special := overwrites.special
    writable := overwrites.writable
    isFile := fun other => (remodes other).any Node.isFile_makeExecutable
    readFile := fun other => (remodes other).readFile }

/-- A path sees what is written, whatever its mode is, or does not see it. -/
theorem Writable.found_write_or
    {world : World} {path : Text} (writable : world.Writable path)
    (contents : Bytes) (other : Text) :
    (∀ executable,
        (world.write path contents executable).found other =
          world.found other) ∨
      ∀ executable,
        (world.write path contents executable).found other =
          some (.file contents executable) := by
  rcases Option.isSome_iff_exists.mp writable.1 with ⟨place, lands⟩
  have written (executable : Bool) :
      Puts place (.file contents executable) world
        (world.write path contents executable) := by
    rcases writable.puts contents executable with ⟨same, alsoLands, puts, _⟩
    rw [lands, Option.some.injEq] at alsoLands
    exact alsoLands ▸ puts
  cases stops : world.last other with
  | none =>
      left
      intro executable
      rw [found, (written executable).last_eq, stops, found, stops]
      rfl
  | some stop =>
      have later (executable : Bool) :=
        ((written executable).last_eq other).trans stops
      by_cases same : world.SameFile place stop
      · right
        intro executable
        rw [found_of_last (later executable)]
        exact (written executable).named stop same
      · left
        intro executable
        rw [found_of_last (later executable), found_of_last stops]
        exact (written executable).others stop same

theorem Writable.resembles
    {world : World} {path : Text} (writable : world.Writable path)
    (contents : Bytes) (first second : Bool) :
    Resembles (world.write path contents first)
      (world.write path contents second) := by
  have one := writable.overwrites contents first
  have two := writable.overwrites contents second
  have seen (other : Text) := writable.found_write_or contents other
  exact {
    directory := fun other =>
      (two.directory other).trans (one.directory other).symm
    special := fun other bytes executable =>
      (two.special other bytes executable).trans
        (one.special other bytes executable).symm
    writable := fun other =>
      (two.writable other).trans (one.writable other).symm
    isFile := by
      intro other
      rcases seen other with unseen | written
      · rw [isFile, isFile, unseen, unseen]
      · rw [isFile, isFile, written, written]
        rfl
    readFile := by
      intro other
      rcases seen other with unseen | written
      · rw [readFile, readFile, unseen, unseen]
      · rw [readFile, readFile, written, written]
        rfl }

/-! ## Lost names -/

/-- Some of the names may be gone. -/
structure Loses (lost : Text → Prop) (before after : World) : Prop where
  limit : after.limit = before.limit
  node : after.node = before.node
  entry : ∀ path, after.entry path = before.entry path ∨
    lost path ∧ after.entry path = none

namespace Loses

variable {lost : Text → Prop} {before after : World}

theorem own (loses : Loses lost before after) (path : Text) :
    after.own path = before.own path ∨ lost path ∧ after.own path = none := by
  rcases loses.entry path with same | ⟨isLost, gone⟩
  · left
    rw [World.own, loses.node, same, World.own]
  · right
    rw [World.own, gone]
    exact ⟨isLost, rfl⟩

theorem target (loses : Loses lost before after) (path : Text) :
    after.target path = before.target path ∨ after.target path = none := by
  rcases loses.own path with same | ⟨_, gone⟩
  · left
    rw [World.target, same, World.target]
  · right
    rw [World.target, gone]
    rfl

theorem separates (loses : Loses lost before after) :
    Separates before after := by
  apply separates_of
  · intro path other passes
    exact Passes.of_thinned loses.target passes
  · rintro path other (rfl | ⟨inode, first, second⟩)
    · exact .inl rfl
    · right
      refine ⟨inode, ?_, ?_⟩
      · rcases loses.entry path with same | ⟨_, gone⟩
        · rw [← same, first]
        · rw [gone] at first
          cases first
      · rcases loses.entry other with same | ⟨_, gone⟩
        · rw [← same, second]
        · rw [gone] at second
          cases second

/-- What is still found was found before. -/
theorem found
    (loses : Loses lost before after)
    {path : Text} {node : Node} (finds : after.found path = some node) :
    before.found path = some node := by
  rcases last_of_found finds with ⟨place, lands, isNode⟩
  have kept : before.own place = some node := by
    rcases loses.own place with same | ⟨_, gone⟩
    · rw [← same, isNode]
    · rw [gone] at isNode
      cases isNode
  have stops : before.target place = none := by
    have stopped := target_last lands
    rw [World.target, isNode] at stopped
    rw [World.target, kept]
    exact stopped
  rw [World.last, loses.limit] at lands
  have before_lands : before.last path = some place :=
    follow_of_thinned loses.target lands stops
  rw [found_of_last before_lands, kept]

theorem last_of_aside
    (loses : Loses lost before after) {path : Text}
    (aside : ∀ other, lost other → ¬ before.Passes path other) :
    after.last path = before.last path := by
  rw [World.last, loses.limit, World.last]
  apply follow_congr
  intro point passes
  rcases loses.own point with same | ⟨isLost, _⟩
  · rw [World.target, same, World.target]
  · exact (aside point isLost passes).elim

/-- A way which comes by none of the names leads where it did. -/
theorem found_of_aside
    (loses : Loses lost before after) {path : Text}
    (aside : ∀ other, lost other → ¬ before.Passes path other) :
    after.found path = before.found path := by
  rw [World.found, loses.last_of_aside aside, World.found]
  cases lands : before.last path with
  | none => rfl
  | some place =>
      rcases loses.own place with same | ⟨isLost, _⟩
      · exact same
      · exact (aside place isLost (passes_last lands)).elim

end Loses

theorem loses_remove (world : World) (path : Text) :
    Loses (fun other => other = path) world (world.remove path) where
  limit := rfl
  node := rfl
  entry := by
    intro other
    by_cases same : other = path
    · right
      refine ⟨same, ?_⟩
      rw [same]
      exact Function.update_self path none world.entry
    · left
      exact Function.update_of_ne same _ world.entry

/-! ## Renamed names -/

section Renamed

variable {world : World} {source target : Text}

theorem own_rename_source :
    (world.rename source target).own source = none := by
  simp [own, rename]

theorem own_rename_target (different : target ≠ source) :
    (world.rename source target).own target = world.own source := by
  simp [own, rename, Function.update_of_ne different]

theorem own_rename_of_ne
    {other : Text} (notSource : other ≠ source) (notTarget : other ≠ target) :
    (world.rename source target).own other = world.own other := by
  simp [own, rename, Function.update_of_ne notSource,
    Function.update_of_ne notTarget]

theorem target_rename_of_ne
    {other : Text} (notSource : other ≠ source) (notTarget : other ≠ target) :
    (world.rename source target).target other = world.target other := by
  rw [World.target, own_rename_of_ne notSource notTarget, World.target]

/-- The target leads where the source did. -/
theorem found_rename_target
    (different : target ≠ source) (aside : ¬ world.Passes source target)
    {node : Node} (finds : world.found source = some node) :
    (world.rename source target).found target = some node := by
  have sends :
      (world.rename source target).target target = world.target source := by
    rw [World.target, own_rename_target different, World.target]
  rcases last_of_found finds with ⟨place, lands, isNode⟩
  cases onward : world.target source with
  | none =>
      have own := found_of_last (follow_self world.limit onward)
      rw [found_of_last (follow_self _ (sends.trans onward)),
        own_rename_target different, ← own, finds]
  | some middle =>
      rw [last] at lands
      cases limit : world.limit with
      | zero =>
          rw [limit, follow_zero onward] at lands
          cases lands
      | succ shorter =>
          rw [limit, follow_succ shorter onward] at lands
          have arrives := (follow_arrives lands).head onward
          have avoided (point : Text)
              (passes : world.Passes middle point) :
              point ≠ source ∧ point ≠ target := by
            constructor
            · rintro rfl
              exact arrives.not_back onward passes
            · rintro rfl
              exact aside (.head onward passes)
          have later : (world.rename source target).last target =
              some place := by
            rw [last]
            change follow _ world.limit target = _
            rw [limit, follow_succ shorter (sends.trans onward), ← lands]
            apply follow_congr
            intro point passes
            exact target_rename_of_ne (avoided point passes).1
              (avoided point passes).2
          have avoids := avoided place (follow_arrives lands).passes
          rw [found_of_last later, own_rename_of_ne avoids.1 avoids.2, isNode]

theorem target_rename_of_aside
    {path point : Text} (notSource : ¬ world.Passes path source)
    (notTarget : ¬ world.Passes path target)
    (passes : world.Passes path point) :
    (world.rename source target).target point = world.target point := by
  apply target_rename_of_ne
  · rintro rfl
    exact notSource passes
  · rintro rfl
    exact notTarget passes

/-- A way which comes by neither name leads where it did. -/
theorem found_rename_of_aside
    {path : Text} (notSource : ¬ world.Passes path source)
    (notTarget : ¬ world.Passes path target) :
    (world.rename source target).found path = world.found path := by
  have sameLast :
      (world.rename source target).last path = world.last path := by
    rw [last, last]
    apply follow_congr
    intro point passes
    exact target_rename_of_aside notSource notTarget passes
  rw [found, sameLast, found]
  cases lands : world.last path with
  | none => rfl
  | some place =>
      apply own_rename_of_ne
      · rintro rfl
        exact notSource (passes_last lands)
      · rintro rfl
        exact notTarget (passes_last lands)

theorem passes_rename_of_aside
    {path other : Text} (notSource : ¬ world.Passes path source)
    (notTarget : ¬ world.Passes path target) :
    (world.rename source target).Passes path other ↔
      world.Passes path other := by
  apply passes_congr_iff
  intro point passes
  exact target_rename_of_aside notSource notTarget passes

theorem found_rename_source :
    (world.rename source target).found source = none := by
  have stops : (world.rename source target).target source = none := by
    rw [World.target, own_rename_source]
    rfl
  rw [found_of_last (follow_self _ stops), own_rename_source]

/-- What comes by a name which is no directory leads to none. -/
theorem not_isDirectory_of_passes
    {path other : Text} (passes : world.Passes path other)
    (noDirectory : world.isDirectory other = false) :
    world.isDirectory path = false := by
  rw [← Bool.not_eq_true]
  intro isDirectory
  rcases (isDirectory_iff path).mp isDirectory with ⟨searchable, finds⟩
  have onward := found_of_passes finds passes
  rw [World.isDirectory, onward] at noDirectory
  cases noDirectory

/-- No directory comes or goes when something else is moved. -/
theorem isDirectory_move
    (different : target ≠ source) (aside : ¬ world.Passes source target)
    {node : Node} (finds : world.found source = some node)
    (noDirectory : node.isDirectory = false) (path : Text) :
    (world.move source target).isDirectory path = world.isDirectory path := by
  have sourceNone : world.isDirectory source = false := by
    rw [isDirectory, finds]
    exact noDirectory
  rw [move]
  by_cases inside : world.isDirectory target
  · rw [if_pos inside]
    have loses := loses_remove world source
    by_cases passes : world.Passes path source
    · rw [not_isDirectory_of_passes passes sourceNone, ← Bool.not_eq_true,
        isDirectory_iff]
      rintro ⟨searchable, later⟩
      have before := found_of_passes (loses.found later) passes
      rw [isDirectory, before] at sourceNone
      cases sourceNone
    · apply isDirectory_congr
      apply loses.found_of_aside
      rintro _ rfl
      exact passes
  · rw [if_neg inside]
    rw [Bool.not_eq_true] at inside
    by_cases passes : ∃ point, (point = source ∨ point = target) ∧
        world.Passes path point
    -- The first of both names on the way leads to no directory.
    · rcases passes with ⟨point, isChanged, passes⟩
      have same (other : Text) (unchanged : ¬ (other = source ∨
          other = target)) :
          world.target other = (world.rename source target).target other := by
        rw [not_or] at unchanged
        exact (target_rename_of_ne unchanged.1 unchanged.2).symm
      rcases Passes.first same passes isChanged with
        ⟨first, isFirst, later, before⟩
      have wasNone : world.isDirectory first = false := by
        rcases isFirst with rfl | rfl
        · exact sourceNone
        · exact inside
      have isNone :
          (world.rename source target).isDirectory first = false := by
        rcases isFirst with rfl | rfl
        · rw [isDirectory, found_rename_source]
          rfl
        · rw [isDirectory, found_rename_target different aside finds]
          exact noDirectory
      rw [not_isDirectory_of_passes before wasNone,
        not_isDirectory_of_passes later isNone]
    · apply isDirectory_congr
      apply found_rename_of_aside
      · exact fun isSource => passes ⟨source, .inl rfl, isSource⟩
      · exact fun isTarget => passes ⟨target, .inr rfl, isTarget⟩

/-- A way which comes by neither name is the same after a move. -/
theorem move_of_aside
    {path : Text} (notSource : ¬ world.Passes path source)
    (notTarget : ¬ world.Passes path target) :
    (world.move source target).found path = world.found path ∧
      ∀ other, (world.move source target).Passes path other →
        world.Passes path other := by
  rw [move]
  split
  · have loses := loses_remove world source
    constructor
    · apply loses.found_of_aside
      rintro _ rfl
      exact notSource
    · exact loses.separates.passes path
  · constructor
    · exact found_rename_of_aside notSource notTarget
    · intro other
      exact (passes_rename_of_aside notSource notTarget).mp

end Renamed

end World

end Luminosity.Bootstrap.Entries
