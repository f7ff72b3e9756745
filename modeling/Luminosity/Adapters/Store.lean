import Luminosity.Adapters.Document
import Luminosity.Config.Service
import Luminosity.Host.Calls

/-!
# The filesystem store

The store roots every configuration document at a project directory and
implements the core's ports by calls on the host.  It owns the path rule and
the two rules which guard a document: containment, checked before a file is
read or replaced, and the mapping-only strip of a body's frontmatter.

A write goes to a scratch file named by the process and by a counter, which is
then renamed onto the target.
-/

namespace Luminosity.Adapters.Store

open Luminosity.Foundation.TextSegments
open Luminosity.Foundation.EffectPrograms
open Luminosity.Config.Domain
open Luminosity.Config.Service
open Luminosity.Host.Paths
open Luminosity.Host.Calls
open Luminosity.Adapters.Frontmatter
open Luminosity.Adapters.Document

/-- A configuration operation over the host. -/
abbrev StoreProgram := HostExcept ConfigError

/-! ## Errors -/

def ioError (path : Path) (error : IoError) : ConfigError :=
  .io path.display error.detail

def unsafePath (path : Path) : ConfigError :=
  .unsafePath path.display

def malformed (path : Path) (detail : Text) : ConfigError :=
  .malformedFrontmatter path.display detail

/-! ## Lookups in which a missing file is no error -/

def canonical (path : Path) : StoreProgram (Option Path) := do
  match ← invoke (.canonicalize path) with
  | .ok resolved => return some resolved
  | .error error =>
      if error.kind = .notFound then
        return none
      else
        throw (ioError path error)

def isSymlink (path : Path) : StoreProgram Bool := do
  match ← invoke (.symlinkMetadata path) with
  | .ok fileType => return fileType = .symlink
  | .error error =>
      if error.kind = .notFound then
        return false
      else
        throw (ioError path error)

/-- The content of a file, absent when the file is. -/
def readExisting (path : Path) : StoreProgram (Option Text) := do
  match ← ExceptT.lift (readToString path) with
  | .ok content => return some content
  | .error error =>
      if error.kind = .notFound then
        return none
      else
        throw (ioError path error)

/-- Read a file and split it, retaining the raw content. -/
def readAndSplit (path : Path) : StoreProgram (Option (Text × Split)) := do
  match ← readExisting path with
  | none => return none
  | some content =>
      match split content with
      | .ok parts => return some (content, parts)
      | .error detail => throw (malformed path detail)

/-- The body of a fragment: what follows a mapping, else the whole file. -/
def fragmentBody (saphyr : Saphyr) (content : Text) (parts : Split) : Text :=
  match parseFrontmatter saphyr parts.frontmatter with
  | .ok (.mapping _) => parts.body
  | _ => content

/-! ## The store -/

/-- A configuration store rooted at a project directory. -/
structure FileConfigStore where
  root : Path

structure LevelBody where
  path : Text
  body : Option Text
deriving DecidableEq

structure SourceLocation where
  root : Text
  paths : List Text
deriving DecidableEq

namespace FileConfigStore

variable (store : FileConfigStore) (saphyr : Saphyr)

/-! ### The path rule -/

def configDir : Path :=
  store.root.join ".luminosity".toList

def configPath (level : Level) : Path :=
  store.configDir.join
    ("config".toList ++ level.qualifier ++ ".md".toList)

def skillDir (name : SkillName) : Path :=
  (store.configDir.join "skills".toList).join name.text

def fragmentPath (source : FragmentSource) (level : Level) : Path :=
  match source with
  | .projectContext => store.configPath level
  | .skillContext name =>
      (store.skillDir name).join
        ("context".toList ++ level.qualifier ++ ".md".toList)
  | .skillInstructions name =>
      (store.skillDir name).join
        ("instructions".toList ++ level.qualifier ++ ".md".toList)

def relative (path : Path) : Text :=
  ((path.stripPrefix store.root).getD path).display

def tempDir : Path :=
  store.configDir.join "tmp".toList

def tempName (process : UInt32) (count : UInt64) : Text :=
  "config-".toList ++ decimal process.toNat ++ "-".toList ++
    decimal count.toNat ++ ".tmp".toList

def tempPath (process : UInt32) (count : UInt64) : Path :=
  store.tempDir.join (tempName process count)

/-! ### Containment -/

/-- Refuse `path` when `looked`, if it exists, lies outside `root`. -/
def refuseOutside (root path looked : Path) : StoreProgram Unit := do
  match ← canonical looked with
  | none => return ()
  | some resolved =>
      if resolved.startsWith root then
        return ()
      else
        throw (unsafePath path)

def refuseParent (root path : Path) : StoreProgram Unit :=
  match path.parent with
  | none => return ()
  | some parent => refuseOutside root path parent

def refuseLeaf (root path : Path) : StoreProgram Unit := do
  match ← isSymlink path with
  | false => return ()
  | true => refuseOutside root path path

/--
Refuse a path whose parent directory or whose symlinked leaf resolves outside
the configuration directory.
-/
def refuseEscapingPath (path : Path) : StoreProgram Unit := do
  match ← canonical store.configDir with
  | none => return ()
  | some root => do
      refuseParent root path
      refuseLeaf root path

/-! ### Reading -/

def readFragmentBody (path : Path) : StoreProgram (Option Text) := do
  store.refuseEscapingPath path
  match ← readAndSplit path with
  | none => return none
  | some (content, parts) => return some (fragmentBody saphyr content parts)

def read (level : Level) : StoreProgram (Option Node) := do
  let path := store.configPath level
  store.refuseEscapingPath path
  match ← readAndSplit path with
  | none => return none
  | some (_, parts) =>
      match parseFrontmatter saphyr parts.frontmatter with
      | .ok node => return some node
      | .error detail => throw (malformed path detail)

def readBody (source : FragmentSource) (level : Level) :
    StoreProgram LevelBody := do
  let path := store.fragmentPath source level
  let body ← store.readFragmentBody saphyr path
  return { path := store.relative path, body }

def locate (source : FragmentSource) : SourceLocation :=
  { root := store.root.display
    paths := [Level.team, Level.personal].map fun level =>
      store.relative (store.fragmentPath source level) }

/-! ### Writing -/

/-- Remove the scratch file, whatever comes of it, and fail. -/
def discard {α : Type} (temp : Path) (error : ConfigError) :
    StoreProgram α := do
  let _ ← invoke (.removeFile temp)
  throw error

def replaceBy (target : Path) (contents : Text) (temp : Path) :
    StoreProgram Unit := do
  match ← ExceptT.lift (writeFile temp (encode contents)) with
  | .error error => discard temp (ioError temp error)
  | .ok () =>
      match ← invoke (.rename temp target) with
      | .error error => discard temp (ioError target error)
      | .ok () => return ()

def atomicWrite (target : Path) (contents : Text) : StoreProgram Unit := do
  match ← ExceptT.lift (createDirAll store.tempDir) with
  | .error error => throw (ioError store.tempDir error)
  | .ok () => do
      let process ← invoke .processId
      let count ← invoke .fetchAdd
      replaceBy target contents (store.tempPath process count)

def write (level : Level) (document : Node) : StoreProgram Unit := do
  let path := store.configPath level
  store.refuseEscapingPath path
  let existing ← readExisting path
  match render saphyr existing document with
  | .error detail => throw (malformed path detail)
  | .ok rendered => store.atomicWrite path rendered

/-- The store behind the core's reading and writing ports. -/
def service : ConfigService HostProgram where
  reader := { read := store.read saphyr }
  writer := { write := store.write saphyr }

/-! ### Where the paths lie -/

theorem configDir_eq :
    store.configDir = store.root.child ".luminosity".toList :=
  join_plain _ (by decide)

theorem configPath_eq (level : Level) :
    store.configPath level =
      store.configDir.child
        ("config".toList ++ level.qualifier ++ ".md".toList) :=
  join_plain _ (by cases level <;> decide)

theorem tempDir_eq :
    store.tempDir = store.configDir.child "tmp".toList :=
  join_plain _ (by decide)

theorem plain_tempName (process : UInt32) (count : UInt64) :
    Plain (tempName process count) := by
  have long : 7 ≤ (tempName process count).length := by
    unfold tempName
    rw [List.append_assoc, List.append_assoc, List.append_assoc,
      List.length_append]
    exact Nat.le_add_right 7 _
  have noSlash := @notMem_decimal '/' (by decide)
  refine ⟨?_, ?_, ?_, ?_⟩
  · intro equal
    exact absurd (equal ▸ long) (by decide)
  · intro equal
    exact absurd (equal ▸ long) (by decide)
  · intro equal
    exact absurd (equal ▸ long) (by decide)
  · unfold tempName
    simp only [List.mem_append, not_or]
    exact ⟨⟨⟨⟨by decide, noSlash _⟩, by decide⟩, noSlash _⟩, by decide⟩

theorem tempPath_eq (process : UInt32) (count : UInt64) :
    store.tempPath process count =
      store.tempDir.child (tempName process count) :=
  join_plain _ (plain_tempName process count)

/-- The name of a scratch file determines who numbered it, and how. -/
theorem tempName_injective
    {process otherProcess : UInt32} {count otherCount : UInt64}
    (equal : tempName process count = tempName otherProcess otherCount) :
    process = otherProcess ∧ count = otherCount := by
  have numerals :
      decimal process.toNat ++ '-' ::
          (decimal count.toNat ++ ".tmp".toList) =
        decimal otherProcess.toNat ++ '-' ::
          (decimal otherCount.toNat ++ ".tmp".toList) := by
    unfold tempName at equal
    simp only [List.append_assoc] at equal
    exact List.append_cancel_left equal
  have noDash := @notMem_decimal '-' (by decide)
  rcases append_cons_inj_first (noDash _) (noDash _) numerals with
    ⟨processes, rest⟩
  have counts := List.append_cancel_right rest
  exact ⟨UInt32.toNat_inj.mp (decimal_injective processes),
    UInt64.toNat_inj.mp (decimal_injective counts)⟩

theorem tempPath_injective
    {process otherProcess : UInt32} {count otherCount : UInt64}
    (equal :
      store.tempPath process count =
        store.tempPath otherProcess otherCount) :
    process = otherProcess ∧ count = otherCount := by
  rw [tempPath_eq, tempPath_eq] at equal
  exact tempName_injective (child_injective equal).2

/-- No scratch file is a level's file. -/
theorem tempPath_ne_configPath
    (process : UInt32) (count : UInt64) (level : Level) :
    store.tempPath process count ≠ store.configPath level := by
  intro equal
  have lengths := congrArg (fun path => path.components.length) equal
  simp [tempPath_eq, tempDir_eq, configPath_eq] at lengths

/-! ### The calls of each operation -/

section Calls

variable {allowed : Call → Prop}

theorem asks_canonical
    {path : Path} (resolves : allowed (.canonicalize path)) :
    Asks allowed (canonical path).run := by
  apply Asks.run_bind
  · exact (asks_invoke _).mpr resolves
  · intro answer
    cases answer with
    | ok resolved => trivial
    | error error =>
        simp only
        split_ifs <;> trivial

theorem asks_isSymlink
    {path : Path} (looks : allowed (.symlinkMetadata path)) :
    Asks allowed (isSymlink path).run := by
  apply Asks.run_bind
  · exact (asks_invoke _).mpr looks
  · intro answer
    cases answer with
    | ok fileType => trivial
    | error error =>
        simp only
        split_ifs <;> trivial

theorem asks_refuseOutside
    (root path : Path) {looked : Path}
    (resolves : allowed (.canonicalize looked)) :
    Asks allowed (refuseOutside root path looked).run := by
  apply Asks.run_bind (asks_canonical resolves)
  intro resolved
  cases resolved with
  | none => trivial
  | some resolved =>
      simp only
      split_ifs <;> trivial

/-- The containment check looks at the path and the directories above it. -/
theorem asks_refuseEscapingPath
    {path : Path}
    (root : allowed (.canonicalize store.configDir))
    (above : ∀ parent, path.parent = some parent →
      allowed (.canonicalize parent))
    (looks : allowed (.symlinkMetadata path))
    (resolves : allowed (.canonicalize path)) :
    Asks allowed (store.refuseEscapingPath path).run := by
  apply Asks.run_bind (asks_canonical root)
  intro home
  cases home with
  | none => trivial
  | some home =>
      apply Asks.run_bind
      · rw [refuseParent]
        cases isParent : path.parent with
        | none => trivial
        | some parent =>
            exact asks_refuseOutside home path (above parent isParent)
      intro _
      apply Asks.run_bind (asks_isSymlink looks)
      intro link
      cases link with
      | false => trivial
      | true => exact asks_refuseOutside home path resolves

theorem asks_readAndSplit
    {path : Path} (reads : allowed (.read path)) :
    Asks allowed (readAndSplit path).run := by
  apply Asks.run_bind
  · apply Asks.run_bind (asks_readToString reads).run_lift
    intro answer
    cases answer with
    | ok content => trivial
    | error error =>
        simp only
        split_ifs <;> trivial
  intro content
  cases content with
  | none => trivial
  | some content =>
      simp only
      cases split content <;> trivial

end Calls

end FileConfigStore

end Luminosity.Adapters.Store
