import Luminosity.Adapters.StoreProse
import Luminosity.Host.TreeHost

/-!
# Containment of reads

The store refuses a document whose parent directory, or whose symlinked leaf,
resolves outside the canonical configuration directory.  A file which no check
refuses is inside, because a leaf which is no link stays in its parent, and a
path which cannot be resolved names no file.

Specifications are over the tree of files.  An operation which only looks
either finds something or fails, and on a dependable host it fails only where
the lookup itself cannot end.
-/

namespace Luminosity.Adapters.StoreContainment

open Luminosity.Foundation.TextSegments
open Luminosity.Foundation.EffectPrograms
open Luminosity.Config.Domain
open Luminosity.Host.Paths
open Luminosity.Host.Calls
open Luminosity.Host.FileTree
open Luminosity.Host.TreeHost
open Luminosity.Adapters.Frontmatter
open Luminosity.Adapters.Document
open Luminosity.Adapters.Store
open Luminosity.Adapters.Store.FileConfigStore
open Luminosity.Adapters.StoreDocuments
open Luminosity.Adapters.StoreProse

variable {α β : Type}

/-! ## Inside and outside -/

section Containment

variable (workdir : Location) (tree : Tree) (store : FileConfigStore)

/-- Inside the canonical configuration directory. -/
def Contained (location : Location) : Prop :=
  ∃ home, Resolves workdir tree store.configDir (.present home) ∧
    home <+: location

/-- The last component of the path is a symbolic link. -/
def SymlinkAt (path : Path) : Prop :=
  ∃ parent name target, Names workdir tree path parent name ∧
    tree.entry (parent ++ [name]) = some (.link target)

/-- The path resolves to a location which is not inside. -/
def Escapes (path : Path) : Prop :=
  ∃ location, Resolves workdir tree path (.present location) ∧
    ¬ Contained workdir tree store location

/-- The parent directory or the symlinked leaf of the path is not inside. -/
def Outside (path : Path) : Prop :=
  (∃ parent, path.parent = some parent ∧ Escapes workdir tree store parent) ∨
    (SymlinkAt workdir tree path ∧ Escapes workdir tree store path)

/-- The path leads through the configuration directory to a name. -/
def Below (path : Path) : Prop :=
  ∃ (parent : Path) (name : Text) (names : List Component),
    path = parent.child name ∧
      parent.absolute = store.configDir.absolute ∧
        parent.components = store.configDir.components ++ names

end Containment

section PathRule

variable (store : FileConfigStore)

theorem below_configPath (level : Level) :
    Below store (store.configPath level) :=
  ⟨store.configDir, _, [], store.configPath_eq level, rfl, by simp⟩

theorem plain_skillName (name : SkillName) : Plain name.text := by
  have notPermitted (character : Char)
      (refused : permitted character = false) : character ∉ name.text := by
    intro member
    rw [name.allowed character member] at refused
    cases refused
  have noDot := notPermitted '.' (by decide)
  refine ⟨name.nonempty, ?_, ?_, notPermitted '/' (by decide)⟩
  · intro equal
    exact noDot (equal ▸ List.mem_singleton_self _)
  · intro equal
    exact noDot (equal ▸ List.mem_cons_self)

theorem skillDir_eq (name : SkillName) :
    store.skillDir name =
      (store.configDir.child "skills".toList).child name.text := by
  rw [FileConfigStore.skillDir, join_plain _ (plain_skillName name),
    join_plain _ (by decide)]

theorem below_skillFile
    (name : SkillName) {file : Text} (plain : Plain file) :
    Below store ((store.skillDir name).join file) := by
  refine ⟨store.skillDir name, file,
    [.normal "skills".toList, .normal name.text], join_plain _ plain, ?_, ?_⟩
  · rw [skillDir_eq]
    rfl
  · rw [skillDir_eq, child_components, child_components, List.append_assoc]
    rfl

theorem below_fragmentPath (source : FragmentSource) (level : Level) :
    Below store (store.fragmentPath source level) := by
  cases source with
  | projectContext => exact below_configPath store level
  | skillContext name =>
      show Below store ((store.skillDir name).join
        ("context".toList ++ level.qualifier ++ ".md".toList))
      apply below_skillFile
      cases level <;> decide
  | skillInstructions name =>
      show Below store ((store.skillDir name).join
        ("instructions".toList ++ level.qualifier ++ ".md".toList))
      apply below_skillFile
      cases level <;> decide

end PathRule

/-! ## What a lookup in the tree says -/

section Lookups

variable {workdir : Location} {tree : Tree} {store : FileConfigStore}
variable {path : Path} {location : Location}

theorem names_deterministic
    {parent other : Location} {name otherName : Text}
    (names : Names workdir tree path parent name)
    (otherwise : Names workdir tree path other otherName) :
    parent = other ∧ name = otherName := by
  rcases names with ⟨front, whole, walks, _⟩
  rcases otherwise with ⟨_, again, otherWalks, _⟩
  rw [whole] at again
  rcases List.append_inj' again rfl with ⟨rfl, last⟩
  cases last
  cases walks.deterministic otherWalks
  exact ⟨rfl, rfl⟩

theorem not_missing_of_resolves
    (resolves : Resolves workdir tree path (.present location)) :
    ¬ Missing workdir tree path := by
  rintro ⟨parent, name, rest, walks⟩
  cases Walks.deterministic resolves walks

/-- An entry which is not there is no symbolic link. -/
theorem not_symlinkAt_of_unnamed (unnamed : Unnamed workdir tree path) :
    ¬ SymlinkAt workdir tree path := by
  rintro ⟨parent, name, target, names, linked⟩
  rcases unnamed with
    ⟨front, last, _, _, _, whole, walks⟩ | ⟨_, _, otherwise, vacant⟩
  · rcases names with ⟨otherFront, again, arrives, _⟩
    rw [whole] at again
    rcases List.append_inj' again rfl with ⟨rfl, _⟩
    cases walks.deterministic arrives
  · rcases names_deterministic names otherwise with ⟨rfl, rfl⟩
    rw [vacant] at linked
    cases linked

/-- A path which walks one name below a location starts in a directory. -/
theorem directory_of_walks
    {parent : Location} {name : Text} {found : Found}
    (walks : Walks tree parent [.normal name] found) :
    tree.entry parent = some .directory := by
  cases walks with
  | enter present _ _ => exact tree.closed parent name (by simp [present])
  | follow linked _ => exact tree.closed parent name (by simp [linked])
  | miss inside _ => exact inside

/-- Nothing outside the directory is below it. -/
theorem resolves_configDir
    (below : Below store path) {found : Found}
    (resolves : Resolves workdir tree path found) :
    (∃ home, Resolves workdir tree store.configDir (.present home)) ∨
      Missing workdir tree store.configDir := by
  rcases below with ⟨parent, name, names, rfl, sameRoot, longer⟩
  rw [Resolves, child_components, longer, List.append_assoc] at resolves
  have start :
      origin (parent.child name) workdir = origin store.configDir workdir := by
    rw [origin, origin, child_absolute, sameRoot]
  rw [start] at resolves
  rcases resolves.split with
    ⟨home, walks, _⟩ | ⟨above, missed, rest, walks, _⟩
  · exact Or.inl ⟨home, walks⟩
  · exact Or.inr ⟨above, missed, rest, walks⟩

/-- A path below a directory which is missing is missing. -/
theorem missing_below
    (absent : Missing workdir tree store.configDir)
    (below : Below store path) :
    Missing workdir tree path ∧
      ∀ parent, path.parent = some parent → Missing workdir tree parent := by
  rcases below with ⟨parent, name, names, rfl, sameRoot, longer⟩
  rcases absent with ⟨above, missed, rest, walks⟩
  have start :
      origin parent workdir = origin store.configDir workdir := by
    rw [origin, origin, sameRoot]
  have parentMissing : Missing workdir tree parent := by
    refine ⟨above, missed, rest ++ names, ?_⟩
    rw [Resolves, longer, start]
    exact walks.missing_append names
  refine ⟨missing_child parentMissing name, ?_⟩
  intro other same
  rw [parent_child] at same
  cases same
  exact parentMissing

/-- A file which is not outside is inside. -/
theorem contained_of_not_outside
    (below : Below store path)
    (notOutside : ¬ Outside workdir tree store path)
    (resolves : Resolves workdir tree path (.present location)) :
    Contained workdir tree store location := by
  rcases below with ⟨parent, name, _, rfl, _, _⟩
  rcases resolves_child_cases resolves with
    ⟨above, arrives, onward⟩ | ⟨_, _, _, _, ends⟩
  swap
  · cases ends
  have directory := directory_of_walks onward
  cases onward with
  | enter present notLink rest =>
      cases rest
      have aboveContained : Contained workdir tree store above := by
        by_contra escapes
        exact notOutside
          (Or.inl ⟨parent, parent_child parent name, above, arrives, escapes⟩)
      rcases aboveContained with ⟨home, homeResolves, isPrefix⟩
      exact ⟨home, homeResolves, isPrefix.trans (List.prefix_append _ _)⟩
  | follow linked rest =>
      by_contra escapes
      have symlink : SymlinkAt workdir tree (parent.child name) :=
        ⟨above, name, _, names_child.mpr ⟨rfl, arrives, directory⟩, linked⟩
      exact notOutside (Or.inr ⟨symlink, location, resolves, escapes⟩)

theorem not_outside_of_missing
    (absent : Missing workdir tree store.configDir)
    (below : Below store path) :
    ¬ Outside workdir tree store path := by
  rcases missing_below absent below with ⟨pathMissing, parentMissing⟩
  rintro (⟨parent, above, location, resolves, _⟩ |
    ⟨_, location, resolves, _⟩)
  · exact not_missing_of_resolves resolves (parentMissing parent above)
  · exact not_missing_of_resolves resolves pathMissing

/-- In the configuration directory itself only links lead outside. -/
theorem not_outside_child
    {home : Location} {name : Text}
    (homeFound : Resolves workdir tree store.configDir (.present home))
    (leaf : ¬ (SymlinkAt workdir tree (store.configDir.child name) ∧
      Escapes workdir tree store (store.configDir.child name))) :
    ¬ Outside workdir tree store (store.configDir.child name) := by
  rintro (⟨parent, above, place, resolves, escapes⟩ | linked)
  · rw [parent_child] at above
    cases above
    cases Walks.deterministic homeFound resolves
    exact escapes ⟨home, homeFound, List.prefix_refl home⟩
  · exact leaf linked

theorem startsWith_located (home location : Location) :
    (located location).startsWith (located home) = true ↔
      home <+: location := by
  simp [Path.startsWith, located,
    List.prefix_map_iff_of_injective normal_injective]

end Lookups

/-! ## Operations which only look -/

/-- An error of the host other than a missing file. -/
def Faulted : ConfigError → Prop
  | .io _ _ => True
  | _ => False

section Specifications

variable (setting : Setting) (world : World)

/-- The operation changes nothing, and finds or fails as described. -/
def Finds (program : StoreProgram α) (found : α → Prop)
    (failed : ConfigError → Prop) : Prop :=
  Ensures (calls setting) program.run
    (onOk (fun value after => after = world ∧ found value)
      fun error after => after = world ∧ failed error)
    world

/-- A fault which a dependable host has only where the lookup cannot end. -/
def Unsettled (settled : Prop) (error : ConfigError) : Prop :=
  Faulted error ∧ (setting.dependable = true → ¬ settled)

/-- What canonicalising a path may find. -/
def Canonical (path : Path) : Option Path → Prop
  | some resolved => ∃ location,
      Resolves setting.workdir world.tree path (.present location) ∧
        resolved = located location
  | none => Missing setting.workdir world.tree path

/-- What reading a file may find. -/
def Content (path : Path) : Option Text → Prop
  | some content => ∃ location bytes,
      Resolves setting.workdir world.tree path (.present location) ∧
        world.tree.entry location = some (.file bytes) ∧
          decode bytes = some content
  | none => Missing setting.workdir world.tree path

variable {setting world}

theorem Finds.pure
    {found : α → Prop} {failed : ConfigError → Prop} {value : α}
    (holds : found value) :
    Finds setting world (Pure.pure value) found failed :=
  ⟨rfl, holds⟩

theorem Finds.throw
    {found : α → Prop} {failed : ConfigError → Prop} {error : ConfigError}
    (holds : failed error) :
    Finds setting world (MonadExceptOf.throw error) found failed :=
  ⟨rfl, holds⟩

theorem Finds.bind
    {program : StoreProgram α} {next : α → StoreProgram β}
    {middle : α → Prop} {found : β → Prop} {failed : ConfigError → Prop}
    (first : Finds setting world program middle failed)
    (rest : ∀ value, middle value →
      Finds setting world (next value) found failed) :
    Finds setting world (program >>= next) found failed := by
  apply Ensures.run_bind first
  · rintro value after ⟨rfl, holds⟩
    exact rest value holds
  · intro error after outcome
    exact outcome

theorem Finds.mono
    {program : StoreProgram α} {found weaker : α → Prop}
    {failed weakerFailed : ConfigError → Prop}
    (finds : Finds setting world program found failed)
    (weaken : ∀ value, found value → weaker value)
    (weakenFailed : ∀ error, failed error → weakerFailed error) :
    Finds setting world program weaker weakerFailed := by
  apply Ensures.mono finds
  intro result after outcome
  cases result with
  | ok value => exact ⟨outcome.1, weaken value outcome.2⟩
  | error error => exact ⟨outcome.1, weakenFailed error outcome.2⟩

theorem finds_canonical (path : Path) :
    Finds setting world (canonical path) (Canonical setting world path)
      (Unsettled setting
        (∃ found, Resolves setting.workdir world.tree path found)) := by
  rw [Finds, canonical, ensures_invoke_bind]
  intro answer after step
  cases answer with
  | ok resolved =>
      rcases step with ⟨rfl, location, resolves, same⟩
      exact ⟨rfl, location, resolves, same⟩
  | error error =>
      rcases step with ⟨rfl, honest, dependable⟩
      simp only
      split_ifs with absent
      · exact ⟨rfl, honest absent⟩
      · refine ⟨rfl, trivial, ?_⟩
        rintro certain ⟨found, resolves⟩
        rcases dependable certain with ⟨impossible, reported⟩
        cases found with
        | present location =>
            exact impossible _ _ ⟨rfl, location, resolves, rfl⟩
        | missing parent name rest =>
            exact absent (reported ⟨parent, name, rest, resolves⟩)

theorem finds_isSymlink (path : Path) :
    Finds setting world (isSymlink path)
      (fun link => link = true ↔ SymlinkAt setting.workdir world.tree path)
      (Unsettled setting
        (Astray setting.workdir world.tree path ∨
          ∃ parent name,
            Names setting.workdir world.tree path parent name)) := by
  rw [Finds, isSymlink, ensures_invoke_bind]
  intro answer after step
  cases answer with
  | ok fileType =>
      rcases step with ⟨rfl, parent, name, entry, names, present, rfl⟩
      refine ⟨rfl, ?_⟩
      rw [decide_eq_true_iff]
      constructor
      · intro symlink
        cases entry with
        | link target => exact ⟨parent, name, target, names, present⟩
        | directory => cases symlink
        | file bytes => cases symlink
      · rintro ⟨_, _, target, otherwise, linked⟩
        rcases names_deterministic names otherwise with ⟨rfl, rfl⟩
        rw [present] at linked
        cases linked
        rfl
  | error error =>
      rcases step with ⟨rfl, honest, dependable⟩
      simp only
      split_ifs with absent
      · refine ⟨rfl, ?_⟩
        constructor
        · rintro ⟨⟩
        · intro symlink
          exact absurd symlink
            (not_symlinkAt_of_unnamed (honest absent))
      · refine ⟨rfl, trivial, ?_⟩
        intro certain settled
        rcases dependable certain with ⟨impossible, reported⟩
        rcases settled with astray | ⟨parent, name, names⟩
        · exact absent (reported (Or.inl astray))
        · cases present : after.tree.entry (parent ++ [name]) with
          | none =>
              exact absent (reported (Or.inr ⟨parent, name, names, present⟩))
          | some entry =>
              exact impossible _ _
                ⟨rfl, parent, name, entry, names, present, rfl⟩

theorem finds_readExisting (path : Path) :
    Finds setting world (readExisting path) (Content setting world path)
      (Unsettled setting
        (∃ existing, Content setting world path existing)) := by
  rw [Finds, readExisting, ensures_run_bind, ensures_run_lift,
    ensures_readToString]
  intro answer after step
  cases answer with
  | ok bytes =>
      rcases step with ⟨rfl, location, resolves, file⟩
      cases decoded : decode bytes with
      | some content =>
          simp only [textOf, decoded, onOk_ok]
          exact ⟨rfl, location, bytes, resolves, file, decoded⟩
      | none =>
          simp only [textOf, decoded, onOk_ok]
          refine ⟨rfl, trivial, ?_⟩
          rintro _ ⟨existing, holds⟩
          cases existing with
          | none => exact not_missing_of_resolves resolves holds
          | some content =>
              rcases holds with ⟨_, _, again, otherFile, valid⟩
              cases Walks.deterministic resolves again
              rw [file] at otherFile
              cases otherFile
              rw [decoded] at valid
              cases valid
  | error error =>
      rcases step with ⟨rfl, honest, dependable⟩
      simp only [textOf, onOk_ok]
      split_ifs with absent
      · exact ⟨rfl, honest absent⟩
      · refine ⟨rfl, trivial, ?_⟩
        rintro certain ⟨existing, holds⟩
        rcases dependable certain with ⟨impossible, reported⟩
        cases existing with
        | none => exact absent (reported holds)
        | some content =>
            rcases holds with ⟨location, bytes, resolves, file, _⟩
            exact impossible _ _ ⟨rfl, location, resolves, file⟩

/-! ### The containment check -/

variable {store : FileConfigStore} {path : Path}

theorem contained_iff
    {home location : Location}
    (resolved :
      Resolves setting.workdir world.tree store.configDir (.present home)) :
    Contained setting.workdir world.tree store location ↔
      home <+: location := by
  constructor
  · rintro ⟨_, otherwise, isPrefix⟩
    cases Walks.deterministic resolved otherwise
    exact isPrefix
  · intro isPrefix
    exact ⟨home, resolved, isPrefix⟩

/-- A path which does not escape passes, and one which does is refused. -/
theorem finds_refuseOutside
    {home : Location}
    (resolved :
      Resolves setting.workdir world.tree store.configDir (.present home))
    (path looked : Path) :
    Finds setting world (refuseOutside (located home) path looked)
      (fun _ => ¬ Escapes setting.workdir world.tree store looked)
      (fun error =>
        (error = unsafePath path ∧
          Escapes setting.workdir world.tree store looked) ∨
          Unsettled setting
            (∃ found, Resolves setting.workdir world.tree looked found)
            error) := by
  apply ((finds_canonical looked).mono (fun _ => id) fun _ => Or.inr).bind
  intro found canonical
  cases found with
  | none =>
      apply Finds.pure
      rintro ⟨location, resolves, _⟩
      exact not_missing_of_resolves resolves canonical
  | some other =>
      rcases canonical with ⟨location, resolves, rfl⟩
      simp only
      split_ifs with inside
      · apply Finds.pure
        rintro ⟨_, again, escapes⟩
        cases Walks.deterministic resolves again
        exact escapes ((contained_iff resolved).mpr
          ((startsWith_located home location).mp inside))
      · apply Finds.throw
        refine Or.inl ⟨rfl, location, resolves, ?_⟩
        intro contained
        exact inside ((startsWith_located home location).mpr
          ((contained_iff resolved).mp contained))

/-- The errors of the containment check. -/
def Refused (setting : Setting) (world : World) (store : FileConfigStore)
    (path : Path) (error : ConfigError) : Prop :=
  (error = unsafePath path ∧
    Outside setting.workdir world.tree store path) ∨
    Unsettled setting
      (∃ found, Resolves setting.workdir world.tree path found) error

/-- What resolves below a directory resolves its parent first. -/
theorem resolves_parent
    {parent : Path} {name : Text} {found : Found}
    (resolves : Resolves setting.workdir world.tree (parent.child name) found) :
    (∃ above, Resolves setting.workdir world.tree parent (.present above) ∧
      Names setting.workdir world.tree (parent.child name) above name) ∨
        Missing setting.workdir world.tree parent := by
  rcases resolves_child_cases resolves with
    ⟨above, arrives, onward⟩ | ⟨above, missed, rest, walks, _⟩
  · exact Or.inl ⟨above, arrives,
      names_child.mpr ⟨rfl, arrives, directory_of_walks onward⟩⟩
  · exact Or.inr ⟨above, missed, rest, walks⟩

theorem finds_refuseParent
    {home : Location} (below : Below store path)
    (resolved :
      Resolves setting.workdir world.tree store.configDir (.present home)) :
    Finds setting world (refuseParent (located home) path)
      (fun _ => ∀ parent, path.parent = some parent →
        ¬ Escapes setting.workdir world.tree store parent)
      (Refused setting world store path) := by
  rcases below with ⟨parent, name, _, rfl, _⟩
  rw [refuseParent, parent_child]
  apply (finds_refuseOutside resolved _ parent).mono
  · rintro _ inside other ⟨⟩
    exact inside
  · rintro error (⟨rfl, escapes⟩ | ⟨faulted, unsettled⟩)
    · exact Or.inl ⟨rfl, Or.inl ⟨parent, parent_child parent name, escapes⟩⟩
    · refine Or.inr ⟨faulted, ?_⟩
      rintro certain ⟨found, resolves⟩
      apply unsettled certain
      rcases resolves_parent resolves with
        ⟨above, arrives, _⟩ | ⟨above, missed, rest, walks⟩
      · exact ⟨_, arrives⟩
      · exact ⟨_, walks⟩

theorem finds_refuseLeaf
    {home : Location} (below : Below store path)
    (resolved :
      Resolves setting.workdir world.tree store.configDir (.present home)) :
    Finds setting world (refuseLeaf (located home) path)
      (fun _ => ¬ (SymlinkAt setting.workdir world.tree path ∧
        Escapes setting.workdir world.tree store path))
      (Refused setting world store path) := by
  have looked :
      Finds setting world (isSymlink path)
        (fun link =>
          link = true ↔ SymlinkAt setting.workdir world.tree path)
        (Refused setting world store path) := by
    apply (finds_isSymlink path).mono fun _ => id
    rintro error ⟨faulted, unsettled⟩
    refine Or.inr ⟨faulted, ?_⟩
    rintro certain ⟨found, resolves⟩
    apply unsettled certain
    rcases below with ⟨parent, name, _, rfl, _⟩
    rcases resolves_parent resolves with ⟨above, _, names⟩ | absent
    · exact Or.inr ⟨above, name, names⟩
    · exact Or.inl (astray_child.mpr absent)
  apply looked.bind
  intro link symlink
  cases link with
  | false =>
      apply Finds.pure
      rintro ⟨linked, _⟩
      cases symlink.mpr linked
  | true =>
      apply (finds_refuseOutside resolved path path).mono
      · rintro _ inside ⟨_, escapes⟩
        exact inside escapes
      · rintro error (⟨rfl, escapes⟩ | unsettled)
        · exact Or.inl ⟨rfl, Or.inr ⟨symlink.mp rfl, escapes⟩⟩
        · exact Or.inr unsettled

/-- The check passes exactly the paths which are not outside. -/
theorem finds_refuseEscapingPath (below : Below store path) :
    Finds setting world (store.refuseEscapingPath path)
      (fun _ => ¬ Outside setting.workdir world.tree store path)
      (Refused setting world store path) := by
  have rooted :
      Finds setting world (canonical store.configDir)
        (Canonical setting world store.configDir)
        (Refused setting world store path) := by
    apply (finds_canonical store.configDir).mono fun _ => id
    rintro error ⟨faulted, unsettled⟩
    refine Or.inr ⟨faulted, ?_⟩
    rintro certain ⟨found, resolves⟩
    apply unsettled certain
    rcases resolves_configDir below resolves with
      ⟨home, walks⟩ | ⟨above, missed, rest, walks⟩
    · exact ⟨_, walks⟩
    · exact ⟨_, walks⟩
  apply rooted.bind
  intro root canonical
  cases root with
  | none => exact Finds.pure (not_outside_of_missing canonical below)
  | some root =>
      rcases canonical with ⟨home, resolved, rfl⟩
      apply (finds_refuseParent below resolved).bind
      intro _ parentInside
      apply (finds_refuseLeaf below resolved).mono
      · rintro _ leafInside (⟨parent, above, escapes⟩ | leaf)
        · exact parentInside parent above escapes
        · exact leafInside leaf
      · exact fun _ => id

/-! ### Reading -/

/-- The path leads to a file with this content, which no check refuses. -/
structure ReadInside (setting : Setting) (world : World)
    (store : FileConfigStore) (path : Path) (content : Text) : Prop where
  notOutside : ¬ Outside setting.workdir world.tree store path
  found : ∃ location bytes,
    Resolves setting.workdir world.tree path (.present location) ∧
      world.tree.entry location = some (.file bytes) ∧
        decode bytes = some content ∧
          Contained setting.workdir world.tree store location

/-- The errors of an operation on a document, and what they say. -/
def ReadFailed (setting : Setting) (world : World)
    (store : FileConfigStore) (path : Path) (error : ConfigError) : Prop :=
  Faulted error ∨
    (error = unsafePath path ↔
      Outside setting.workdir world.tree store path)

theorem Refused.readFailed
    {error : ConfigError} (refused : Refused setting world store path error) :
    ReadFailed setting world store path error := by
  rcases refused with ⟨same, outside⟩ | unsettled
  · exact Or.inr (iff_of_true same outside)
  · exact Or.inl unsettled.1

theorem readFailed_malformed
    (notOutside : ¬ Outside setting.workdir world.tree store path)
    (detail : Text) :
    ReadFailed setting world store path (malformed path detail) := by
  refine Or.inr (iff_of_false ?_ notOutside)
  rintro ⟨⟩

/-- A document read behind the containment check. -/
theorem finds_checked (below : Below store path) :
    Finds setting world
      (store.refuseEscapingPath path >>= fun _ => readAndSplit path)
      (fun found =>
        ¬ Outside setting.workdir world.tree store path ∧
          ∀ content parts, found = some (content, parts) →
            split content = .ok parts ∧
              ReadInside setting world store path content)
      (ReadFailed setting world store path) := by
  have checked := @finds_refuseEscapingPath setting world store path below
  apply (checked.mono (fun _ => id) fun _ => Refused.readFailed).bind
  intro _ notOutside
  have existing :
      Finds setting world (readExisting path) (Content setting world path)
        (ReadFailed setting world store path) :=
    (finds_readExisting path).mono (fun _ => id)
      fun _ unsettled => Or.inl unsettled.1
  apply existing.bind
  intro found content
  cases found with
  | none =>
      apply Finds.pure
      refine ⟨notOutside, ?_⟩
      rintro content parts ⟨⟩
  | some text =>
      rcases content with ⟨location, bytes, resolves, file, decoded⟩
      simp only
      cases divided : split text with
      | error detail =>
          exact Finds.throw (readFailed_malformed notOutside detail)
      | ok parts =>
          apply Finds.pure
          refine ⟨notOutside, ?_⟩
          rintro _ _ ⟨⟩
          exact ⟨divided, notOutside, location, bytes, resolves, file, decoded,
            contained_of_not_outside below notOutside resolves⟩

end Specifications

/-- A result of reading, and the content it is computed from. -/
structure SafeRead (setting : Setting) (world : World)
    (store : FileConfigStore) (path : Path) (result : Except ConfigError α)
    (returned : Prop) (computed : Text → Prop) : Prop where
  inside : returned → ∃ content,
    ReadInside setting world store path content ∧ computed content
  refused : (∀ error, result = .error error → ¬ Faulted error) →
    (result = .error (unsafePath path) ↔
      Outside setting.workdir world.tree store path)

theorem SafeRead.of_failed
    {setting : Setting} {world : World} {store : FileConfigStore}
    {path : Path} {error : ConfigError} {returned : Prop}
    {computed : Text → Prop} (nothing : ¬ returned)
    (failed : ReadFailed setting world store path error) :
    SafeRead setting world store path
      (.error error : Except ConfigError α) returned computed where
  inside found := absurd found nothing
  refused unfaulted := by
    rw [Except.error.injEq]
    exact failed.resolve_left (unfaulted error rfl)

theorem SafeRead.of_ok
    {setting : Setting} {world : World} {store : FileConfigStore}
    {path : Path} {value : α} {returned : Prop} {computed : Text → Prop}
    (notOutside : ¬ Outside setting.workdir world.tree store path)
    (inside : returned → ∃ content,
      ReadInside setting world store path content ∧ computed content) :
    SafeRead setting world store path
      (.ok value : Except ConfigError α) returned computed where
  inside := inside
  refused _ := iff_of_false (by rintro ⟨⟩) notOutside

theorem Finds.of_run
    {setting : Setting} {world after : World} {program : StoreProgram α}
    {found : α → Prop} {failed : ConfigError → Prop}
    {result : Except ConfigError α}
    (finds : Finds setting world program found failed)
    (runs : Runs (calls setting) program.run world result after) :
    (∃ value, result = .ok value ∧ found value) ∨
      ∃ error, result = .error error ∧ failed error := by
  have outcome := Ensures.of_run finds runs
  cases result with
  | ok value => exact Or.inl ⟨value, rfl, outcome.2⟩
  | error error => exact Or.inr ⟨error, rfl, outcome.2⟩

section Reading

variable {setting : Setting} {world : World} {store : FileConfigStore}

theorem finds_read (saphyr : Saphyr) (level : Level) :
    Finds setting world (store.read saphyr level)
      (fun found =>
        ¬ Outside setting.workdir world.tree store (store.configPath level) ∧
          ∀ node, found = some node → ∃ content,
            ReadInside setting world store (store.configPath level) content ∧
              documentOf saphyr (store.configPath level) (some content) =
                .ok (some node))
      (ReadFailed setting world store (store.configPath level)) := by
  have checked :=
    @finds_checked setting world store _ (below_configPath store level)
  rw [FileConfigStore.read, ← bind_assoc]
  apply checked.bind
  rintro found ⟨notOutside, holds⟩
  cases found with
  | none =>
      apply Finds.pure
      refine ⟨notOutside, ?_⟩
      rintro node ⟨⟩
  | some read =>
      rcases read with ⟨content, parts⟩
      rcases holds content parts rfl with ⟨divided, inside⟩
      simp only
      cases parsed : parseFrontmatter saphyr parts.frontmatter with
      | error detail =>
          exact Finds.throw (readFailed_malformed notOutside detail)
      | ok node =>
          apply Finds.pure
          refine ⟨notOutside, ?_⟩
          rintro _ ⟨⟩
          exact ⟨content, inside, documentOf_parses _ ⟨divided, parsed⟩⟩

theorem finds_readBody
    (saphyr : Saphyr) (source : FragmentSource) (level : Level) :
    Finds setting world (store.readBody saphyr source level)
      (fun found =>
        ¬ Outside setting.workdir world.tree store
            (store.fragmentPath source level) ∧
          ∀ body, found.body = some body → ∃ content,
            ReadInside setting world store (store.fragmentPath source level)
                content ∧
              fragmentOf saphyr (store.fragmentPath source level)
                (some content) = .ok (some body))
      (ReadFailed setting world store (store.fragmentPath source level)) := by
  have checked :=
    @finds_checked setting world store _
      (below_fragmentPath store source level)
  rw [FileConfigStore.readBody, FileConfigStore.readFragmentBody,
    ← bind_assoc, bind_assoc]
  apply checked.bind
  rintro found ⟨notOutside, holds⟩
  cases found with
  | none =>
      apply Finds.pure
      refine ⟨notOutside, ?_⟩
      rintro body ⟨⟩
  | some read =>
      rcases read with ⟨content, parts⟩
      rcases holds content parts rfl with ⟨divided, inside⟩
      apply Finds.pure
      refine ⟨notOutside, ?_⟩
      rintro body ⟨⟩
      refine ⟨content, inside, ?_⟩
      rw [fragmentOf_some, divided]

end Reading

/--
A document or body which is returned was computed from a file inside the
canonical configuration directory, and unless the host fails, a path is refused
exactly when its parent directory or its symlinked leaf is outside.
-/
theorem reads_contained (setting : Setting) (world : World)
    (store : FileConfigStore) (saphyr : Saphyr) :
    (∀ level result after,
      Runs (calls setting) (store.read saphyr level).run world
          result after →
        SafeRead setting world store (store.configPath level) result
          (∃ node, result = .ok (some node))
          (fun content => result =
            documentOf saphyr (store.configPath level) (some content))) ∧
      ∀ source level result after,
        Runs (calls setting) (store.readBody saphyr source level).run world
            result after →
          SafeRead setting world store (store.fragmentPath source level)
            result
            (∃ found body, result = .ok found ∧ found.body = some body)
            (fun content => result.map LevelBody.body =
              fragmentOf saphyr (store.fragmentPath source level)
                (some content)) := by
  constructor
  · intro level result after runs
    rcases (finds_read saphyr level).of_run runs with
      ⟨found, rfl, notOutside, inside⟩ | ⟨error, rfl, failed⟩
    · apply SafeRead.of_ok notOutside
      rintro ⟨node, same⟩
      cases same
      rcases inside node rfl with ⟨content, readInside, document⟩
      exact ⟨content, readInside, document.symm⟩
    · apply SafeRead.of_failed _ failed
      rintro ⟨node, ⟨⟩⟩
  · intro source level result after runs
    rcases (finds_readBody saphyr source level).of_run runs with
      ⟨found, rfl, notOutside, inside⟩ | ⟨error, rfl, failed⟩
    · apply SafeRead.of_ok notOutside
      rintro ⟨_, body, ⟨⟩, present⟩
      rcases inside body present with ⟨content, readInside, fragment⟩
      refine ⟨content, readInside, ?_⟩
      rw [fragment]
      exact congrArg Except.ok present
    · apply SafeRead.of_failed _ failed
      rintro ⟨found, body, ⟨⟩, _⟩

def luredEntry (location : Location) : Option Entry :=
  if location = [] ∨ location = [".luminosity".toList] then
    some .directory
  else if location = [".luminosity".toList, "config.md".toList] then
    some (.link { absolute := true, components := [.normal "other".toList] })
  else if location = ["other".toList] then
    some (.file (encode "secret".toList))
  else
    none

/-- A file system in which the team's file is a link to a file elsewhere. -/
def luredTree : Tree where
  entry := luredEntry
  rooted := rfl
  closed := by
    intro location name present
    have above {front : Location} {last : Text}
        (same : location ++ [name] = front ++ [last]) : location = front :=
      (List.append_inj' same rfl).1
    rw [luredEntry] at present
    split_ifs at present with directory link file
    · rcases directory with same | same
      · simp at same
      · rw [@above [] _ same]
        rfl
    · rw [@above [".luminosity".toList] _ link]
      rfl
    · rw [@above [] _ file]
      rfl
    · exact absurd rfl present

/-- A store at the root of the file system. -/
def rootStore : FileConfigStore :=
  { root := { absolute := true, components := [] } }

def lured : World :=
  { tree := luredTree, counter := fun _ => 0, touched := [] }

theorem lured_home :
    Resolves [] luredTree rootStore.configDir
      (.present [".luminosity".toList]) := by
  have present :
      luredTree.entry ([] ++ [".luminosity".toList]) = some .directory := rfl
  rw [FileConfigStore.configDir_eq]
  exact .enter present (by rintro target ⟨⟩) (.arrive _)

theorem lured_link :
    luredTree.entry
        ([".luminosity".toList] ++
          ["config".toList ++ Level.team.qualifier ++ ".md".toList]) =
      some (.link
        { absolute := true, components := [.normal "other".toList] }) := rfl

theorem lured_elsewhere :
    Resolves [] luredTree (rootStore.configPath .team)
      (.present ["other".toList]) := by
  have present :
      luredTree.entry ([] ++ ["other".toList]) =
        some (.file (encode "secret".toList)) := rfl
  rw [FileConfigStore.configPath_eq]
  exact resolves_child lured_home
    (.follow lured_link (.enter present (by rintro target ⟨⟩) (.arrive _)))

theorem lured_outside :
    Outside [] luredTree rootStore (rootStore.configPath .team) := by
  have symlink : SymlinkAt [] luredTree (rootStore.configPath .team) := by
    refine ⟨[".luminosity".toList], _, _, ?_, lured_link⟩
    rw [FileConfigStore.configPath_eq, names_child]
    exact ⟨rfl, lured_home, rfl⟩
  refine Or.inr ⟨symlink, _, lured_elsewhere, ?_⟩
  rintro ⟨home, resolves, isPrefix⟩
  cases Walks.deterministic lured_home resolves
  exact absurd (List.cons_prefix_cons.mp isPrefix).1 (by decide)

theorem reads_contained_lured :
    ∃ result after,
      Runs (calls { workdir := [], process := 0, dependable := true })
          (rootStore.read smallSaphyr .team).run lured result after ∧
        result = .error (unsafePath (rootStore.configPath .team)) := by
  rcases (calls_responsive
      { workdir := [], process := 0, dependable := true }).exists_run
      (rootStore.read smallSaphyr .team).run lured with ⟨result, after, runs⟩
  have unfaulted :
      Ensures (calls { workdir := [], process := 0, dependable := true })
        (rootStore.read smallSaphyr .team).run
        (fun result _ => ∀ error, result = .error error → ¬ Faulted error)
        lured := by
    apply Ensures.run_bind
      (finds_refuseEscapingPath (below_configPath rootStore .team))
    · rintro _ _ ⟨_, notOutside⟩
      exact absurd lured_outside notOutside
    · rintro _ _ ⟨_, ⟨rfl, _⟩ | ⟨_, unsettled⟩⟩
      · rintro error ⟨⟩ ⟨⟩
      · exact absurd ⟨_, lured_elsewhere⟩ (unsettled rfl)
  have safe :=
    (reads_contained _ _ rootStore smallSaphyr).1 .team result after runs
  exact ⟨result, after, runs,
    (safe.refused (unfaulted.of_run runs)).mpr lured_outside⟩

end Luminosity.Adapters.StoreContainment
