import Mathlib.Data.List.Induction
import Luminosity.Adapters.StoreContainment

/-!
# Project discovery

The store is rooted at the nearest directory above the start which is marked,
by a configuration directory or by a repository, and at the start itself where
none is.  The host follows symbolic links for both marks, so a link which
leads nowhere marks nothing.
-/

namespace Luminosity.Adapters.Discovery

open Luminosity.Foundation.TextSegments
open Luminosity.Foundation.EffectPrograms
open Luminosity.Config.Domain
open Luminosity.Config.Service
open Luminosity.Host.Paths
open Luminosity.Host.Calls
open Luminosity.Host.FileTree
open Luminosity.Host.TreeHost
open Luminosity.Adapters.Document
open Luminosity.Adapters.Store
open Luminosity.Adapters.Store.FileConfigStore
open Luminosity.Adapters.StoreContainment

/-! ## The search -/

/-- The recursion of `ancestors`, on the components in reverse. -/
def ancestorsReversed (absolute : Bool) : List Component → List Path
  | [] => [{ absolute, components := [] }]
  | component :: above =>
      { absolute, components := (component :: above).reverse } ::
        ancestorsReversed absolute above

/-- A path and the parents which the loop of the search goes through. -/
def ancestors (path : Path) : List Path :=
  ancestorsReversed path.absolute path.components.reverse

/-- The marks the loop looks for, the second one where the first is not. -/
def isMarked (dir : Path) : HostProgram Bool := do
  match ← issue (.isDir (dir.join ".luminosity".toList)) with
  | true => return true
  | false => issue (.pathExists (dir.join ".git".toList))

/-- The loop of the search over the directories which are left. -/
def discoverAmong (startDir : Path) : List Path → HostProgram Path
  | [] => return startDir
  | dir :: rest => do
      match ← isMarked dir with
      | true => return dir
      | false => discoverAmong startDir rest

def discoverRoot (startDir : Path) : HostProgram Path :=
  discoverAmong startDir (ancestors startDir)

def discover (startDir : Path) : HostProgram FileConfigStore := do
  let root ← discoverRoot startDir
  return { root }

/-- Set a key in the store which is discovered from the directory. -/
def configSet
    (saphyr : Saphyr)
    (startDir : Path)
    (key : Key)
    (value : Text)
    (level : Level) :
    StoreProgram Unit := do
  let store ← ExceptT.lift (discover startDir)
  (store.service saphyr).set key value level

/-- Get a key from the store which is discovered from the directory. -/
def configGet
    (saphyr : Saphyr)
    (startDir : Path)
    (key : Key)
    (level : Option Level) :
    StoreProgram Resolved := do
  let store ← ExceptT.lift (discover startDir)
  (store.service saphyr).get key level

/-- The next directory is the parent, and there is none without one. -/
theorem ancestors_eq (path : Path) :
    ancestors path = path :: path.parent.elim [] ancestors := by
  rcases path with ⟨absolute, components⟩
  rcases List.eq_nil_or_concat components with rfl | ⟨above, last, rfl⟩
  · rfl
  · simp [ancestors, ancestorsReversed, Path.parent]

/-! ## The nearest of a list -/

/-- The first element which is marked, or the other one where none is. -/
inductive Nearest
    {α : Type}
    (marked : α → Prop)
    (otherwise : α)
    (above : List α) :
    α → Prop where
  | marked
      (passed rest : List α)
      (root : α)
      (whole : above = passed ++ root :: rest)
      (holds : marked root)
      (unmarked : ∀ other ∈ passed, ¬ marked other) :
      Nearest marked otherwise above root
  | unmarked
      (none : ∀ other ∈ above, ¬ marked other) :
      Nearest marked otherwise above otherwise

section Nearest

variable {α : Type} {marked : α → Prop} {otherwise first root : α}
variable {above : List α}

theorem nearest_nil :
    Nearest marked otherwise [] root ↔ root = otherwise := by
  constructor
  · intro nearest
    cases nearest with
    | marked passed rest _ whole _ _ => simp at whole
    | unmarked none => rfl
  · rintro rfl
    exact .unmarked fun _ member => nomatch member

theorem nearest_cons :
    Nearest marked otherwise (first :: above) root ↔
      marked first ∧ root = first ∨
        ¬ marked first ∧ Nearest marked otherwise above root := by
  constructor
  · intro nearest
    cases nearest with
    | marked passed rest _ whole holds unmarked =>
        cases passed with
        | nil =>
            rcases List.cons.inj whole with ⟨rfl, _⟩
            exact Or.inl ⟨holds, rfl⟩
        | cons head passed =>
            rcases List.cons.inj whole with ⟨rfl, same⟩
            rcases List.forall_mem_cons.mp unmarked with ⟨here, beyond⟩
            exact Or.inr ⟨here, .marked passed rest root same holds beyond⟩
    | unmarked none =>
        rcases List.forall_mem_cons.mp none with ⟨here, beyond⟩
        exact Or.inr ⟨here, .unmarked beyond⟩
  · rintro (⟨holds, rfl⟩ | ⟨here, nearest⟩)
    · exact .marked [] above root rfl holds fun _ member => nomatch member
    · cases nearest with
      | marked passed rest _ whole holds unmarked =>
          exact
            .marked (first :: passed) rest root (by rw [whole]; rfl) holds
              (List.forall_mem_cons.mpr ⟨here, unmarked⟩)
      | unmarked none =>
          exact .unmarked (List.forall_mem_cons.mpr ⟨here, none⟩)

theorem Nearest.deterministic
    {other : α}
    (nearest : Nearest marked otherwise above root)
    (again : Nearest marked otherwise above other) :
    root = other := by
  induction above with
  | nil =>
      rw [nearest_nil.mp nearest, nearest_nil.mp again]
  | cons first above induction =>
      rcases nearest_cons.mp nearest with ⟨holds, rfl⟩ | ⟨here, beyond⟩
      · rcases nearest_cons.mp again with ⟨_, rfl⟩ | ⟨unmarked, _⟩
        · rfl
        · exact absurd holds unmarked
      · rcases nearest_cons.mp again with ⟨holds, _⟩ | ⟨_, further⟩
        · exact absurd holds here
        · exact induction beyond further

end Nearest

/-! ## What the search finds -/

/-- The configuration directory or a repository is there, links followed. -/
def Marked
    (workdir : Location)
    (tree : Tree)
    (dir : Path) : Prop :=
  LeadsToDirectory workdir tree (dir.join ".luminosity".toList) ∨
    ∃ place,
      Resolves workdir tree (dir.join ".git".toList) (.present place)

/-- What a host answers which sees all that is there. -/
def Seen
    (workdir : Location)
    (tree : Tree) :
    (call : Call) → call.Answer → Prop
  | .isDir path, answer =>
      LeadsToDirectory workdir tree path → answer = true
  | .pathExists path, answer =>
      (∃ place, Resolves workdir tree path (.present place)) → answer = true
  | _, _ => True

/-- The calls on a host which sees all that is there; the others may fail. -/
def sighted (setting : Setting) : Semantics host World :=
  fun call before answer after =>
    calls setting call before answer after ∧
      Seen setting.workdir before.tree call answer

section Search

variable {α : Type} {setting : Setting} {world : World}

/-- What holds on every host holds on one which sees. -/
theorem ensures_sighted
    {program : HostProgram α}
    {post : α → World → Prop}
    (ensured : Ensures (calls setting) program post world) :
    Ensures (sighted setting) program post world :=
  @Ensures.view host World α (sighted setting) World (calls setting) id
    (fun _ _ _ _ step => step.1) program post world ensured

/-- A dependable host sees. -/
theorem sighted_of_dependable
    (dependable : setting.dependable = true)
    {call : Call}
    {before after : World}
    {answer : call.Answer}
    (step : calls setting call before answer after) :
    sighted setting call before answer after := by
  constructor
  · exact step
  · cases call with
    | isDir path => exact step.2.2 dependable
    | pathExists path => exact step.2.2 dependable
    | _ => trivial

theorem ensures_isMarked (dir : Path) :
    Ensures (sighted setting) (isMarked dir)
      (fun answer after =>
        after = world ∧
          (answer = true ↔ Marked setting.workdir world.tree dir))
      world := by
  rw [isMarked, ensures_bind, ensures_issue]
  rintro answer after ⟨⟨rfl, honest, _⟩, seen⟩
  cases answer with
  | true => exact ⟨rfl, iff_of_true rfl (Or.inl (honest rfl))⟩
  | false =>
      have noConfig :
          ¬ LeadsToDirectory setting.workdir after.tree
            (dir.join ".luminosity".toList) := by
        intro config
        cases seen config
      simp only
      rw [ensures_issue]
      rintro answer last ⟨⟨rfl, honest, _⟩, seen⟩
      constructor
      · rfl
      · rw [Marked, or_iff_right noConfig]
        exact ⟨honest, seen⟩

theorem ensures_discoverAmong
    (startDir : Path)
    (above : List Path) :
    Ensures (sighted setting) (discoverAmong startDir above)
      (fun root after =>
        after = world ∧
          Nearest (Marked setting.workdir world.tree) startDir above root)
      world := by
  induction above with
  | nil => exact ⟨rfl, nearest_nil.mpr rfl⟩
  | cons dir rest induction =>
      rw [discoverAmong, ensures_bind]
      apply (ensures_isMarked dir).mono
      rintro answer after ⟨rfl, answered⟩
      cases answer with
      | true => exact ⟨rfl, nearest_cons.mpr (Or.inl ⟨answered.mp rfl, rfl⟩)⟩
      | false =>
          have unmarked :
              ¬ Marked setting.workdir after.tree dir := by
            intro holds
            cases answered.mpr holds
          apply induction.mono
          rintro root last ⟨rfl, nearest⟩
          exact ⟨rfl, nearest_cons.mpr (Or.inr ⟨unmarked, nearest⟩)⟩

/-- The search returns the nearest directory which is marked. -/
theorem ensures_discoverRoot (startDir : Path) :
    Ensures (sighted setting) (discoverRoot startDir)
      (fun root after =>
        after = world ∧
          Nearest (Marked setting.workdir world.tree) startDir
            (ancestors startDir) root)
      world :=
  ensures_discoverAmong startDir (ancestors startDir)

theorem discoverRoot_eq
    {startDir root : Path}
    (nearest :
      Nearest (Marked setting.workdir world.tree) startDir
        (ancestors startDir) root) :
    Ensures (sighted setting) (discoverRoot startDir)
      (fun found after => found = root ∧ after = world) world := by
  apply (ensures_discoverRoot startDir).mono
  rintro found after ⟨rfl, again⟩
  exact ⟨again.deterministic nearest, rfl⟩

/-- The host answers every call, if it is dependable. -/
theorem sighted_responsive
    (dependable : setting.dependable = true) :
    Responsive (sighted setting) := by
  intro call before
  rcases calls_responsive setting call before with ⟨answer, after, step⟩
  exact ⟨answer, after, sighted_of_dependable dependable step⟩

/-- What is done in the store of the nearest marked directory is done. -/
theorem ensures_discovered
    {startDir : Path}
    {next : FileConfigStore → StoreProgram α}
    {post : Except ConfigError α → World → Prop}
    (continued : ∀ root,
      Nearest (Marked setting.workdir world.tree) startDir
          (ancestors startDir) root →
        Ensures (sighted setting) (next { root }).run post world) :
    Ensures (sighted setting)
      (ExceptT.lift (discover startDir) >>= next).run post world := by
  rw [ensures_run_bind, ensures_run_lift, discover, ensures_bind]
  apply (ensures_discoverRoot startDir).mono
  rintro root after ⟨rfl, nearest⟩
  exact continued root nearest

end Search

/-! ## Directories of the tree -/

section Locations

variable {tree : Tree} {directory : Location} {name : Text}
variable {workdir : Location}

/-- What is above a directory is a directory. -/
theorem directory_of_prefix
    {above : Location}
    (isAbove : above <+: directory)
    (isDirectory : tree.entry directory = some .directory) :
    tree.entry above = some .directory := by
  induction directory using List.reverseRecOn with
  | nil =>
      rw [List.prefix_nil.mp isAbove]
      exact isDirectory
  | append_singleton front name induction =>
      rcases List.prefix_concat_iff.mp isAbove with rfl | shorter
      · exact isDirectory
      · apply induction shorter
        apply tree.closed front name
        rw [isDirectory]
        simp

theorem walks_names
    {here : Location}
    (names : List Text)
    (isDirectory : tree.entry (here ++ names) = some .directory) :
    Walks tree here (names.map .normal) (.present (here ++ names)) := by
  induction names generalizing here with
  | nil =>
      rw [List.append_nil]
      exact .arrive here
  | cons name rest induction =>
      rw [List.append_cons] at isDirectory ⊢
      have inside :=
        directory_of_prefix (List.prefix_append _ rest) isDirectory
      exact
        .enter inside (by rintro target ⟨⟩) (induction isDirectory)

/-- The path which spells a directory leads there. -/
theorem resolves_located
    (isDirectory : tree.entry directory = some .directory) :
    Resolves workdir tree (located directory) (.present directory) :=
  @walks_names tree [] directory isDirectory

theorem resolves_located_child
    {found : Found}
    (isDirectory : tree.entry directory = some .directory) :
    Resolves workdir tree ((located directory).child name) found ↔
      Walks tree directory [.normal name] found := by
  constructor
  · intro resolves
    rcases resolves_child_cases resolves with
      ⟨other, arrives, onward⟩ | ⟨parent, missed, rest, misses, _⟩
    · cases Walks.deterministic (resolves_located isDirectory) arrives
      exact onward
    · cases Walks.deterministic (resolves_located isDirectory) misses
  · intro walks
    exact resolves_child (resolves_located isDirectory) walks

/-- The marks of a directory, by the walks from it. -/
theorem marked_located_iff
    (isDirectory : tree.entry directory = some .directory) :
    Marked workdir tree (located directory) ↔
      (∃ place,
        Walks tree directory [.normal ".luminosity".toList]
            (.present place) ∧
          tree.entry place = some .directory) ∨
        ∃ place,
          Walks tree directory [.normal ".git".toList] (.present place) := by
  rw [Marked, join_plain _ (by decide), join_plain _ (by decide),
    LeadsToDirectory]
  simp only [resolves_located_child isDirectory]

theorem located_child
    (front : Location)
    (name : Text) :
    (located front).child name = located (front ++ [name]) := by
  simp [located, Path.child]

theorem ancestors_located_concat
    (front : Location)
    (name : Text) :
    ancestors (located (front ++ [name])) =
      located (front ++ [name]) :: ancestors (located front) := by
  rw [ancestors_eq, ← located_child, parent_child]
  rfl

/-- Between the directory and the one below it, or the one below itself. -/
def Between
    (directory other between : Location) : Prop :=
  directory <+: between ∧ between <+: other ∧ between ≠ directory

/-- Whoever starts at the directory finds the project and changes nothing. -/
def Discovers
    (setting : Setting)
    (world : World)
    (directory project : Location) : Prop :=
  Ensures (sighted setting) (discoverRoot (located directory))
    (fun root after => root = located project ∧ after = world) world

variable {marked : Path → Prop} {otherwise : Path} {start : Location}

/-- A directory which is marked is the nearest from itself. -/
theorem nearest_self
    {dir : Path}
    (holds : marked dir) :
    Nearest marked otherwise (ancestors dir) dir := by
  rw [ancestors_eq]
  exact nearest_cons.mpr (Or.inl ⟨holds, rfl⟩)

/-- The nearest is above, and nothing between is marked; or none is marked. -/
theorem nearest_located
    {root : Path}
    (nearest : Nearest marked otherwise (ancestors (located start)) root) :
    (∃ project, root = located project ∧ project <+: start ∧
        ∀ between, Between project start between →
          ¬ marked (located between)) ∨
      root = otherwise := by
  induction start using List.reverseRecOn with
  | nil =>
      change Nearest marked otherwise [located []] root at nearest
      rcases nearest_cons.mp nearest with ⟨_, rfl⟩ | ⟨_, beyond⟩
      · refine Or.inl ⟨[], rfl, List.prefix_refl [], ?_⟩
        rintro between ⟨_, below, different⟩
        exact absurd (List.prefix_nil.mp below) different
      · exact Or.inr (nearest_nil.mp beyond)
  | append_singleton front name induction =>
      rw [ancestors_located_concat] at nearest
      rcases nearest_cons.mp nearest with ⟨_, rfl⟩ | ⟨here, beyond⟩
      · refine Or.inl ⟨front ++ [name], rfl, List.prefix_refl _, ?_⟩
        rintro between ⟨above, below, different⟩
        exact absurd (below.eq_of_length_le above.length_le) different
      · rcases induction beyond with
          ⟨project, rfl, above, unmarked⟩ | same
        · refine
            Or.inl
              ⟨project, rfl, above.trans (List.prefix_append _ _), ?_⟩
          rintro between ⟨below, within, different⟩
          rcases List.prefix_concat_iff.mp within with rfl | shorter
          · exact here
          · exact unmarked between ⟨below, shorter, different⟩
        · exact Or.inr same

/-- From the start, the nearest is a directory above it, or the start. -/
theorem nearest_project
    {root : Path}
    (nearest :
      Nearest marked (located start) (ancestors (located start)) root) :
    ∃ project, root = located project ∧ project <+: start ∧
      ∀ between, Between project start between →
        ¬ marked (located between) := by
  rcases nearest_located nearest with found | rfl
  · exact found
  · refine ⟨start, rfl, List.prefix_refl start, ?_⟩
    rintro between ⟨above, below, different⟩
    exact absurd (below.eq_of_length_le above.length_le) different

/-- A mark is the nearest from below where nothing between is marked. -/
theorem nearest_of_between
    {project : Location}
    (holds : marked (located project))
    (above : project <+: start)
    (unmarked : ∀ between, Between project start between →
      ¬ marked (located between)) :
    Nearest marked otherwise (ancestors (located start))
      (located project) := by
  induction start using List.reverseRecOn with
  | nil =>
      rw [List.prefix_nil.mp above] at holds ⊢
      exact nearest_cons.mpr (Or.inl ⟨holds, rfl⟩)
  | append_singleton front name induction =>
      rw [ancestors_located_concat]
      by_cases same : front ++ [name] = project
      · rw [← same] at holds ⊢
        exact nearest_cons.mpr (Or.inl ⟨holds, rfl⟩)
      · have here :=
          unmarked (front ++ [name]) ⟨above, List.prefix_refl _, same⟩
        rcases List.prefix_concat_iff.mp above with exactly | shorter
        · exact absurd exactly.symm same
        · refine
            nearest_cons.mpr
              (Or.inr ⟨here, induction shorter ?_⟩)
          rintro between ⟨below, within, different⟩
          exact
            unmarked between
              ⟨below, within.trans (List.prefix_append _ _), different⟩

end Locations

end Luminosity.Adapters.Discovery
