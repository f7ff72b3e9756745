import Luminosity.Adapters.StoreContainment

/-!
# Containment of writes

A write is checked at the path of the document, but it also makes the scratch
directory, writes the scratch file and renames or removes it.  When the scratch
directory leads elsewhere, or a symbolic link has the name of the scratch file,
those calls act where the links lead.

So a write stays inside exactly when every place its scratch path opens, and
the link it may itself be, are inside.
-/

namespace Luminosity.Adapters.StoreWriteContainment

open Luminosity.Foundation.TextSegments
open Luminosity.Foundation.EffectPrograms
open Luminosity.Config.Domain
open Luminosity.Host.Paths
open Luminosity.Host.Calls
open Luminosity.Host.FileTree
open Luminosity.Host.TreeHost
open Luminosity.Adapters.Document
open Luminosity.Adapters.Store
open Luminosity.Adapters.Store.FileConfigStore
open Luminosity.Adapters.StoreContainment
open Luminosity.Adapters.StoreProse

/-! ## Where a write may go -/

section Places

variable (workdir : Location) (tree : Tree) (store : FileConfigStore)

/-- The canonical configuration directory, or the place where it is made. -/
def Home (home : Location) : Prop :=
  Resolves workdir tree store.configDir (.present home) ∨
    ∃ parent name,
      Resolves workdir tree store.configDir (.missing parent name []) ∧
        home = parent ++ [name]

/-- Inside the configuration directory, made or not. -/
def Inside (location : Location) : Prop :=
  ∃ home, Home workdir tree store home ∧ home <+: location

/-- The path is itself a symbolic link, at this location. -/
def LinkAt (path : Path) (location : Location) : Prop :=
  ∃ parent name target, Names workdir tree path parent name ∧
    tree.entry (parent ++ [name]) = some (.link target) ∧
      location = parent ++ [name]

/-- Whatever the scratch path opens, and the link it may be, is inside. -/
def ScratchInside (scratch : Path) : Prop :=
  ∀ location,
    OpensAt workdir tree scratch location ∨
        LinkAt workdir tree scratch location →
      Inside workdir tree store location

end Places

/-- The write passes its check, reads the old file and renders the new one. -/
def Proceeds (setting : Setting) (world : World) (store : FileConfigStore)
    (saphyr : Saphyr) (level : Level) (document : Node) : Prop :=
  ¬ Outside setting.workdir world.tree store (store.configPath level) ∧
    ∃ existing rendered,
      Content setting world (store.configPath level) existing ∧
        render saphyr existing document = .ok rendered

/-- Everything touched is inside, or the write is refused and does nothing. -/
def Kept (setting : Setting) (before : World) (store : FileConfigStore)
    (path : Path) (result : Except ConfigError Unit) (after : World) : Prop :=
  (∀ location ∈ after.touched,
    Inside setting.workdir before.tree store location) ∨
    (result = .error (unsafePath path) ∧ after = before)

/-! ## Replacing the target -/

/--
The rule for the calls which replace a file: what creating and appending keep,
and what the last call, a rename or a removal, establishes.
-/
theorem ensures_replaceBy
    {State : Type} {semantics : Semantics host State}
    {pre staged final : State → Prop} {temp target : Path}
    (created : ∀ before answer after, pre before →
      semantics (.create temp) before answer after → staged after)
    (appended : ∀ byte before answer after, staged before →
      semantics (.append temp byte) before answer after → staged after)
    (renamed : ∀ before answer after, staged before →
      semantics (.rename temp target) before answer after →
        onOk (fun _ => final) (fun _ => staged) answer after)
    (removed : ∀ before answer after, staged before →
      semantics (.removeFile temp) before answer after → final after)
    (contents : Text) {state : State} (holds : pre state) :
    Ensures semantics (replaceBy target contents temp).run
      (fun _ => final) state := by
  have discarded (error : ConfigError) (before : State)
      (ready : staged before) :
      Ensures semantics (discard temp error : StoreProgram Unit).run
        (fun _ => final) before := by
    rw [FileConfigStore.discard, ensures_invoke_bind]
    intro answer after step
    exact removed before answer after ready step
  have written :
      Ensures semantics (writeFile temp (encode contents))
        (onOk (fun _ => staged) fun _ => staged) state := by
    apply @ensures_writeFile _ _ _ pre (fun _ => staged)
    · intro before answer after ready step
      cases answer <;> exact created before _ after ready step
    · intro _ byte before answer after ready step
      cases answer <;> exact appended byte before _ after ready step
    · exact holds
  rw [replaceBy, ensures_run_bind, ensures_run_lift]
  apply written.mono
  intro result middle ready
  cases result with
  | error error => exact discarded _ middle ready
  | ok _ =>
      simp only [onOk_ok]
      rw [ensures_invoke_bind]
      intro answer after step
      have outcome := renamed middle answer after ready step
      cases answer with
      | ok _ => exact outcome
      | error error => exact discarded _ after outcome

/-! ## The scratch directory -/

section Scratch

variable {setting : Setting} {world : World} {store : FileConfigStore}

/-- The configuration directory and the scratch directory are there. -/
structure Staged (setting : Setting) (world : World)
    (store : FileConfigStore) (home scratch : Location) : Prop where
  homeFound :
    Resolves setting.workdir world.tree store.configDir (.present home)
  homeDirectory : world.tree.entry home = some .directory
  scratchFound :
    Resolves setting.workdir world.tree store.tempDir (.present scratch)
  scratchDirectory : world.tree.entry scratch = some .directory

/-- A change of no link and no directory keeps the scratch directory. -/
theorem Staged.change
    {home scratch : Location} (staged : Staged setting world store home scratch)
    {after : World} {parent : Location} {name : Text} {new : Option Entry}
    (changes : Changes world parent name new after)
    (notLink : ∀ target,
      world.tree.entry (parent ++ [name]) ≠ some (.link target)) :
    Staged setting after store home scratch := by
  rcases changes with ⟨inside, childless, rfl⟩
  have apart {location : Location}
      (directory : world.tree.entry location = some .directory) :
      location ≠ parent ++ [name] := by
    rintro rfl
    exact childless directory
  exact
    { homeFound :=
        staged.homeFound.graft_elsewhere inside childless
          (apart staged.homeDirectory) notLink
      homeDirectory := graft_directory inside childless staged.homeDirectory
      scratchFound :=
        staged.scratchFound.graft_elsewhere inside childless
          (apart staged.scratchDirectory) notLink
      scratchDirectory :=
        graft_directory inside childless staged.scratchDirectory }

/-- Drawing a number leaves the directories alone. -/
theorem Staged.advance
    {home scratch : Location} (staged : Staged setting world store home scratch)
    (own : UInt32) :
    Staged setting (world.advance own) store home scratch where
  homeFound := staged.homeFound
  homeDirectory := staged.homeDirectory
  scratchFound := staged.scratchFound
  scratchDirectory := staged.scratchDirectory

theorem astray_configDir :
    Astray setting.workdir world.tree store.configDir ↔
      Missing setting.workdir world.tree store.root := by
  rw [FileConfigStore.configDir_eq]
  exact astray_child

theorem astray_tempDir :
    Astray setting.workdir world.tree store.tempDir ↔
      Missing setting.workdir world.tree store.configDir := by
  rw [FileConfigStore.tempDir_eq]
  exact astray_child

/-- A path is not missing and a directory at once. -/
theorem not_leadsToDirectory_of_missing
    {path : Path} (absent : Missing setting.workdir world.tree path) :
    ¬ LeadsToDirectory setting.workdir world.tree path := by
  rintro ⟨location, resolves, _⟩
  exact not_missing_of_resolves resolves absent

theorem ensures_orDirectory
    (path : Path) (error : IoError)
    (post : Except IoError Unit → World → Prop)
    (found : LeadsToDirectory setting.workdir world.tree path →
      post (.ok ()) world)
    (failed : post (.error error) world) :
    Ensures (calls setting) (orDirectory path error) post world := by
  rw [orDirectory, ensures_bind, ensures_issue]
  rintro answer after ⟨rfl, directory, _⟩
  cases answer with
  | true => exact found (directory rfl)
  | false => exact failed

/-- A missing configuration directory is made in the project directory. -/
theorem ensures_createConfigDir
    {project : Location}
    (rooted :
      Resolves setting.workdir world.tree store.root (.present project))
    (absent : Missing setting.workdir world.tree store.configDir) :
    Ensures (calls setting) (createDirAll store.configDir)
      (onOk
        (fun _ after =>
          world.tree.entry (project ++ [".luminosity".toList]) = none ∧
            Changes world project ".luminosity".toList (some .directory)
              after)
        fun _ after => after = world)
      world := by
  have notAstray : ¬ Astray setting.workdir world.tree store.configDir := by
    rw [astray_configDir]
    exact not_missing_of_resolves rooted
  rw [FileConfigStore.configDir_eq, createDirAll_child,
    ← FileConfigStore.configDir_eq, ensures_bind, ensures_issue]
  intro answer after step
  cases answer with
  | ok _ =>
      rcases step with ⟨parent, name, names, vacant, changes⟩
      rw [FileConfigStore.configDir_eq, names_child] at names
      rcases names with ⟨rfl, resolves, _⟩
      cases Walks.deterministic rooted resolves
      exact ⟨vacant, changes⟩
  | error error =>
      rcases step with ⟨rfl, honest, _⟩
      simp only
      split_ifs with missing
      · exact absurd (honest missing) notAstray
      · apply ensures_orDirectory
        · intro directory
          exact absurd directory (not_leadsToDirectory_of_missing absent)
        · rfl

/-- A directory made where nothing was is found there, and is empty. -/
theorem made_child
    {path : Path} {name : Text} {parent : Location} {after : World}
    (found : Resolves setting.workdir world.tree path (.present parent))
    (directory : world.tree.entry parent = some .directory)
    (vacant : world.tree.entry (parent ++ [name]) = none)
    (changes : Changes world parent name (some .directory) after) :
    Resolves setting.workdir after.tree path (.present parent) ∧
      after.tree.entry parent = some .directory ∧
        Resolves setting.workdir after.tree (path.child name)
          (.present (parent ++ [name])) ∧
          after.tree.entry (parent ++ [name]) = some .directory ∧
            ∀ below, after.tree.entry (parent ++ [name] ++ [below]) = none := by
  rcases changes with ⟨inside, childless, rfl⟩
  have made :
      (world.tree.graft parent name (some .directory) inside childless).entry
        (parent ++ [name]) = some .directory :=
    Tree.graft_entry_self inside childless
  have foundAgain :
      Resolves setting.workdir
        (world.tree.graft parent name (some .directory) inside childless)
        path (.present parent) := by
    apply Walks.graft_elsewhere inside childless found (by simp)
    intro target
    simp [vacant]
  refine ⟨foundAgain, graft_directory inside childless directory,
    resolves_child foundAgain (.enter made (by rintro target ⟨⟩) (.arrive _)),
    made, ?_⟩
  intro below
  show (world.tree.graft parent name (some .directory) inside
    childless).entry _ = none
  rw [Tree.graft_entry_of_ne inside childless (by simp)]
  exact Tree.entry_below_none vacant below

/-- What calls have touched is inside the directory of this tree. -/
def TouchedInside (setting : Setting) (tree : Tree)
    (store : FileConfigStore) (after : World) : Prop :=
  ∀ location ∈ after.touched, Inside setting.workdir tree store location

theorem TouchedInside.change
    {tree : Tree} {after : World} {parent : Location} {name : Text}
    {new : Option Entry}
    (touched : TouchedInside setting tree store world)
    (inside : Inside setting.workdir tree store (parent ++ [name]))
    (changes : Changes world parent name new after) :
    TouchedInside setting tree store after := by
  rcases changes with ⟨_, _, rfl⟩
  intro location member
  rcases List.mem_cons.mp member with rfl | old
  · exact inside
  · exact touched location old

/-- The scratch directory was there, or is new, empty and inside. -/
def Scaffolded (setting : Setting) (before : World)
    (store : FileConfigStore) (after : World) : Prop :=
  ∃ home scratch, Home setting.workdir before.tree store home ∧
    Staged setting after store home scratch ∧
      (after = before ∨
        home <+: scratch ∧
          ∀ name, after.tree.entry (scratch ++ [name]) = none)

theorem scaffolded_made
    {home : Location} {middle after : World}
    (before : World)
    (isHome : Home setting.workdir before.tree store home)
    (found :
      Resolves setting.workdir middle.tree store.configDir (.present home))
    (directory : middle.tree.entry home = some .directory)
    (vacant : middle.tree.entry (home ++ ["tmp".toList]) = none)
    (changes : Changes middle home "tmp".toList (some .directory) after) :
    Scaffolded setting before store after := by
  rcases made_child found directory vacant changes with
    ⟨homeFound, homeDirectory, scratchFound, scratchDirectory, empty⟩
  rw [← FileConfigStore.tempDir_eq] at scratchFound
  exact ⟨home, home ++ ["tmp".toList], isHome,
    ⟨homeFound, homeDirectory, scratchFound, scratchDirectory⟩,
    Or.inr ⟨List.prefix_append _ _, empty⟩⟩

/-- What is kept while the configuration and the scratch directory are made. -/
structure KeptByMaking (setting : Setting) (world : World)
    (store : FileConfigStore) (kept : World → Prop) : Prop where
  home : ∀ {project middle},
    Resolves setting.workdir world.tree store.root (.present project) →
      Home setting.workdir world.tree store
          (project ++ [".luminosity".toList]) →
        world.tree.entry (project ++ [".luminosity".toList]) = none →
          Changes world project ".luminosity".toList (some .directory)
              middle →
            kept world → kept middle
  scratch : ∀ {home before after},
    Home setting.workdir world.tree store home →
      before.tree.entry (home ++ ["tmp".toList]) = none →
        Changes before home "tmp".toList (some .directory) after →
          kept before → kept after

/-- Making the directories touches nothing outside. -/
theorem touchedInside_keptByMaking (setting : Setting) (world : World)
    (store : FileConfigStore) :
    KeptByMaking setting world store
      (TouchedInside setting world.tree store) where
  home _ isHome _ changes touched :=
    touched.change ⟨_, isHome, List.prefix_refl _⟩ changes
  scratch isHome _ changes touched :=
    touched.change ⟨_, isHome, List.prefix_append _ _⟩ changes

variable {kept : World → Prop}

/-- Where the scratch directory is made, and what is made before it. -/
theorem ensures_createScratchIn
    {project : Location} {middle : World}
    (rooted :
      Resolves setting.workdir world.tree store.root (.present project))
    (directory : world.tree.entry project = some .directory)
    (vacant : world.tree.entry (project ++ [".luminosity".toList]) = none)
    (changes :
      Changes world project ".luminosity".toList (some .directory) middle)
    (keeps : KeptByMaking setting world store kept) (holds : kept world) :
    kept middle ∧
      ¬ LeadsToDirectory setting.workdir middle.tree store.tempDir ∧
        ∀ after,
          calls setting (.createDir store.tempDir) middle (.ok ()) after →
            Scaffolded setting world store after ∧
              after.counter = world.counter ∧ kept after := by
  have isHome :
      Home setting.workdir world.tree store
        (project ++ [".luminosity".toList]) := by
    refine Or.inr ⟨project, ".luminosity".toList, ?_, rfl⟩
    rw [FileConfigStore.configDir_eq]
    exact resolves_child rooted (.miss directory vacant)
  rcases made_child rooted directory vacant changes with
    ⟨_, _, homeFound, homeDirectory, empty⟩
  rw [← FileConfigStore.configDir_eq] at homeFound
  have middleKept : kept middle :=
    keeps.home rooted isHome vacant changes holds
  refine ⟨middleKept, ?_, ?_⟩
  · rintro ⟨location, resolves, _⟩
    have missing :
        Resolves setting.workdir middle.tree store.tempDir
          (.missing (project ++ [".luminosity".toList]) "tmp".toList
            []) := by
      rw [FileConfigStore.tempDir_eq]
      exact resolves_child homeFound (.miss homeDirectory (empty _))
    cases Walks.deterministic resolves missing
  · rintro after ⟨parent, name, names, _, made⟩
    rw [FileConfigStore.tempDir_eq, names_child] at names
    rcases names with ⟨rfl, resolves, _⟩
    cases Walks.deterministic homeFound resolves
    refine ⟨scaffolded_made world isHome homeFound homeDirectory
      (empty "tmp".toList) made, ?_, ?_⟩
    · rw [changes_counter made, changes_counter changes]
    · exact keeps.scratch isHome (empty _) made middleKept

/-- The scratch directory is made, if it is not there. -/
theorem ensures_createScratch
    (rooted : LeadsToDirectory setting.workdir world.tree store.root)
    (keeps : KeptByMaking setting world store kept) (holds : kept world) :
    Ensures (calls setting) (createDirAll store.tempDir)
      (fun result after =>
        (result = .ok () → Scaffolded setting world store after ∧
          after.counter = world.counter) ∧
          kept after)
      world := by
  rcases rooted with ⟨project, projectFound, directory⟩
  rw [FileConfigStore.tempDir_eq, createDirAll_child,
    ← FileConfigStore.tempDir_eq, ensures_bind, ensures_issue]
  intro answer after step
  cases answer with
  | ok _ =>
      rcases step with ⟨parent, name, names, vacant, changes⟩
      rw [FileConfigStore.tempDir_eq, names_child] at names
      rcases names with ⟨rfl, homeFound, homeDirectory⟩
      have isHome : Home setting.workdir world.tree store parent :=
        Or.inl homeFound
      refine ⟨fun _ => ⟨scaffolded_made world isHome homeFound homeDirectory
        vacant changes, changes_counter changes⟩, ?_⟩
      exact keeps.scratch isHome vacant changes holds
  | error error =>
      rcases step with ⟨rfl, honest, _⟩
      simp only
      split_ifs with missing
      · have absent := astray_tempDir.mp (honest missing)
        rw [ensures_bind]
        apply (ensures_createConfigDir projectFound absent).mono
        intro result middle outcome
        cases result with
        | error error =>
            cases outcome
            exact ⟨by rintro ⟨⟩, holds⟩
        | ok _ =>
            rcases outcome with ⟨vacant, changes⟩
            rcases ensures_createScratchIn projectFound directory vacant changes
                keeps holds with ⟨middleKept, notThere, made⟩
            simp only
            rw [ensures_bind, ensures_issue]
            intro answer last again
            cases answer with
            | ok _ =>
                rcases made last again with ⟨scaffolded, counted, lastKept⟩
                exact ⟨fun _ => ⟨scaffolded, counted⟩, lastKept⟩
            | error error =>
                rcases again with ⟨rfl, _⟩
                apply ensures_orDirectory
                · intro found
                  exact absurd found notThere
                · exact ⟨by rintro ⟨⟩, middleKept⟩
      · apply ensures_orDirectory
        · rintro ⟨scratch, scratchFound, scratchDirectory⟩
          have walked := scratchFound
          rw [FileConfigStore.tempDir_eq] at walked
          rcases resolves_child_cases walked with
            ⟨home, homeFound, onward⟩ | ⟨_, _, _, _, ends⟩
          · refine ⟨fun _ => ⟨⟨home, scratch, Or.inl homeFound,
              ⟨homeFound, directory_of_walks onward, scratchFound,
                scratchDirectory⟩, Or.inl rfl⟩, rfl⟩, holds⟩
          · cases ends
        · exact ⟨by rintro ⟨⟩, holds⟩

end Scratch

/-! ## The steps of a write -/

section Steps

variable {setting : Setting} {world : World} {store : FileConfigStore}
variable {post : Except ConfigError Unit → World → Prop}

/-- The scratch directory is made, a number drawn, and the target replaced. -/
theorem ensures_atomicWrite_of
    (made : World → Prop) {target : Path} {contents : Text}
    (scaffolded :
      Ensures (calls setting) (createDirAll store.tempDir)
        (onOk (fun _ => made)
          fun _ after => ∀ error, post (.error error) after)
        world)
    (replaced : ∀ middle, made middle →
      Ensures (calls setting)
        (replaceBy target contents
          (store.tempPath setting.process
            (middle.counter setting.process))).run
        post (middle.advance setting.process)) :
    Ensures (calls setting) (store.atomicWrite target contents).run post
      world := by
  rw [atomicWrite, ensures_run_bind, ensures_run_lift]
  apply scaffolded.mono
  intro result middle outcome
  cases result with
  | error error => exact outcome _
  | ok _ =>
      simp only [onOk_ok]
      rw [ensures_invoke_bind]
      rintro own last ⟨rfl, rfl⟩
      rw [ensures_invoke_bind]
      rintro count final ⟨rfl, rfl⟩
      exact replaced _ outcome

/-- What fails before the file is written changes nothing. -/
theorem ensures_write_of
    {saphyr : Saphyr} {level : Level} {document : Node}
    (failed : ∀ error, post (.error error) world)
    (continued : ∀ existing rendered,
      ¬ Outside setting.workdir world.tree store (store.configPath level) →
        Content setting world (store.configPath level) existing →
          render saphyr existing document = .ok rendered →
            Ensures (calls setting)
              (store.atomicWrite (store.configPath level) rendered).run post
              world) :
    Ensures (calls setting) (store.write saphyr level document).run post
      world := by
  have checked :=
    @finds_refuseEscapingPath setting world store _
      (below_configPath store level)
  apply Ensures.run_bind checked
  swap
  · rintro error after ⟨rfl, _⟩
    exact failed error
  rintro _ after ⟨rfl, notOutside⟩
  apply Ensures.run_bind (finds_readExisting (store.configPath level))
  swap
  · rintro error after ⟨rfl, _⟩
    exact failed error
  rintro existing after ⟨rfl, content⟩
  cases rendering : render saphyr existing document with
  | error detail => exact failed _
  | ok rendered =>
      exact continued existing rendered notOutside content rendering

end Steps

/-! ## Contained writes -/

section Guarded

variable {setting : Setting} {world : World} {store : FileConfigStore}
variable {tree : Tree} {home scratch : Location}
variable {process : UInt32} {count : UInt64}

theorem Home.deterministic
    {workdir other : Location} (isHome : Home workdir tree store home)
    (otherwise : Home workdir tree store other) :
    home = other := by
  rcases isHome with resolves | ⟨parent, name, misses, rfl⟩
  · rcases otherwise with again | ⟨_, _, again, rfl⟩
    · cases Walks.deterministic resolves again
      rfl
    · cases Walks.deterministic resolves again
  · rcases otherwise with again | ⟨_, _, again, rfl⟩
    · cases Walks.deterministic misses again
    · cases Walks.deterministic misses again
      rfl

theorem names_tempPath
    {parent : Location} {name : Text}
    (names : Names setting.workdir world.tree
      (store.tempPath process count) parent name) :
    name = tempName process count ∧
      Resolves setting.workdir world.tree store.tempDir (.present parent) ∧
        world.tree.entry parent = some .directory := by
  rw [FileConfigStore.tempPath_eq] at names
  exact names_child.mp names

/-- A file or missing name in the scratch directory is opened there. -/
theorem opensAt_tempPath
    (staged : Staged setting world store home scratch)
    (plain : world.tree.entry (scratch ++ [tempName process count]) = none ∨
      ∃ bytes, world.tree.entry (scratch ++ [tempName process count]) =
        some (.file bytes)) :
    OpensAt setting.workdir world.tree (store.tempPath process count)
      (scratch ++ [tempName process count]) := by
  rw [FileConfigStore.tempPath_eq]
  rcases plain with vacant | ⟨bytes, file⟩
  · exact Or.inl ⟨scratch, _, resolves_child staged.scratchFound
      (.miss staged.scratchDirectory vacant), rfl⟩
  · refine Or.inr ⟨bytes, resolves_child staged.scratchFound ?_, file⟩
    exact .enter file (by rintro target ⟨⟩) (.arrive _)

/-- Whatever the scratch path opens or is lies inside, as did all so far. -/
structure Guarded (setting : Setting) (tree : Tree)
    (store : FileConfigStore) (home scratch : Location)
    (process : UInt32) (count : UInt64) (world : World) : Prop where
  isHome : Home setting.workdir tree store home
  staged : Staged setting world store home scratch
  opens : ∀ location,
    OpensAt setting.workdir world.tree (store.tempPath process count)
      location → home <+: location
  linked : ∀ target,
    world.tree.entry (scratch ++ [tempName process count]) =
      some (.link target) → home <+: scratch ++ [tempName process count]
  touched : TouchedInside setting tree store world

theorem Guarded.inside
    (guarded : Guarded setting tree store home scratch process count world)
    {location : Location} (isPrefix : home <+: location) :
    Inside setting.workdir tree store location :=
  ⟨home, guarded.isHome, isPrefix⟩

/-- Writing a file where the scratch path leads keeps everything inside. -/
theorem Guarded.write
    (guarded : Guarded setting tree store home scratch process count world)
    {parent : Location} {name : Text} {bytes : Bytes} {after : World}
    (opens : OpensAt setting.workdir world.tree
      (store.tempPath process count) (parent ++ [name]))
    (changes : Changes world parent name (some (.file bytes)) after) :
    Guarded setting tree store home scratch process count after := by
  have staged := guarded.staged.change changes opens.not_link
  have touched :=
    guarded.touched.change (guarded.inside (guarded.opens _ opens)) changes
  rcases changes with ⟨inside, childless, rfl⟩
  have written :
      (world.change parent name (some (.file bytes)) inside
        childless).tree.entry (parent ++ [name]) = some (.file bytes) :=
    Tree.graft_entry_self inside childless
  constructor
  · exact guarded.isHome
  · exact staged
  · intro location again
    have onlyThere := Opens.deterministic again
      (Or.inr ⟨bytes, Opens.graft inside childless opens, written⟩)
    rw [onlyThere]
    exact guarded.opens _ opens
  · intro target linked
    by_cases same :
        scratch ++ [tempName process count] = parent ++ [name]
    · rw [same, written] at linked
      cases linked
    · apply guarded.linked target
      rw [← linked]
      exact (Tree.graft_entry_of_ne inside childless same).symm
  · exact touched

/-- The entry the scratch path names, a file or a link, is inside. -/
theorem Guarded.leaf
    (guarded : Guarded setting tree store home scratch process count world)
    {parent : Location} {name : Text} {entry : Entry}
    (names : Names setting.workdir world.tree
      (store.tempPath process count) parent name)
    (present : world.tree.entry (parent ++ [name]) = some entry)
    (childless : entry ≠ .directory) :
    home <+: parent ++ [name] := by
  rcases names_tempPath names with ⟨rfl, resolves, _⟩
  cases Walks.deterministic guarded.staged.scratchFound resolves
  cases entry with
  | directory => exact absurd rfl childless
  | file bytes =>
      exact guarded.opens _
        (opensAt_tempPath guarded.staged (Or.inr ⟨bytes, present⟩))
  | link target => exact guarded.linked target present

/-- Replacing the target touches nothing outside. -/
theorem ensures_replaceBy_guarded
    (guarded : Guarded setting tree store home scratch process count world)
    (level : Level) (contents : Text) :
    Ensures (calls setting)
      (replaceBy (store.configPath level) contents
        (store.tempPath process count)).run
      (fun _ => TouchedInside setting tree store) world := by
  apply @ensures_replaceBy World (calls setting)
    (Guarded setting tree store home scratch process count)
    (Guarded setting tree store home scratch process count)
    (TouchedInside setting tree store)
  · intro before answer after guarded step
    cases answer with
    | error error => exact step.1 ▸ guarded
    | ok _ =>
        rcases step with ⟨parent, name, opens, changes⟩
        exact guarded.write opens changes
  · intro byte before answer after guarded step
    cases answer with
    | error error => exact step.1 ▸ guarded
    | ok _ =>
        rcases step with ⟨parent, name, bytes, resolves, file, changes⟩
        exact guarded.write (Or.inr ⟨bytes, resolves, file⟩) changes
  · intro before answer after guarded step
    cases answer with
    | error error => exact step.1 ▸ guarded
    | ok _ =>
        rcases step with
          ⟨parent, name, entry, middle, above, last, names, present,
            targetNames, removed, replaced⟩
        have childless : entry ≠ .directory := by
          rintro rfl
          rcases removed with ⟨_, childless, _⟩
          exact childless present
        rw [FileConfigStore.configPath_eq, names_child] at targetNames
        rcases targetNames with ⟨rfl, resolves, _⟩
        cases Walks.deterministic guarded.staged.homeFound resolves
        exact (guarded.touched.change
          (guarded.inside (guarded.leaf names present childless))
          removed).change
            (guarded.inside (List.prefix_append _ _)) replaced
  · intro before answer after guarded step
    cases answer with
    | error error => exact step.1 ▸ guarded.touched
    | ok _ =>
        rcases step with ⟨parent, name, names, present, removed⟩
        rcases Option.ne_none_iff_exists'.mp present with ⟨entry, there⟩
        have childless : entry ≠ .directory := by
          rintro rfl
          rcases removed with ⟨_, childless, _⟩
          exact childless there
        exact guarded.touched.change
          (guarded.inside (guarded.leaf names there childless)) removed
  · exact guarded

theorem Guarded.advance
    (guarded : Guarded setting tree store home scratch process count world)
    (own : UInt32) :
    Guarded setting tree store home scratch process count
      (world.advance own) where
  isHome := guarded.isHome
  staged := guarded.staged.advance own
  opens := guarded.opens
  linked := guarded.linked
  touched := guarded.touched

/-- Once the scratch directory is there, the write is guarded. -/
theorem Scaffolded.guarded
    {after : World} (scaffolded : Scaffolded setting world store after)
    (inside : ScratchInside setting.workdir world.tree store
      (store.tempPath process count))
    (touched : TouchedInside setting world.tree store after) :
    ∃ home scratch,
      Guarded setting world.tree store home scratch process count after := by
  rcases scaffolded with
    ⟨home, scratch, isHome, staged, same | ⟨isPrefix, empty⟩⟩
  · subst same
    have contained {location : Location}
        (within : Inside setting.workdir after.tree store location) :
        home <+: location := by
      rcases within with ⟨other, otherHome, isPrefix⟩
      rw [isHome.deterministic otherHome]
      exact isPrefix
    refine ⟨home, scratch, isHome, staged, ?_, ?_, touched⟩
    · intro location opens
      exact contained (inside location (Or.inl opens))
    · intro target linked
      apply contained
      apply inside _ (Or.inr _)
      refine ⟨scratch, _, target, ?_, linked, rfl⟩
      rw [FileConfigStore.tempPath_eq, names_child]
      exact ⟨rfl, staged.scratchFound, staged.scratchDirectory⟩
  · refine ⟨home, scratch, isHome, staged, ?_, ?_, touched⟩
    · intro location opens
      have there :=
        opensAt_tempPath staged (Or.inl (empty (tempName process count)))
      rw [Opens.deterministic opens there]
      exact isPrefix.trans (List.prefix_append _ _)
    · intro target linked
      rw [empty] at linked
      cases linked

/-- Everything a write touches is inside, if its scratch path leads inside. -/
theorem ensures_write_inside
    (saphyr : Saphyr) (level : Level) (document : Node)
    (rooted : LeadsToDirectory setting.workdir world.tree store.root)
    (touched : TouchedInside setting world.tree store world)
    (inside : Proceeds setting world store saphyr level document →
      ScratchInside setting.workdir world.tree store
        (store.tempPath setting.process (world.counter setting.process))) :
    Ensures (calls setting) (store.write saphyr level document).run
      (fun _ => TouchedInside setting world.tree store) world := by
  apply ensures_write_of fun _ => touched
  intro existing rendered notOutside content rendering
  have within := inside ⟨notOutside, existing, rendered, content, rendering⟩
  have scaffolded :=
    ensures_createScratch rooted (touchedInside_keptByMaking _ _ _) touched
  apply ensures_atomicWrite_of fun middle =>
    (Scaffolded setting world store middle ∧
      middle.counter = world.counter) ∧
        TouchedInside setting world.tree store middle
  · apply scaffolded.mono
    intro result middle outcome
    cases result with
    | error error => exact fun _ => outcome.2
    | ok _ => exact ⟨outcome.1 rfl, outcome.2⟩
  · rintro middle ⟨⟨scaffolded, counted⟩, touched⟩
    rcases scaffolded.guarded within touched with ⟨home, scratch, guarded⟩
    rw [counted]
    exact ensures_replaceBy_guarded (guarded.advance _) level rendered

end Guarded

/-! ## Writes which go outside -/

section Escaping

variable {setting : Setting} {world : World} {store : FileConfigStore}
variable {process : UInt32} {count : UInt64} {location : Location}

/-- A dependable host writes what the scratch path opens. -/
theorem ensures_replaceBy_opens
    (dependable : setting.dependable = true)
    (opens : OpensAt setting.workdir world.tree
      (store.tempPath process count) location)
    (target : Path) (contents : Text) :
    Ensures (calls setting)
      (replaceBy target contents (store.tempPath process count)).run
      (fun _ after => location ∈ after.touched) world := by
  apply @ensures_replaceBy World (calls setting) (fun before => before = world)
    (fun after => location ∈ after.touched)
    (fun after => location ∈ after.touched)
  · rintro before answer after rfl step
    rcases opens.parts with ⟨parent, name, rfl, inside, childless⟩
    rcases attempt_succeeds step dependable
        ⟨(), _, parent, name, opens, inside, childless, rfl⟩ with ⟨_, rfl, made⟩
    rcases made with ⟨_, _, again, changes⟩
    rw [Opens.deterministic opens again]
    exact changes_touched changes
  · intro byte before answer after touched step
    exact calls_touched step touched
  · intro before answer after touched step
    cases answer <;> exact calls_touched step touched
  · intro before answer after touched step
    exact calls_touched step touched
  · rfl

/-- The name of the scratch file is that of a symbolic link. -/
structure Linked (setting : Setting) (store : FileConfigStore)
    (process : UInt32) (count : UInt64) (scratch : Location) (target : Path)
    (world : World) : Prop where
  found :
    Resolves setting.workdir world.tree store.tempDir (.present scratch)
  directory : world.tree.entry scratch = some .directory
  linked :
    world.tree.entry (scratch ++ [tempName process count]) =
      some (.link target)

variable {scratch : Location} {target : Path}

theorem Linked.names
    (linked : Linked setting store process count scratch target world) :
    Names setting.workdir world.tree (store.tempPath process count) scratch
      (tempName process count) := by
  rw [FileConfigStore.tempPath_eq, names_child]
  exact ⟨rfl, linked.found, linked.directory⟩

/-- Writing through the link leaves the link where it is. -/
theorem Linked.write
    (linked : Linked setting store process count scratch target world)
    {parent : Location} {name : Text} {new : Option Entry} {after : World}
    (notLink : ∀ other,
      world.tree.entry (parent ++ [name]) ≠ some (.link other))
    (changes : Changes world parent name new after) :
    Linked setting store process count scratch target after := by
  rcases changes with ⟨inside, childless, rfl⟩
  constructor
  · apply Walks.graft_elsewhere inside childless linked.found _ notLink
    intro same
    rw [same] at linked
    exact childless linked.directory
  · exact graft_directory inside childless linked.directory
  · have different :
        scratch ++ [tempName process count] ≠ parent ++ [name] := by
      intro same
      exact notLink target (same ▸ linked.linked)
    rw [← linked.linked]
    exact Tree.graft_entry_of_ne inside childless different

/-- A dependable host renames or removes a link of the scratch file's name. -/
theorem ensures_replaceBy_linked
    (dependable : setting.dependable = true)
    (linked : Linked setting store process count scratch target world)
    (document : Path) (contents : Text) :
    Ensures (calls setting)
      (replaceBy document contents (store.tempPath process count)).run
      (fun _ after =>
        scratch ++ [tempName process count] ∈ after.touched) world := by
  apply @ensures_replaceBy World (calls setting)
    (Linked setting store process count scratch target)
    (Linked setting store process count scratch target)
    (fun after => scratch ++ [tempName process count] ∈ after.touched)
  · intro before answer after linked step
    cases answer with
    | error error => exact step.1 ▸ linked
    | ok _ =>
        rcases step with ⟨parent, name, opens, changes⟩
        exact linked.write opens.not_link changes
  · intro byte before answer after linked step
    cases answer with
    | error error => exact step.1 ▸ linked
    | ok _ =>
        rcases step with ⟨parent, name, bytes, _, file, changes⟩
        apply linked.write _ changes
        intro other
        rw [file]
        simp
  · intro before answer after linked step
    cases answer with
    | error error => exact step.1 ▸ linked
    | ok _ =>
        rcases step with
          ⟨parent, name, entry, middle, above, last, names, present,
            targetNames, removed, replaced⟩
        rcases names_deterministic linked.names names with ⟨rfl, rfl⟩
        rcases replaced with ⟨_, _, rfl⟩
        exact List.mem_cons_of_mem _ (changes_touched removed)
  · intro before answer after linked step
    have childless :
        before.tree.entry (scratch ++ [tempName process count]) ≠
          some .directory := by
      rw [linked.linked]
      simp
    have there :
        before.tree.entry (scratch ++ [tempName process count]) ≠ none := by
      rw [linked.linked]
      simp
    rcases attempt_succeeds step dependable
        ⟨(), _, scratch, _, linked.names, there, linked.directory, childless,
          rfl⟩ with ⟨_, rfl, removed⟩
    rcases removed with ⟨parent, name, names, _, changes⟩
    rcases names_deterministic linked.names names with ⟨rfl, rfl⟩
    exact changes_touched changes
  · exact linked

/-- A scratch path which opens something lies in a directory. -/
theorem scratch_leadsToDirectory
    (leads :
      OpensAt setting.workdir world.tree (store.tempPath process count)
          location ∨
        LinkAt setting.workdir world.tree (store.tempPath process count)
          location) :
    LeadsToDirectory setting.workdir world.tree store.tempDir := by
  rw [FileConfigStore.tempPath_eq] at leads
  have through {found : Found}
      (resolves : Resolves setting.workdir world.tree
        (store.tempDir.child (tempName process count)) found)
      (whole : ∀ parent name rest,
        found ≠ .missing parent name
          (rest ++ [.normal (tempName process count)])) :
      LeadsToDirectory setting.workdir world.tree store.tempDir := by
    rcases resolves_child_cases resolves with
      ⟨scratch, arrives, onward⟩ | ⟨parent, name, rest, _, ends⟩
    · exact ⟨scratch, arrives, directory_of_walks onward⟩
    · exact absurd ends (whole parent name rest)
  rcases leads with (⟨_, _, misses, _⟩ | ⟨_, arrives, _⟩) |
    ⟨_, _, _, names, _⟩
  · apply through misses
    simp
  · apply through arrives
    simp
  · rcases names_child.mp names with ⟨rfl, resolves, directory⟩
    exact ⟨_, resolves, directory⟩

/-- A dependable host leaves a scratch directory alone which is there. -/
theorem ensures_createScratch_found
    (dependable : setting.dependable = true)
    (found : LeadsToDirectory setting.workdir world.tree store.tempDir) :
    Ensures (calls setting) (createDirAll store.tempDir)
      (fun result after => result = .ok () ∧ after = world) world := by
  rcases id found with ⟨scratch, arrives, directory⟩
  rw [FileConfigStore.tempDir_eq] at arrives
  have walked :
      ∃ home, Resolves setting.workdir world.tree store.configDir
        (.present home) ∧ Walks world.tree home [.normal "tmp".toList]
          (.present scratch) := by
    rcases resolves_child_cases arrives with home | ⟨_, _, _, _, ends⟩
    · exact home
    · cases ends
  rcases walked with ⟨home, homeFound, onward⟩
  rw [FileConfigStore.tempDir_eq, createDirAll_child,
    ← FileConfigStore.tempDir_eq, ensures_bind, ensures_issue]
  intro answer after step
  cases answer with
  | ok _ =>
      rcases step with ⟨parent, name, names, vacant, _⟩
      rw [FileConfigStore.tempDir_eq, names_child] at names
      rcases names with ⟨rfl, resolves, homeDirectory⟩
      cases Walks.deterministic homeFound resolves
      cases onward.deterministic (.miss homeDirectory vacant)
  | error error =>
      rcases step with ⟨rfl, honest, _⟩
      simp only
      split_ifs with missing
      · exact absurd (astray_tempDir.mp (honest missing))
          (not_missing_of_resolves homeFound)
      · rw [orDirectory, ensures_bind, ensures_issue]
        rintro answer last ⟨rfl, _, certain⟩
        rw [certain dependable found]
        exact ⟨rfl, rfl⟩

theorem content_resolves
    {path : Path} {existing : Option Text}
    (content : Content setting world path existing) :
    ∃ found, Resolves setting.workdir world.tree path found := by
  cases existing with
  | none =>
      rcases content with ⟨parent, name, rest, misses⟩
      exact ⟨_, misses⟩
  | some text =>
      rcases content with ⟨place, _, arrives, _⟩
      exact ⟨_, arrives⟩

theorem content_deterministic
    {path : Path} {existing other : Option Text}
    (content : Content setting world path existing)
    (otherwise : Content setting world path other) :
    existing = other := by
  cases existing with
  | none =>
      cases other with
      | none => rfl
      | some text =>
          rcases otherwise with ⟨_, _, arrives, _⟩
          exact absurd content (not_missing_of_resolves arrives)
  | some text =>
      rcases content with ⟨place, bytes, arrives, file, decoded⟩
      cases other with
      | none => exact absurd otherwise (not_missing_of_resolves arrives)
      | some otherText =>
          rcases otherwise with ⟨_, _, again, otherFile, otherDecoded⟩
          cases Walks.deterministic arrives again
          rw [file] at otherFile
          cases otherFile
          rw [← decoded, otherDecoded]

/-- A dependable host comes to replacing the target by what is rendered. -/
theorem ensures_write_replaces
    {saphyr : Saphyr} {level : Level} {document : Node}
    {existing : Option Text} {rendered : Text}
    {post : Except ConfigError Unit → World → Prop}
    (dependable : setting.dependable = true)
    (notOutside :
      ¬ Outside setting.workdir world.tree store (store.configPath level))
    (content : Content setting world (store.configPath level) existing)
    (rendering : render saphyr existing document = .ok rendered)
    (found : LeadsToDirectory setting.workdir world.tree store.tempDir)
    (replaced :
      Ensures (calls setting)
        (replaceBy (store.configPath level) rendered
          (store.tempPath setting.process
            (world.counter setting.process))).run
        post (world.advance setting.process)) :
    Ensures (calls setting) (store.write saphyr level document).run post
      world := by
  have checked :=
    @finds_refuseEscapingPath setting world store _
      (below_configPath store level)
  apply Ensures.run_bind checked
  swap
  · rintro error after ⟨rfl, ⟨_, outside⟩ | ⟨_, unsettled⟩⟩
    · exact absurd outside notOutside
    · exact absurd (content_resolves content) (unsettled dependable)
  rintro _ after ⟨rfl, _⟩
  apply Ensures.run_bind (finds_readExisting (store.configPath level))
  swap
  · rintro error after ⟨rfl, _, unsettled⟩
    exact absurd ⟨existing, content⟩ (unsettled dependable)
  rintro read after ⟨rfl, otherwise⟩
  cases content_deterministic content otherwise
  simp only [rendering]
  apply ensures_atomicWrite_of fun middle => middle = after
  · apply (ensures_createScratch_found dependable found).mono
    rintro result middle ⟨rfl, rfl⟩
    rfl
  · rintro middle rfl
    exact replaced

/-- On a dependable host a write touches whatever its scratch path leads to. -/
theorem ensures_write_touches
    {saphyr : Saphyr} {level : Level} {document : Node}
    (dependable : setting.dependable = true)
    (proceeds : Proceeds setting world store saphyr level document)
    (leads :
      OpensAt setting.workdir world.tree
          (store.tempPath setting.process (world.counter setting.process))
          location ∨
        LinkAt setting.workdir world.tree
          (store.tempPath setting.process (world.counter setting.process))
          location) :
    Ensures (calls setting) (store.write saphyr level document).run
      (fun _ after => location ∈ after.touched) world := by
  rcases proceeds with ⟨notOutside, existing, rendered, content, rendering⟩
  apply ensures_write_replaces dependable notOutside content rendering
    (scratch_leadsToDirectory leads)
  rcases leads with opens | ⟨scratch, name, target, names, linked, rfl⟩
  · apply ensures_replaceBy_opens dependable
    exact opens
  · rcases names_tempPath names with ⟨rfl, scratchFound, directory⟩
    apply ensures_replaceBy_linked dependable
    exact ⟨scratchFound, directory, linked⟩

end Escaping

/-! ## Exactly when writes are contained -/

/-- A process on a host on which every call may fail. -/
def anyHost (workdir : Location) (process : UInt32) : Setting :=
  { workdir, process, dependable := false }

/-- The same process on a host on which calls succeed if they can. -/
def bestHost (workdir : Location) (process : UInt32) : Setting :=
  { workdir, process, dependable := true }

/-- A file system in which nothing has been touched yet. -/
def untouched (tree : Tree) (counter : UInt32 → UInt64) : World :=
  { tree, counter, touched := [] }

/-- A write which touches a location is not kept, if that is outside. -/
theorem inside_of_kept
    {workdir : Location} {process : UInt32} {store : FileConfigStore}
    {saphyr : Saphyr} {level : Level} {document : Node} {tree : Tree}
    {counter : UInt32 → UInt64} {location : Location}
    (kept : ∀ result after,
      Runs (calls (anyHost workdir process))
          (store.write saphyr level document).run (untouched tree counter)
          result after →
        Kept (anyHost workdir process) (untouched tree counter) store
          (store.configPath level) result after)
    (touches : Ensures (calls (bestHost workdir process))
      (store.write saphyr level document).run
      (fun _ after => location ∈ after.touched) (untouched tree counter)) :
    Inside workdir tree store location := by
  rcases (calls_responsive (bestHost workdir process)).exists_run
      (store.write saphyr level document).run (untouched tree counter) with
    ⟨result, after, runs⟩
  have member := touches.of_run runs
  have possible :
      Runs (calls (anyHost workdir process))
        (store.write saphyr level document).run (untouched tree counter)
        result after :=
    runs.mono fun _ _ _ _ step => calls_unreliable step
  rcases kept result after possible with inside | ⟨_, rfl⟩
  · exact inside location member
  · cases member

/--
Every run of a write touches the inside of the configuration directory only, or
is refused, if and only if the scratch path leads inside whenever the write
proceeds.
-/
theorem write_kept_iff
    (workdir : Location) (process : UInt32) (store : FileConfigStore)
    (saphyr : Saphyr) (level : Level) (document : Node) (tree : Tree)
    (counter : UInt32 → UInt64)
    (rooted : LeadsToDirectory workdir tree store.root) :
    (∀ result after,
      Runs (calls (anyHost workdir process))
          (store.write saphyr level document).run (untouched tree counter)
          result after →
        Kept (anyHost workdir process) (untouched tree counter) store
          (store.configPath level) result after) ↔
      (Proceeds (anyHost workdir process) (untouched tree counter) store
          saphyr level document →
        ScratchInside workdir tree store
          (store.tempPath process (counter process))) := by
  constructor
  · intro kept proceeds location leads
    apply inside_of_kept kept
    exact @ensures_write_touches (bestHost workdir process)
      (untouched tree counter) store location saphyr level document rfl
      proceeds leads
  · intro inside result after runs
    refine Or.inl ?_
    have nothing :
        TouchedInside (anyHost workdir process) tree store
          (untouched tree counter) := by
      intro location member
      cases member
    have touched :=
      @ensures_write_inside (anyHost workdir process)
        (untouched tree counter) store saphyr level document rooted nothing
        inside
    exact touched.of_run runs

/-! ### A scratch directory which leads elsewhere -/

def linkedEntry (location : Location) : Option Entry :=
  if location = [] ∨ location = ["project".toList] ∨
      location = ["project".toList, ".luminosity".toList] ∨
        location = ["elsewhere".toList] then
    some .directory
  else if location =
      ["project".toList, ".luminosity".toList, "tmp".toList] then
    some (.link
      { absolute := true, components := [.normal "elsewhere".toList] })
  else
    none

/-- A project whose scratch directory is a link to another directory. -/
def linkedTree : Tree where
  entry := linkedEntry
  rooted := rfl
  closed := by
    intro location name present
    have above {front : Location} {last : Text}
        (same : location ++ [name] = front ++ [last]) : location = front :=
      (List.append_inj' same rfl).1
    rw [linkedEntry] at present
    split_ifs at present with directory link
    · rcases directory with same | same | same | same
      · simp at same
      · rw [@above [] _ same]
        rfl
      · rw [@above ["project".toList] _ same]
        rfl
      · rw [@above [] _ same]
        rfl
    · rw [@above ["project".toList, ".luminosity".toList] _ link]
      rfl
    · exact absurd rfl present

theorem linkedTree_project :
    Resolves [] linkedTree smallStore.root (.present ["project".toList]) := by
  have present :
      linkedTree.entry ([] ++ ["project".toList]) = some .directory := rfl
  exact .enter present (by rintro target ⟨⟩) (.arrive _)

theorem linkedTree_rooted :
    LeadsToDirectory [] linkedTree smallStore.root :=
  ⟨_, linkedTree_project, rfl⟩

theorem linkedTree_home :
    Resolves [] linkedTree smallStore.configDir
      (.present ["project".toList, ".luminosity".toList]) := by
  have present :
      linkedTree.entry (["project".toList] ++ [".luminosity".toList]) =
        some .directory := rfl
  rw [FileConfigStore.configDir_eq]
  exact resolves_child linkedTree_project
    (.enter present (by rintro target ⟨⟩) (.arrive _))

theorem linkedTree_scratch :
    Resolves [] linkedTree smallStore.tempDir
      (.present ["elsewhere".toList]) := by
  have link :
      linkedTree.entry
          (["project".toList, ".luminosity".toList] ++ ["tmp".toList]) =
        some (.link
          { absolute := true, components := [.normal "elsewhere".toList] }) :=
    rfl
  have present :
      linkedTree.entry ([] ++ ["elsewhere".toList]) = some .directory := rfl
  rw [FileConfigStore.tempDir_eq]
  exact resolves_child linkedTree_home
    (.follow link (.enter present (by rintro target ⟨⟩) (.arrive _)))

/-- The one value a small parser knows. -/
def smallDocument : Node :=
  .mapping [(['a'], .scalar (.string ['v']))]

theorem linkedTree_proceeds (counter : UInt32 → UInt64) :
    Proceeds (anyHost [] 0) (untouched linkedTree counter) smallStore
      smallSaphyr .team smallDocument := by
  have absent :
      Resolves [] linkedTree (smallStore.configPath .team)
        (.missing ["project".toList, ".luminosity".toList]
          ("config".toList ++ Level.team.qualifier ++ ".md".toList) []) := by
    rw [FileConfigStore.configPath_eq]
    exact resolves_child linkedTree_home (.miss rfl rfl)
  refine ⟨?_, none, "---\na: v\n---\n".toList, ⟨_, _, _, absent⟩, rfl⟩
  rw [FileConfigStore.configPath_eq] at absent ⊢
  apply not_outside_child linkedTree_home
  rintro ⟨_, location, resolves, _⟩
  cases Walks.deterministic absent resolves

theorem linkedTree_vacant (name : Text) :
    linkedTree.entry (["elsewhere".toList] ++ [name]) = none := by
  have noDirectory :
      ¬ (["elsewhere".toList] ++ [name] = [] ∨
        ["elsewhere".toList] ++ [name] = ["project".toList] ∨
          ["elsewhere".toList] ++ [name] =
            ["project".toList, ".luminosity".toList] ∨
            ["elsewhere".toList] ++ [name] = ["elsewhere".toList]) := by
    rintro (same | same | same | same)
    · cases same
    · cases (List.cons.inj same).2
    · exact absurd (List.cons.inj same).1 (by decide)
    · cases (List.cons.inj same).2
  have noLink :
      ¬ ["elsewhere".toList] ++ [name] =
        ["project".toList, ".luminosity".toList, "tmp".toList] := by
    intro same
    exact absurd (List.cons.inj same).1 (by decide)
  show linkedEntry (["elsewhere".toList] ++ [name]) = none
  rw [linkedEntry, if_neg noDirectory, if_neg noLink]

theorem linkedTree_opens :
    OpensAt [] linkedTree (smallStore.tempPath 0 0)
      (["elsewhere".toList] ++ [tempName 0 0]) := by
  rw [FileConfigStore.tempPath_eq]
  generalize tempName 0 0 = name
  exact Or.inl ⟨_, _,
    resolves_child linkedTree_scratch (.miss rfl (linkedTree_vacant name)),
    rfl⟩

theorem write_kept_iff_linkedTree :
    (∀ result after,
      Runs (calls (anyHost [] 0))
          (smallStore.write smallSaphyr .team smallDocument).run
          (untouched linkedTree fun _ => 0) result after →
        Kept (anyHost [] 0) (untouched linkedTree fun _ => 0) smallStore
          (smallStore.configPath .team) result after) ↔
      (Proceeds (anyHost [] 0) (untouched linkedTree fun _ => 0) smallStore
          smallSaphyr .team smallDocument →
        ScratchInside [] linkedTree smallStore (smallStore.tempPath 0 0)) :=
  write_kept_iff [] 0 smallStore smallSaphyr .team smallDocument linkedTree
    (fun _ => 0) linkedTree_rooted

/-- A scratch directory which is a link lets a write create files outside. -/
theorem linked_scratch_escapes :
    ¬ ∀ result after,
      Runs (calls (anyHost [] 0))
          (smallStore.write smallSaphyr .team smallDocument).run
          (untouched linkedTree fun _ => 0) result after →
        Kept (anyHost [] 0) (untouched linkedTree fun _ => 0) smallStore
          (smallStore.configPath .team) result after := by
  intro kept
  have touches :=
    @ensures_write_touches (bestHost [] 0) (untouched linkedTree fun _ => 0)
      smallStore _ smallSaphyr .team smallDocument rfl
      (linkedTree_proceeds fun _ => 0) (Or.inl linkedTree_opens)
  rcases inside_of_kept kept touches with ⟨home, isHome, isPrefix⟩
  have known : home = ["project".toList, ".luminosity".toList] :=
    isHome.deterministic (Or.inl linkedTree_home)
  rw [known] at isPrefix
  exact absurd (List.cons_prefix_cons.mp isPrefix).1 (by decide)

end Luminosity.Adapters.StoreWriteContainment
