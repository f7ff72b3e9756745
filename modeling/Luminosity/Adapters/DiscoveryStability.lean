import Luminosity.Adapters.Discovery
import Luminosity.Adapters.StoreRewrites

/-!
# Discovery before and after a key is set

Setting a key makes a mark itself, so the search is compared before and after.
It makes the configuration directory of the project it was rooted at and gives
no other directory a mark, unless a link which led nowhere leads somewhere
afterwards.
-/

namespace Luminosity.Adapters.DiscoveryStability

open Luminosity.Foundation.TextSegments
open Luminosity.Foundation.EffectPrograms
open Luminosity.Config.Domain
open Luminosity.Config.Service
open Luminosity.Host.Paths
open Luminosity.Host.Calls
open Luminosity.Host.FileTree
open Luminosity.Host.TreeHost
open Luminosity.Host.TreeRewrites
open Luminosity.Adapters.Document
open Luminosity.Adapters.Store
open Luminosity.Adapters.Store.FileConfigStore
open Luminosity.Adapters.StoreContainment
open Luminosity.Adapters.StoreDocuments
open Luminosity.Adapters.StoreProse
open Luminosity.Adapters.StoreWriteContainment
open Luminosity.Adapters.StoreRewrites
open Luminosity.Adapters.Discovery

/-! ## Marks before and after a write -/

/-- The names the search looks for. -/
def IsMark (name : Text) : Prop :=
  name = ".luminosity".toList ∨ name = ".git".toList

theorem IsMark.plain
    {name : Text}
    (mark : IsMark name) :
    Plain name := by
  rcases mark with rfl | rfl
  · decide
  · decide

theorem IsMark.head
    {name : Text}
    (mark : IsMark name) :
    name.head? = some '.' := by
  rcases mark with rfl | rfl
  · rfl
  · rfl

/-- A symbolic link of a mark's name which leads nowhere. -/
def Dangling
    (workdir : Location)
    (tree : Tree)
    (dir : Path) : Prop :=
  ∃ name, IsMark name ∧ SymlinkAt workdir tree (dir.join name) ∧
    Missing workdir tree (dir.join name)

/-- The project at a location. -/
def storeAt (project : Location) : FileConfigStore :=
  { root := located project }

theorem tempName_head
    (process : UInt32)
    (count : UInt64) :
    (tempName process count).head? = some 'c' := by
  unfold tempName
  generalize decimal process.toNat = own
  generalize decimal count.toNat = number
  rfl

section Marks

variable {setting : Setting} {world after : World} {level : Level}
variable {contents : Text} {project home dir place : Location} {name : Text}
variable (rooted : world.tree.entry project = some .directory)
variable (wrote :
  Wrote setting world (storeAt project) level contents home after)

/-- A write puts no mark elsewhere. -/
theorem not_places
    (rooted : world.tree.entry project = some .directory)
    (mark : IsMark name)
    (different : dir ≠ project) :
    ¬ Places setting world (storeAt project) level home (dir ++ [name]) := by
  have last {front : Location} {other : Text}
      (same : dir ++ [name] = front ++ [other]) :
      dir = front ∧ name = other := by
    rcases List.append_inj' same rfl with ⟨rfl, ends⟩
    exact ⟨rfl, (List.cons.inj ends).1⟩
  have head := mark.head
  rintro ((⟨other, arrives, same⟩ | ⟨parent, same⟩) | same |
    ⟨parent, process, count, same⟩)
  · rcases last same with ⟨rfl, _⟩
    cases Walks.deterministic (resolves_located rooted) arrives
    exact different rfl
  · rw [(last same).2] at head
    exact absurd head (by decide)
  · rw [(last same).2] at head
    cases level with
    | team => exact absurd head (by decide)
    | personal => exact absurd head (by decide)
  · rw [(last same).2, tempName_head] at head
    exact absurd head (by decide)

include rooted wrote

/-- What a mark's name leads to was there before, or a link led nowhere. -/
theorem mark_before
    (mark : IsMark name)
    (different : dir ≠ project)
    (isDirectory : after.tree.entry dir = some .directory)
    (walks : Walks after.tree dir [.normal name] (.present place)) :
    (∃ old, world.tree.entry dir = some .directory ∧
        Walks world.tree dir [.normal name] (.present old) ∧
          (after.tree.entry place = some .directory →
            world.tree.entry old = some .directory)) ∨
      world.tree.entry dir = some .directory ∧
        (∃ target, world.tree.entry (dir ++ [name]) = some (.link target)) ∧
          ∃ parent missed rest,
            Walks world.tree dir [.normal name]
              (.missing parent missed rest) := by
  have kept :=
    wrote.elsewhere (dir ++ [name]) (not_places rooted mark different)
  have there : after.tree.entry (dir ++ [name]) ≠ none := by
    intro absent
    cases walks.deterministic (.miss isDirectory absent)
  rw [kept] at there
  have inside := world.tree.closed dir name there
  have same := inside.trans isDirectory.symm
  rcases wrote.rewrites.walks_before walks same with
    ⟨old, walked, directory⟩ | ⟨parent, missed, rest, walked⟩
  · exact Or.inl ⟨old, inside, walked, directory⟩
  · refine Or.inr ⟨inside, ?_, parent, missed, rest, walked⟩
    rcases Option.ne_none_iff_exists'.mp there with ⟨entry, present⟩
    cases entry with
    | link target => exact ⟨target, present⟩
    | directory =>
        cases walked.deterministic
          (.enter present (by rintro target ⟨⟩) (.arrive _))
    | file bytes =>
        cases walked.deterministic
          (.enter present (by rintro target ⟨⟩) (.arrive _))

/-- A directory which a write marks was marked, or has a link to nowhere. -/
theorem marked_before
    (different : dir ≠ project)
    (isDirectory : after.tree.entry dir = some .directory)
    (marked : Marked setting.workdir after.tree (located dir)) :
    Marked setting.workdir world.tree (located dir) ∨
      Dangling setting.workdir world.tree (located dir) := by
  have dangles {name : Text}
      (mark : IsMark name)
      (inside : world.tree.entry dir = some .directory)
      (linked :
        ∃ target, world.tree.entry (dir ++ [name]) = some (.link target))
      (misses : ∃ parent missed rest,
        Walks world.tree dir [.normal name] (.missing parent missed rest)) :
      Dangling setting.workdir world.tree (located dir) := by
    rcases linked with ⟨target, linked⟩
    rcases misses with ⟨parent, missed, rest, misses⟩
    refine ⟨name, mark, ?_⟩
    rw [join_plain _ mark.plain]
    constructor
    · refine ⟨dir, name, target, ?_, linked⟩
      rw [names_child]
      exact ⟨rfl, resolves_located inside, inside⟩
    · exact
        ⟨parent, missed, rest, (resolves_located_child inside).mpr misses⟩
  rcases (marked_located_iff isDirectory).mp marked with
    ⟨place, walks, directory⟩ | ⟨place, walks⟩
  · have mark : IsMark ".luminosity".toList := Or.inl rfl
    rcases mark_before rooted wrote mark different isDirectory walks with
      ⟨old, inside, walked, kept⟩ | ⟨inside, linked, misses⟩
    · left
      rw [marked_located_iff inside]
      exact Or.inl ⟨old, walked, kept directory⟩
    · exact Or.inr (dangles mark inside linked misses)
  · have mark : IsMark ".git".toList := Or.inr rfl
    rcases mark_before rooted wrote mark different isDirectory walks with
      ⟨old, inside, walked, _⟩ | ⟨inside, linked, misses⟩
    · left
      rw [marked_located_iff inside]
      exact Or.inr ⟨old, walked⟩
    · exact Or.inr (dangles mark inside linked misses)

omit rooted in
/-- The project of the write is marked. -/
theorem marked_project :
    Marked setting.workdir after.tree (located project) :=
  Or.inl ⟨home, wrote.homeFound, wrote.homeDirectory⟩

end Marks

/-! ## The search after a key is set -/

/-- No mark afterwards; or no mark before, and no link which led nowhere. -/
def Unmarked
    (workdir : Location)
    (before after : Tree)
    (dir : Path) : Prop :=
  ¬ Marked workdir after dir ∨
    ¬ Marked workdir before dir ∧ ¬ Dangling workdir before dir

/--
Whoever starts at the directory finds the project, and gets what is in it; the
level's file there has the contents.
-/
structure Rediscovers
    (saphyr : Saphyr)
    (project : Location)
    (level : Level)
    (contents : Text)
    (world : World)
    (directory : Location) : Prop where
  root : ∀ later, Discovers later world directory project
  get : ∀ later key wanted result after,
    Runs (sighted later) (configGet saphyr (located directory) key wanted).run
        world result after →
      Runs (sighted later)
        (((storeAt project).service saphyr).get key wanted).run world result
        after
  read : ∀ later : Setting, later.dependable = true →
    Ensures (sighted later) ((storeAt project).read saphyr level).run
      (fun result after =>
        result =
            documentOf saphyr ((storeAt project).configPath level)
              (some contents) ∧
          after = world)
      world

section Stability

variable {setting : Setting} {world after : World} {level : Level}
variable {contents : Text} {project home directory : Location}

theorem resolves_absolute
    {tree : Tree}
    {path : Path}
    {found : Found}
    (absolute : path.absolute = true)
    (workdir other : Location) :
    Resolves workdir tree path found ↔ Resolves other tree path found := by
  rw [Resolves, Resolves, origin, origin, if_pos absolute, if_pos absolute]

theorem configDir_absolute (project : Location) :
    (storeAt project).configDir.absolute = true := by
  rw [FileConfigStore.configDir_eq]
  rfl

/-- The marks of a location do not depend on where the process works. -/
theorem marked_located
    {tree : Tree}
    (workdir other directory : Location) :
    Marked workdir tree (located directory) ↔
      Marked other tree (located directory) := by
  have child {name : Text} {found : Found} :=
    @resolves_absolute tree ((located directory).child name) found rfl
      workdir other
  rw [Marked, Marked, join_plain _ (by decide), join_plain _ (by decide),
    LeadsToDirectory, LeadsToDirectory]
  simp only [child]

/-- The configuration directory is where the write found or made it. -/
theorem written_home
    (wrote :
      Wrote setting world (storeAt project) level contents home after)
    (workdir : Location) :
    Resolves workdir after.tree (storeAt project).configDir
      (.present home) :=
  (resolves_absolute (configDir_absolute project) workdir
    setting.workdir).mpr wrote.homeFound

theorem written_resolves
    (wrote :
      Wrote setting world (storeAt project) level contents home after)
    (workdir : Location) :
    Resolves workdir after.tree ((storeAt project).configPath level)
      (.present (home ++ [configName level])) := by
  rw [FileConfigStore.configPath_eq]
  exact resolves_child (written_home wrote workdir)
    (.enter wrote.written (by rintro target ⟨⟩) (.arrive _))

/-- What was written is read, for it does not escape. -/
theorem written_not_outside
    (wrote :
      Wrote setting world (storeAt project) level contents home after)
    (workdir : Location) :
    ¬ Outside workdir after.tree (storeAt project)
      ((storeAt project).configPath level) := by
  have homeFound := written_home wrote workdir
  rw [FileConfigStore.configPath_eq]
  apply not_outside_child homeFound
  rintro ⟨⟨parent, name, target, names, linked⟩, _⟩
  rcases names_child.mp names with ⟨rfl, resolves, _⟩
  cases Walks.deterministic homeFound resolves
  exact absurd (linked.symm.trans wrote.written) (by simp)

theorem written_read
    (wrote :
      Wrote setting world (storeAt project) level contents home after)
    (saphyr : Saphyr)
    {later : Setting}
    (dependable : later.dependable = true) :
    Ensures (sighted later) ((storeAt project).read saphyr level).run
      (fun result last =>
        result =
            documentOf saphyr ((storeAt project).configPath level)
              (some contents) ∧
          last = after)
      after := by
  apply ensures_sighted
  apply ensures_read_content saphyr dependable
    (written_not_outside wrote later.workdir)
  exact
    ⟨_, _, written_resolves wrote later.workdir, wrote.written,
      decode_encode contents⟩

/-- The project is found from below where nothing between is marked. -/
theorem rediscovers_of_between
    (saphyr : Saphyr)
    (rooted : world.tree.entry project = some .directory)
    (wrote :
      Wrote setting world (storeAt project) level contents home after)
    (isDirectory : after.tree.entry directory = some .directory)
    (above : project <+: directory)
    (unmarked : ∀ between, Between project directory between →
      Unmarked setting.workdir world.tree after.tree (located between)) :
    Rediscovers saphyr project level contents after directory := by
  have nearest (later : Setting) :
      Nearest (Marked later.workdir after.tree) (located directory)
        (ancestors (located directory)) (located project) := by
    apply nearest_of_between _ above
    · rintro between ⟨isAbove, isBelow, different⟩
      rw [marked_located _ setting.workdir]
      intro marked
      rcases unmarked between ⟨isAbove, isBelow, different⟩ with
        notAfter | ⟨notBefore, solid⟩
      · exact notAfter marked
      · have inside := directory_of_prefix isBelow isDirectory
        rcases marked_before rooted wrote different inside marked with
          holds | dangles
        · exact notBefore holds
        · exact solid dangles
    · rw [marked_located _ setting.workdir]
      exact marked_project wrote
  constructor
  · intro later
    exact discoverRoot_eq (nearest later)
  · intro later key wanted result last runs
    have continued :
        Ensures (sighted later)
          (configGet saphyr (located directory) key wanted).run
          (Runs (sighted later)
            (((storeAt project).service saphyr).get key wanted).run after)
          after := by
      apply ensures_discovered
      intro root again
      cases again.deterministic (nearest later)
      exact ensures_runs _ after
    exact continued.of_run runs
  · intro later dependable
    exact written_read wrote saphyr dependable

/-- What a set which succeeds leaves, seen from the start. -/
theorem ensures_configSet
    (saphyr : Saphyr)
    (key : Key)
    (value : Text)
    (level : Level)
    {start : Location}
    (isDirectory : world.tree.entry start = some .directory) :
    Ensures (sighted setting)
      (configSet saphyr (located start) key value level).run
      (onOk
        (fun _ after =>
          ∃ project,
            Nearest (Marked setting.workdir world.tree) (located start)
                (ancestors (located start)) (located project) ∧
              project <+: start ∧
                (∀ between, Between project start between →
                  ¬ Marked setting.workdir world.tree (located between)) ∧
                  (ScratchUnlinked setting world (storeAt project) →
                    ∃ contents home,
                      Rendered saphyr key value contents ∧
                        Wrote setting world (storeAt project) level contents
                          home after))
        fun _ _ => True)
      world := by
  apply ensures_discovered
  intro root nearest
  rcases nearest_project nearest with ⟨project, rfl, above, unmarked⟩
  have rooted := directory_of_prefix above isDirectory
  by_cases unlinked : ScratchUnlinked setting world (storeAt project)
  · have leads :
        LeadsToDirectory setting.workdir world.tree
          (storeAt project).root :=
      ⟨project, resolves_located rooted, rooted⟩
    apply (ensures_sighted
      (ensures_set_wrote saphyr key value level leads unlinked)).mono
    intro result after outcome
    cases result with
    | error error => trivial
    | ok _ => exact ⟨project, nearest, above, unmarked, fun _ => outcome⟩
  · apply (ensures_runs _ world).mono
    intro result after _
    cases result with
    | error error => trivial
    | ok _ =>
        refine ⟨project, nearest, above, unmarked, ?_⟩
        intro again
        exact absurd again unlinked

/--
The search returns the nearest directory which is marked.  After a key is set
from the start, it returns the same project from there, unless a link which
led nowhere is passed, and from every directory below the project with no mark
between.
-/
theorem discovery_stable
    (saphyr : Saphyr)
    (setting : Setting)
    (world : World) :
    (∀ startDir,
      Ensures (sighted setting) (discoverRoot startDir)
        (fun root after =>
          after = world ∧
            Nearest (Marked setting.workdir world.tree) startDir
              (ancestors startDir) root)
        world) ∧
      ∀ start key value level after,
        world.tree.entry start = some .directory →
          Runs (sighted setting)
              (configSet saphyr (located start) key value level).run world
              (.ok ()) after →
            ∃ project,
              Nearest (Marked setting.workdir world.tree) (located start)
                  (ancestors (located start)) (located project) ∧
                project <+: start ∧
                  (ScratchUnlinked setting world (storeAt project) →
                    ∃ contents,
                      Rendered saphyr key value contents ∧
                        ((∀ between, Between project start between →
                            ¬ Dangling setting.workdir world.tree
                              (located between)) →
                          Rediscovers saphyr project level contents after
                            start) ∧
                          ∀ directory,
                            after.tree.entry directory = some .directory →
                              project <+: directory →
                                (∀ between,
                                  Between project directory between →
                                    Unmarked setting.workdir world.tree
                                      after.tree (located between)) →
                                  Rediscovers saphyr project level contents
                                    after directory) := by
  constructor
  · exact ensures_discoverRoot
  · intro start key value level after isDirectory runs
    rcases (ensures_configSet saphyr key value level isDirectory).of_run
        runs with ⟨project, nearest, above, unmarked, outcome⟩
    refine ⟨project, nearest, above, ?_⟩
    intro unlinked
    rcases outcome unlinked with ⟨contents, home, rendered, wrote⟩
    have rooted := directory_of_prefix above isDirectory
    refine ⟨contents, rendered, ?_, ?_⟩
    · intro solid
      have kept := wrote.rewrites.directory isDirectory
      apply rediscovers_of_between saphyr rooted wrote kept above
      intro between within
      exact Or.inr ⟨unmarked between within, solid between within⟩
    · intro directory there below unmarked
      exact rediscovers_of_between saphyr rooted wrote there below unmarked

end Stability

/-! ### Marks which are passed, and marks which a set makes -/

/-- A set in the project which the start discovers, and what it leads to. -/
theorem exists_configSet
    {setting : Setting}
    {world : World}
    {post : World → Prop}
    {saphyr : Saphyr}
    {key : Key}
    {value : Text}
    {level : Level}
    {start project : Location}
    (dependable : setting.dependable = true)
    (nearest :
      Nearest (Marked setting.workdir world.tree) (located start)
        (ancestors (located start)) (located project))
    (ensured :
      Ensures (calls setting)
        (((storeAt project).service saphyr).set key value level).run
        (onOk (fun _ => post) fun _ _ => False) world) :
    ∃ after,
      Runs (sighted setting)
          (configSet saphyr (located start) key value level).run world
          (.ok ()) after ∧
        post after := by
  rcases (sighted_responsive dependable).exists_run
      (configSet saphyr (located start) key value level).run world with
    ⟨result, after, runs⟩
  have whole :
      Ensures (sighted setting)
        (configSet saphyr (located start) key value level).run
        (onOk (fun _ => post) fun _ _ => False) world := by
    apply ensures_discovered
    intro root again
    cases again.deterministic nearest
    exact ensures_sighted ensured
  have outcome := whole.of_run runs
  cases result with
  | error error => exact outcome.elim
  | ok _ => exact ⟨after, runs, outcome⟩

/-- A location in the sample project. -/
def inProject (names : List String) : Location :=
  "project".toList :: names.map String.toList

def nestedEntry (location : Location) : Option Entry :=
  if location = [] ∨ location = inProject [] ∨
      location = inProject [".luminosity"] ∨
        location = inProject [".luminosity", "tmp"] ∨
          location = inProject ["nested"] ∨
            location = inProject ["nested", ".git"] ∨
              location = inProject ["late"] ∨
                location = inProject ["lured"] then
    some .directory
  else if location = inProject ["late", ".git"] then
    some (.link (located (inProject [".luminosity", "config.md"])))
  else
    none

/--
A project with a directory which has a repository, one with a link to the
team's file, which is not there, and an empty one.
-/
def nestedTree : Tree where
  entry := nestedEntry
  rooted := rfl
  closed := by
    intro location name present
    have above {front : Location} {last : Text}
        (same : location ++ [name] = front ++ [last]) : location = front :=
      (List.append_inj' same rfl).1
    rw [nestedEntry] at present
    split_ifs at present with directory link
    · rcases directory with
        same | same | same | same | same | same | same | same
      · simp at same
      · rw [@above [] _ same]
        rfl
      · rw [@above (inProject []) _ same]
        rfl
      · rw [@above (inProject [".luminosity"]) _ same]
        rfl
      · rw [@above (inProject []) _ same]
        rfl
      · rw [@above (inProject ["nested"]) _ same]
        rfl
      · rw [@above (inProject []) _ same]
        rfl
      · rw [@above (inProject []) _ same]
        rfl
    · rw [@above (inProject ["late"]) _ link]
      rfl
    · exact absurd rfl present

theorem nestedTree_scratch (name : Text) :
    nestedTree.entry (inProject [".luminosity", "tmp"] ++ [name]) = none := by
  show nestedEntry (inProject [".luminosity", "tmp"] ++ [name]) = none
  rw [nestedEntry, if_neg, if_neg]
  · intro same
    have lengths := congrArg List.length same
    simp [inProject] at lengths
  · rintro (same | same | same | same | same | same | same | same)
    all_goals
      have lengths := congrArg List.length same
      simp [inProject] at lengths

/-- The same project with a link of the next scratch file's name. -/
def baitedTree : Tree :=
  nestedTree.graft (inProject [".luminosity", "tmp"]) (tempName 0 0)
    (some (.link (located (inProject ["lured", ".git"])))) rfl
    (by simp [nestedTree_scratch])

theorem baitedTree_kept
    {location : Location}
    (short : location.length ≠ 4) :
    baitedTree.entry location = nestedTree.entry location := by
  apply Tree.graft_entry_of_ne
  rintro rfl
  exact short rfl

/-- A link to an absolute path is followed to its last name. -/
theorem walks_link
    {tree : Tree}
    {here front : Location}
    {name last : Text}
    {found : Found}
    (linked :
      tree.entry (here ++ [name]) = some (.link (located (front ++ [last]))))
    (isDirectory : tree.entry front = some .directory)
    (onward : Walks tree front [.normal last] found) :
    Walks tree here [.normal name] found := by
  refine .follow linked ?_
  rw [List.append_nil]
  have resolves :=
    (@resolves_located_child tree front last here found isDirectory).mpr
      onward
  rw [located_child] at resolves
  exact resolves

theorem storeAt_configPath
    (project : Location)
    (level : Level) :
    (storeAt project).configPath level =
      located (project ++ [".luminosity".toList] ++ [configName level]) := by
  rw [FileConfigStore.configPath_eq, FileConfigStore.configDir_eq,
    ← located_child, ← located_child]
  rfl

/-- A project with its own configuration and scratch directory. -/
theorem staged_located
    {setting : Setting}
    {world : World}
    {project : Location}
    (homeDirectory :
      world.tree.entry (project ++ [".luminosity".toList]) =
        some .directory)
    (scratchDirectory :
      world.tree.entry
          (project ++ [".luminosity".toList] ++ ["tmp".toList]) =
        some .directory) :
    Staged setting world (storeAt project)
      (project ++ [".luminosity".toList])
      (project ++ [".luminosity".toList] ++ ["tmp".toList]) := by
  have isHome :
      (storeAt project).configDir =
        located (project ++ [".luminosity".toList]) := by
    rw [FileConfigStore.configDir_eq, ← located_child]
    rfl
  constructor
  · rw [isHome]
    exact resolves_located homeDirectory
  · exact homeDirectory
  · rw [FileConfigStore.tempDir_eq, isHome, located_child]
    exact resolves_located scratchDirectory
  · exact scratchDirectory

/-- A directory of the sample project discovers the project. -/
theorem nearest_project_of_child
    {workdir : Location}
    {tree : Tree}
    {name : String}
    (project : tree.entry (inProject []) = some .directory)
    (home : tree.entry (inProject [".luminosity"]) = some .directory)
    (unmarked : ¬ Marked workdir tree (located (inProject [name]))) :
    Nearest (Marked workdir tree) (located (inProject [name]))
      (ancestors (located (inProject [name]))) (located (inProject [])) := by
  apply nearest_of_between
  · rw [marked_located_iff project]
    exact
      Or.inl
        ⟨_, .enter home (by rintro target ⟨⟩) (.arrive _), home⟩
  · exact List.prefix_append (inProject []) [name.toList]
  · rintro between ⟨above, below, different⟩
    change between <+: inProject [] ++ [name.toList] at below
    rcases List.prefix_concat_iff.mp below with rfl | shorter
    · exact unmarked
    · exact absurd (shorter.eq_of_length_le above.length_le) different

theorem nestedTree_late :
    ¬ Marked [] nestedTree (located (inProject ["late"])) := by
  have isDirectory :
      nestedTree.entry (inProject ["late"]) = some .directory := rfl
  rw [marked_located_iff isDirectory]
  rintro (⟨place, walks, _⟩ | ⟨place, walks⟩)
  · cases walks.deterministic (.miss isDirectory rfl)
  · have misses :
        Walks nestedTree (inProject ["late"]) [.normal ".git".toList]
          (.missing (inProject [".luminosity"]) "config.md".toList []) :=
      @walks_link nestedTree (inProject ["late"])
        (inProject [".luminosity"]) ".git".toList "config.md".toList _ rfl
        rfl (.miss rfl rfl)
    cases walks.deterministic misses

theorem baitedTree_lured :
    ¬ Marked [] baitedTree (located (inProject ["lured"])) := by
  have isDirectory :
      baitedTree.entry (inProject ["lured"]) = some .directory :=
    baitedTree_kept (by decide)
  have vacant {name : Text}
      (absent : nestedTree.entry (inProject ["lured"] ++ [name]) = none) :
      baitedTree.entry (inProject ["lured"] ++ [name]) = none :=
    (baitedTree_kept (by simp [inProject])).trans absent
  rw [marked_located_iff isDirectory]
  rintro (⟨place, walks, _⟩ | ⟨place, walks⟩)
  · cases walks.deterministic (.miss isDirectory (vacant rfl))
  · cases walks.deterministic (.miss isDirectory (vacant rfl))

/-- A set in the sample project, before which it has no file, succeeds. -/
theorem ensures_set_sample
    {tree : Tree}
    {location : Location}
    (home : tree.entry (inProject [".luminosity"]) = some .directory)
    (scratch :
      tree.entry (inProject [".luminosity", "tmp"]) = some .directory)
    (vacant :
      tree.entry (inProject [".luminosity"] ++ [configName .team]) = none)
    (opens :
      OpensAt [] tree ((storeAt (inProject [])).tempPath 0 0) location) :
    Ensures (calls (bestHost [] 0))
      (((storeAt (inProject [])).service smallSaphyr).set smallKey ['v']
        .team).run
      (onOk
        (fun _ =>
          Landed .team (inProject [".luminosity"])
            (inProject [".luminosity", "tmp"]) location (tempName 0 0))
        fun _ _ => False)
      (untouched tree fun _ => 0) := by
  have staged :
      Staged (bestHost [] 0) (untouched tree fun _ => 0)
        (storeAt (inProject [])) (inProject [".luminosity"])
        (inProject [".luminosity", "tmp"]) :=
    staged_located home scratch
  have inserted :
      Config.Service.insert [] smallKey.segments ['v'] smallKey =
        .ok smallMapping := rfl
  have rendering :
      render smallSaphyr none (.mapping smallMapping) =
        .ok "---\na: v\n---\n".toList := rfl
  exact
    @ensures_set_succeeds (bestHost [] 0) (untouched tree fun _ => 0)
      (storeAt (inProject [])) .team _ _ location smallSaphyr smallKey ['v'] _
      _ rfl staged vacant opens inserted rendering

/-- The next scratch file is written where its link leads. -/
theorem baitedTree_opens :
    OpensAt [] baitedTree ((storeAt (inProject [])).tempPath 0 0)
      (inProject ["lured", ".git"]) := by
  have scratch :
      baitedTree.entry (inProject [".luminosity", "tmp"]) =
        some .directory :=
    baitedTree_kept (by decide)
  have lured :
      baitedTree.entry (inProject ["lured"]) = some .directory :=
    baitedTree_kept (by decide)
  have vacant :
      baitedTree.entry (inProject ["lured"] ++ [".git".toList]) = none :=
    baitedTree_kept (by decide)
  have linked :
      baitedTree.entry
          (inProject [".luminosity", "tmp"] ++ [tempName 0 0]) =
        some (.link (located (inProject ["lured"] ++ [".git".toList]))) :=
    Tree.graft_entry_self rfl (by simp [nestedTree_scratch])
  have staged :
      Staged (bestHost [] 0) (untouched baitedTree fun _ => 0)
        (storeAt (inProject [])) (inProject [".luminosity"])
        (inProject [".luminosity", "tmp"]) :=
    staged_located (baitedTree_kept (by decide)) scratch
  rw [FileConfigStore.tempPath_eq]
  left
  exact
    ⟨inProject ["lured"], ".git".toList,
      resolves_child staged.scratchFound
        (walks_link linked lured (.miss lured vacant)),
      rfl⟩

/-- What landed through the link marks the directory it is in. -/
theorem lured_after
    {after : World}
    (landed :
      Landed .team (inProject [".luminosity"])
        (inProject [".luminosity", "tmp"]) (inProject ["lured", ".git"])
        (tempName 0 0) after) :
    Marked [] after.tree (located (inProject ["lured"])) := by
  have notScratch (name : Text) :
      inProject ["lured", ".git"] ≠
        inProject [".luminosity", "tmp"] ++ [name] := by
    intro same
    have lengths := congrArg List.length same
    simp [inProject] at lengths
  rcases landed (notScratch _) (by decide) with ⟨bytes, file⟩
  change
    after.tree.entry (inProject ["lured"] ++ [".git".toList]) = _ at file
  have isDirectory :
      after.tree.entry (inProject ["lured"]) = some .directory := by
    apply after.tree.closed (inProject ["lured"]) ".git".toList
    rw [file]
    simp
  rw [marked_located_iff isDirectory]
  exact Or.inr ⟨_, .enter file (by rintro target ⟨⟩) (.arrive _)⟩

/-- After a set, the link to the team's file leads somewhere. -/
theorem late_after
    {after : World}
    {contents : Text}
    {home : Location}
    (wrote :
      Wrote (bestHost [] 0) (untouched nestedTree fun _ => 0)
        (storeAt (inProject [])) .team contents home after) :
    Marked [] after.tree (located (inProject ["late"])) := by
  have isDirectory :
      after.tree.entry (inProject ["late"]) = some .directory :=
    wrote.rewrites.directory rfl
  have linked :
      after.tree.entry (inProject ["late"] ++ [".git".toList]) =
        some (.link
          (located
            (inProject [".luminosity"] ++ ["config.md".toList]))) := by
    have kept :=
      wrote.elsewhere (inProject ["late"] ++ [".git".toList])
        (not_places rfl (Or.inr rfl) (by decide))
    exact kept.trans rfl
  have configDirectory :
      after.tree.entry (inProject [".luminosity"]) = some .directory :=
    wrote.rewrites.directory rfl
  have resolves := written_resolves wrote []
  rw [storeAt_configPath, ← located_child] at resolves
  have onward := (resolves_located_child configDirectory).mp resolves
  rw [marked_located_iff isDirectory]
  exact Or.inr ⟨_, walks_link linked configDirectory onward⟩

/-- A directory with its own repository stays marked. -/
theorem nested_after
    {after : World}
    {contents : Text}
    {home : Location}
    (wrote :
      Wrote (bestHost [] 0) (untouched nestedTree fun _ => 0)
        (storeAt (inProject [])) .team contents home after) :
    Marked [] after.tree (located (inProject ["nested"])) := by
  have isDirectory :
      after.tree.entry (inProject ["nested"]) = some .directory :=
    wrote.rewrites.directory rfl
  have repository :
      after.tree.entry (inProject ["nested"] ++ [".git".toList]) =
        some .directory :=
    wrote.rewrites.directory rfl
  rw [marked_located_iff isDirectory]
  exact Or.inr ⟨_, .enter repository (by rintro target ⟨⟩) (.arrive _)⟩

theorem nestedTree_staged :
    Staged (bestHost [] 0) (untouched nestedTree fun _ => 0)
      (storeAt (inProject [])) (inProject [".luminosity"])
      (inProject [".luminosity", "tmp"]) :=
  staged_located rfl rfl

theorem nestedTree_unlinked :
    ScratchUnlinked (bestHost [] 0) (untouched nestedTree fun _ => 0)
      (storeAt (inProject [])) := by
  rintro ⟨parent, name, target, names, linked⟩
  rcases names_tempPath names with ⟨rfl, resolves, _⟩
  cases Walks.deterministic nestedTree_staged.scratchFound resolves
  exact absurd ((nestedTree_scratch _).symm.trans linked) (by simp)

/-- The set in the project succeeds and writes the file of the team. -/
theorem ensures_set_nested :
    Ensures (calls (bestHost [] 0))
      (((storeAt (inProject [])).service smallSaphyr).set smallKey ['v']
        .team).run
      (onOk
        (fun _ after => ∃ contents home,
          Wrote (bestHost [] 0) (untouched nestedTree fun _ => 0)
            (storeAt (inProject [])) .team contents home after)
        fun _ _ => False)
      (untouched nestedTree fun _ => 0) := by
  have opens :=
    opensAt_tempPath nestedTree_staged
      (Or.inl (nestedTree_scratch (tempName 0 0)))
  have succeeds := ensures_set_sample rfl rfl rfl opens
  have wrote :=
    ensures_set_wrote smallSaphyr smallKey ['v'] .team
      ⟨inProject [], resolves_located rfl, rfl⟩ nestedTree_unlinked
  apply (succeeds.and wrote).mono
  rintro result after ⟨succeeded, outcome⟩
  cases result with
  | error error => exact succeeded
  | ok _ =>
      rcases outcome with ⟨contents, home, _, wrote⟩
      exact ⟨contents, home, wrote⟩

/-- A directory of the project which has no marks, nor links of their names. -/
theorem nestedTree_lured :
    ¬ Marked [] nestedTree (located (inProject ["lured"])) ∧
      ¬ Dangling [] nestedTree (located (inProject ["lured"])) := by
  have isDirectory :
      nestedTree.entry (inProject ["lured"]) = some .directory := rfl
  constructor
  · rw [marked_located_iff isDirectory]
    rintro (⟨place, walks, _⟩ | ⟨place, walks⟩)
    · cases walks.deterministic (.miss isDirectory rfl)
    · cases walks.deterministic (.miss isDirectory rfl)
  · rintro ⟨mark, isMark, ⟨parent, name, target, names, linked⟩, _⟩
    rw [join_plain _ isMark.plain, names_child] at names
    rcases names with ⟨rfl, resolves, _⟩
    cases Walks.deterministic (resolves_located isDirectory) resolves
    rcases isMark with rfl | rfl
    · cases linked
    · cases linked

/-- A set in the project is found again from where it was run. -/
theorem discovery_stable_nested :
    ∃ after contents,
      Runs (sighted (bestHost [] 0))
          (configSet smallSaphyr (located (inProject ["lured"])) smallKey
            ['v'] .team).run
          (untouched nestedTree fun _ => 0) (.ok ()) after ∧
        Rendered smallSaphyr smallKey ['v'] contents ∧
          Rediscovers smallSaphyr (inProject []) .team contents after
            (inProject ["lured"]) := by
  have fromLured :
      Nearest (Marked [] nestedTree) (located (inProject ["lured"]))
        (ancestors (located (inProject ["lured"])))
        (located (inProject [])) :=
    nearest_project_of_child rfl rfl nestedTree_lured.1
  rcases exists_configSet rfl fromLured ensures_set_nested with
    ⟨after, runs, _⟩
  rcases (discovery_stable smallSaphyr (bestHost [] 0)
      (untouched nestedTree fun _ => 0)).2 _ _ _ _ _ rfl runs with
    ⟨project, nearest, _, stable⟩
  have same : project = inProject [] :=
    located_injective (nearest.deterministic fromLured)
  subst same
  rcases stable nestedTree_unlinked with ⟨contents, rendered, again, _⟩
  refine ⟨after, contents, runs, rendered, again ?_⟩
  rintro between ⟨above, below, different⟩
  change between <+: inProject [] ++ ["lured".toList] at below
  rcases List.prefix_concat_iff.mp below with rfl | shorter
  · exact nestedTree_lured.2
  · exact absurd (shorter.eq_of_length_le above.length_le) different

/--
The search passes a link named like a repository which leads nowhere, and stops
at a directory which has its own repository.  A set changes what it returns: it
makes such a link lead somewhere, and through a link of the scratch file's name
it makes a mark.
-/
theorem discovery_unsettled :
    (nestedTree.entry (inProject ["late", ".git"]) ≠ none ∧
      Discovers (bestHost [] 0) (untouched nestedTree fun _ => 0)
        (inProject ["late"]) (inProject []) ∧
      ScratchUnlinked (bestHost [] 0) (untouched nestedTree fun _ => 0)
        (storeAt (inProject [])) ∧
      ∃ after,
        Runs (sighted (bestHost [] 0))
            (configSet smallSaphyr (located (inProject ["late"])) smallKey
              ['v'] .team).run
            (untouched nestedTree fun _ => 0) (.ok ()) after ∧
          Discovers (bestHost [] 0) after (inProject ["nested"])
              (inProject ["nested"]) ∧
            Discovers (bestHost [] 0) after (inProject ["late"])
              (inProject ["late"])) ∧
      Discovers (bestHost [] 0) (untouched baitedTree fun _ => 0)
          (inProject ["lured"]) (inProject []) ∧
        ∃ after,
          Runs (sighted (bestHost [] 0))
              (configSet smallSaphyr (located (inProject ["lured"]))
                smallKey ['v'] .team).run
              (untouched baitedTree fun _ => 0) (.ok ()) after ∧
            Discovers (bestHost [] 0) after (inProject ["lured"])
              (inProject ["lured"]) := by
  have fromLate :
      Nearest (Marked [] nestedTree) (located (inProject ["late"]))
        (ancestors (located (inProject ["late"])))
        (located (inProject [])) :=
    nearest_project_of_child rfl rfl nestedTree_late
  have home :
      baitedTree.entry (inProject [".luminosity"]) = some .directory :=
    baitedTree_kept (by decide)
  have vacant :
      baitedTree.entry (inProject [".luminosity"] ++ [configName .team]) =
        none :=
    baitedTree_kept (by decide)
  have fromLured :
      Nearest (Marked [] baitedTree) (located (inProject ["lured"]))
        (ancestors (located (inProject ["lured"])))
        (located (inProject [])) :=
    nearest_project_of_child (baitedTree_kept (by decide)) home
      baitedTree_lured
  constructor
  · rcases exists_configSet rfl fromLate ensures_set_nested with
      ⟨after, runs, contents, home, wrote⟩
    exact
      ⟨by decide, discoverRoot_eq fromLate, nestedTree_unlinked, after, runs,
        discoverRoot_eq (nearest_self (nested_after wrote)),
        discoverRoot_eq (nearest_self (late_after wrote))⟩
  · have succeeds :=
      ensures_set_sample home (baitedTree_kept (by decide)) vacant
        baitedTree_opens
    rcases exists_configSet rfl fromLured succeeds with
      ⟨after, runs, landed⟩
    exact
      ⟨discoverRoot_eq fromLured, after, runs,
        discoverRoot_eq (nearest_self (lured_after landed))⟩

end Luminosity.Adapters.DiscoveryStability
