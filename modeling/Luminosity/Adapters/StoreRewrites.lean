import Luminosity.Adapters.StoreWriteContainment
import Luminosity.Host.TreeRewrites

/-!
# What a successful write leaves of the tree

A write makes the configuration and the scratch directory where they are
missing, fills the scratch file and renames it onto the level's file.  When it
succeeds, and the scratch file was no symbolic link, the tree differs from the
one before in these places only.

On a dependable host a level's file is read unless it escapes, and setting a
key succeeds in a project which has its directories and no file yet.
-/

namespace Luminosity.Adapters.StoreRewrites

open Luminosity.Foundation.TextSegments
open Luminosity.Foundation.EffectPrograms
open Luminosity.Config.Domain
open Luminosity.Config.Service
open Luminosity.Host.Paths
open Luminosity.Host.Calls
open Luminosity.Host.FileTree
open Luminosity.Host.TreeHost
open Luminosity.Host.TreeRewrites
open Luminosity.Adapters.Frontmatter
open Luminosity.Adapters.Document
open Luminosity.Adapters.Store
open Luminosity.Adapters.Store.FileConfigStore
open Luminosity.Adapters.StoreContainment
open Luminosity.Adapters.StoreDocuments
open Luminosity.Adapters.StoreWriteContainment

/-- The name of a level's file. -/
def configName (level : Level) : Text :=
  "config".toList ++ level.qualifier ++ ".md".toList

theorem tempName_ne_configName
    (process : UInt32)
    (count : UInt64)
    (level : Level) :
    tempName process count ≠ configName level := by
  intro same
  unfold tempName configName at same
  simp only [List.append_assoc] at same
  have after :
      "-".toList ++ (decimal process.toNat ++
          ("-".toList ++ (decimal count.toNat ++ ".tmp".toList))) =
        level.qualifier ++ ".md".toList :=
    List.append_cancel_left (show "config".toList ++ _ = _ from same)
  cases level with
  | team => exact absurd (List.cons.inj after).1 (by decide)
  | personal => exact absurd (List.cons.inj after).1 (by decide)

theorem configName_ne_scratch
    (home scratch : Location)
    (process : UInt32)
    (count : UInt64)
    (level : Level) :
    home ++ [configName level] ≠ scratch ++ [tempName process count] := by
  intro same
  have last := (List.cons.inj (List.append_inj' same rfl).2).1
  exact tempName_ne_configName process count level last.symm

section Effects

variable {setting : Setting} {world : World} {store : FileConfigStore}
variable {level : Level} {home scratch : Location}
variable {process : UInt32} {count : UInt64}

/-! ## The directories which are made -/

/-- The configuration directory of the project, or a scratch directory. -/
def Made
    (setting : Setting)
    (world : World)
    (store : FileConfigStore)
    (location : Location) : Prop :=
  (∃ project,
    Resolves setting.workdir world.tree store.root (.present project) ∧
      location = project ++ [".luminosity".toList]) ∨
    ∃ parent, location = parent ++ ["tmp".toList]

/-- The tree has grown by directories which were made. -/
def Grown
    (setting : Setting)
    (world : World)
    (store : FileConfigStore)
    (after : World) : Prop :=
  ∀ location,
    after.tree.entry location = world.tree.entry location ∨
      (world.tree.entry location = none ∧
        after.tree.entry location = some .directory ∧
          Made setting world store location)

theorem grown_refl : Grown setting world store world :=
  fun _ => Or.inl rfl

/-- A directory which is made where nothing was makes the tree grow. -/
theorem Grown.change
    {before after : World}
    {parent : Location}
    {name : Text}
    (grown : Grown setting world store before)
    (vacant : before.tree.entry (parent ++ [name]) = none)
    (made : Made setting world store (parent ++ [name]))
    (changes : Changes before parent name (some .directory) after) :
    Grown setting world store after := by
  rcases changes with ⟨inside, childless, rfl⟩
  intro location
  by_cases same : location = parent ++ [name]
  · subst same
    right
    rcases grown (parent ++ [name]) with kept | ⟨_, directory, _⟩
    · rw [vacant] at kept
      exact
        ⟨kept.symm, Tree.graft_entry_self inside childless, made⟩
    · rw [vacant] at directory
      cases directory
  · have kept :
        (before.change parent name (some .directory) inside
            childless).tree.entry location =
          before.tree.entry location :=
      Tree.graft_entry_of_ne inside childless same
    rw [kept]
    exact grown location

theorem grown_keptByMaking
    (setting : Setting)
    (world : World)
    (store : FileConfigStore) :
    KeptByMaking setting world store (Grown setting world store) where
  home rooted _ vacant changes grown :=
    grown.change vacant (Or.inl ⟨_, rooted, rfl⟩) changes
  scratch _ vacant changes grown :=
    grown.change vacant (Or.inr ⟨_, rfl⟩) changes

/-! ## The scratch file -/

/-- The scratch path opens its own entry, unless that is a link. -/
theorem opens_scratch
    {location : Location}
    (staged : Staged setting world store home scratch)
    (notLink : ∀ target,
      world.tree.entry (scratch ++ [tempName process count]) ≠
        some (.link target))
    (opens :
      OpensAt setting.workdir world.tree (store.tempPath process count)
        location) :
    location = scratch ++ [tempName process count] := by
  cases present :
      world.tree.entry (scratch ++ [tempName process count]) with
  | none =>
      exact Opens.deterministic opens
        (opensAt_tempPath staged (Or.inl present))
  | some entry =>
      cases entry with
      | file bytes =>
          exact Opens.deterministic opens
            (opensAt_tempPath staged (Or.inr ⟨bytes, present⟩))
      | link target => exact absurd present (notLink target)
      | directory =>
          have arrives :
              Resolves setting.workdir world.tree
                (store.tempPath process count)
                (.present (scratch ++ [tempName process count])) := by
            rw [FileConfigStore.tempPath_eq]
            exact resolves_child staged.scratchFound
              (.enter present (by rintro target ⟨⟩) (.arrive _))
          rcases opens with ⟨_, _, misses, _⟩ | ⟨_, again, file⟩
          · cases Walks.deterministic arrives misses
          · cases Walks.deterministic arrives again
            rfl

/-- The scratch file holds some bytes; all else is as in the tree before. -/
structure Drafted
    (setting : Setting)
    (store : FileConfigStore)
    (home scratch : Location)
    (name : Text)
    (base : Tree)
    (bytes : Bytes)
    (world : World) : Prop where
  staged : Staged setting world store home scratch
  vacant :
    base.entry (scratch ++ [name]) = none ∨
      ∃ old, base.entry (scratch ++ [name]) = some (.file old)
  drafted : world.tree.entry (scratch ++ [name]) = some (.file bytes)
  others : ∀ location, location ≠ scratch ++ [name] →
    world.tree.entry location = base.entry location

theorem drafted_create
    {after : World}
    {parent : Location}
    {name : Text}
    (staged : Staged setting world store home scratch)
    (notLink : ∀ target,
      world.tree.entry (scratch ++ [tempName process count]) ≠
        some (.link target))
    (opens :
      OpensAt setting.workdir world.tree (store.tempPath process count)
        (parent ++ [name]))
    (changes : Changes world parent name (some (.file [])) after) :
    Drafted setting store home scratch (tempName process count) world.tree []
      after := by
  have same := opens_scratch staged notLink opens
  rcases List.append_inj' same rfl with ⟨rfl, last⟩
  cases last
  have stagedAfter := staged.change changes opens.not_link
  rcases changes with ⟨inside, childless, rfl⟩
  constructor
  · exact stagedAfter
  · rcases opens with ⟨_, _, misses, whole⟩ | ⟨old, _, file⟩
    · left
      rw [whole]
      exact misses.missing.2
    · exact Or.inr ⟨old, file⟩
  · exact Tree.graft_entry_self inside childless
  · intro location different
    exact Tree.graft_entry_of_ne inside childless different

theorem Drafted.append
    {base : Tree}
    {bytes old new : Bytes}
    {after : World}
    {parent : Location}
    {name : Text}
    (isDrafted :
      Drafted setting store home scratch (tempName process count) base bytes
        world)
    (resolves :
      Resolves setting.workdir world.tree (store.tempPath process count)
        (.present (parent ++ [name])))
    (file : world.tree.entry (parent ++ [name]) = some (.file old))
    (changes : Changes world parent name (some (.file new)) after) :
    old = bytes ∧
      Drafted setting store home scratch (tempName process count) base new
        after := by
  have notLink : ∀ target,
      world.tree.entry (scratch ++ [tempName process count]) ≠
        some (.link target) := by
    intro target
    rw [isDrafted.drafted]
    rintro ⟨⟩
  have opens :
      OpensAt setting.workdir world.tree (store.tempPath process count)
        (parent ++ [name]) :=
    Or.inr ⟨old, resolves, file⟩
  have same := opens_scratch isDrafted.staged notLink opens
  rcases List.append_inj' same rfl with ⟨rfl, last⟩
  cases last
  have stagedAfter := isDrafted.staged.change changes notLink
  rcases changes with ⟨inside, childless, rfl⟩
  constructor
  · rw [isDrafted.drafted] at file
    cases file
    rfl
  · constructor
    · exact stagedAfter
    · exact isDrafted.vacant
    · exact Tree.graft_entry_self inside childless
    · intro location different
      exact
        (Tree.graft_entry_of_ne inside childless different).trans
          (isDrafted.others location different)

/-! ## The rename -/

/--
The level's file holds the bytes and the scratch file is gone; all else is as
in the tree before.
-/
structure Replaced
    (setting : Setting)
    (store : FileConfigStore)
    (level : Level)
    (home scratch : Location)
    (name : Text)
    (base : Tree)
    (bytes : Bytes)
    (after : World) : Prop where
  vacant :
    base.entry (scratch ++ [name]) = none ∨
      ∃ old, base.entry (scratch ++ [name]) = some (.file old)
  written : after.tree.entry (home ++ [configName level]) = some (.file bytes)
  gone : after.tree.entry (scratch ++ [name]) = none
  others : ∀ location,
    location ≠ scratch ++ [name] →
      location ≠ home ++ [configName level] →
        after.tree.entry location = base.entry location
  staged :
    (∀ target,
      base.entry (home ++ [configName level]) ≠ some (.link target)) →
      Staged setting after store home scratch

theorem Drafted.rename
    {base : Tree}
    {bytes : Bytes}
    {after : World}
    (isDrafted :
      Drafted setting store home scratch (tempName process count) base bytes
        world)
    (step :
      calls setting
        (.rename (store.tempPath process count) (store.configPath level))
        world (.ok ()) after) :
    Replaced setting store level home scratch (tempName process count) base
      bytes after := by
  rcases step with
    ⟨parent, name, entry, middle, above, last, names, present, targetNames,
      removed, replaced⟩
  rcases names_tempPath names with ⟨rfl, scratchFound, _⟩
  cases Walks.deterministic isDrafted.staged.scratchFound scratchFound
  rw [FileConfigStore.configPath_eq, names_child] at targetNames
  rcases targetNames with ⟨rfl, homeFound, _⟩
  cases Walks.deterministic isDrafted.staged.homeFound homeFound
  have isFile : entry = .file bytes := by
    rw [isDrafted.drafted] at present
    cases present
    rfl
  subst isFile
  have notLink : ∀ target,
      world.tree.entry (scratch ++ [tempName process count]) ≠
        some (.link target) := by
    intro target
    rw [present]
    rintro ⟨⟩
  have different :=
    configName_ne_scratch home scratch process count level
  have stagedMiddle := isDrafted.staged.change removed notLink
  have middleEntry : ∀ location,
      location ≠ scratch ++ [tempName process count] →
        middle.tree.entry location = base.entry location := by
    intro location other
    rw [← isDrafted.others location other]
    rcases removed with ⟨inside, childless, rfl⟩
    exact Tree.graft_entry_of_ne inside childless other
  have middleGone :
      middle.tree.entry (scratch ++ [tempName process count]) = none := by
    rcases removed with ⟨inside, childless, rfl⟩
    exact Tree.graft_entry_self inside childless
  constructor
  · exact isDrafted.vacant
  · rcases replaced with ⟨inside, childless, rfl⟩
    exact Tree.graft_entry_self inside childless
  · rw [← middleGone]
    rcases replaced with ⟨inside, childless, rfl⟩
    exact Tree.graft_entry_of_ne inside childless different.symm
  · intro location notScratch notTarget
    rw [← middleEntry location notScratch]
    rcases replaced with ⟨inside, childless, rfl⟩
    exact Tree.graft_entry_of_ne inside childless notTarget
  · intro solid
    apply stagedMiddle.change replaced
    intro target
    change
      middle.tree.entry (home ++ [configName level]) ≠ some (.link target)
    rw [middleEntry _ different]
    exact solid target

/--
The rule for a replacement by what its calls come through when they succeed,
where some of them may fail or none does.
-/
theorem ensures_replaceBy_onOk
    {State : Type}
    {semantics : Semantics host State}
    {failed : Prop}
    {pre final : State → Prop}
    {progress : Bytes → State → Prop}
    {temp target : Path}
    {contents : Text}
    (created : ∀ before answer after, pre before →
      semantics (.create temp) before answer after →
        onOk (fun _ => progress []) (fun _ _ => failed) answer after)
    (appended : ∀ written byte before answer after, progress written before →
      semantics (.append temp byte) before answer after →
        onOk (fun _ => progress (written ++ [byte])) (fun _ _ => failed)
          answer after)
    (renamed : ∀ before answer after, progress (encode contents) before →
      semantics (.rename temp target) before answer after →
        onOk (fun _ => final) (fun _ _ => failed) answer after)
    {state : State}
    (holds : pre state) :
    Ensures semantics (replaceBy target contents temp).run
      (onOk (fun _ => final) fun _ _ => failed) state := by
  have discarded (error : ConfigError) (before : State) (may : failed) :
      Ensures semantics (discard temp error : StoreProgram Unit).run
        (onOk (fun _ => final) fun _ _ => failed) before := by
    rw [FileConfigStore.discard, ensures_invoke_bind]
    intro answer after step
    exact may
  rw [replaceBy, ensures_run_bind, ensures_run_lift]
  apply (ensures_writeFile created appended (encode contents) holds).mono
  intro result middle ready
  cases result with
  | error error => exact discarded _ middle ready
  | ok _ =>
      simp only [onOk_ok]
      rw [ensures_invoke_bind]
      intro answer after step
      have outcome := renamed middle answer after ready step
      cases answer with
      | error error => exact discarded _ after outcome
      | ok _ => exact outcome

theorem ensures_replaceBy_replaced
    (staged : Staged setting world store home scratch)
    (notLink : ∀ target,
      world.tree.entry (scratch ++ [tempName process count]) ≠
        some (.link target))
    (level : Level)
    (contents : Text) :
    Ensures (calls setting)
      (replaceBy (store.configPath level) contents
        (store.tempPath process count)).run
      (onOk
        (fun _ after =>
          Replaced setting store level home scratch
            (tempName process count) world.tree (encode contents) after)
        fun _ _ => True)
      world := by
  apply @ensures_replaceBy_onOk _ _ True (fun before => before = world) _
    (Drafted setting store home scratch (tempName process count) world.tree)
  · rintro before answer after rfl step
    cases answer with
    | error error => trivial
    | ok _ =>
        rcases step with ⟨parent, name, opens, changes⟩
        exact drafted_create staged notLink opens changes
  · intro written byte before answer after isDrafted step
    cases answer with
    | error error => trivial
    | ok _ =>
        rcases step with ⟨parent, name, old, resolves, file, changes⟩
        rcases isDrafted.append resolves file changes with ⟨rfl, next⟩
        exact next
  · intro before answer after isDrafted step
    cases answer with
    | error error => trivial
    | ok _ => exact isDrafted.rename step
  · rfl

/-! ## The write as a whole -/

/-- Where a write changes the tree. -/
def Places
    (setting : Setting)
    (world : World)
    (store : FileConfigStore)
    (level : Level)
    (home location : Location) : Prop :=
  Made setting world store location ∨
    location = home ++ [configName level] ∨
      ∃ parent process count, location = parent ++ [tempName process count]

/-- The level's file in the configuration directory has the contents. -/
structure Wrote
    (setting : Setting)
    (world : World)
    (store : FileConfigStore)
    (level : Level)
    (contents : Text)
    (home : Location)
    (after : World) : Prop where
  rewrites :
    Rewrites world.tree after.tree (home ++ [configName level])
  elsewhere : ∀ location,
    ¬ Places setting world store level home location →
      after.tree.entry location = world.tree.entry location
  homeFound :
    Resolves setting.workdir after.tree store.configDir (.present home)
  homeDirectory : after.tree.entry home = some .directory
  written :
    after.tree.entry (home ++ [configName level]) =
      some (.file (encode contents))

/-- What was read is the file the path leads to, or nothing is there. -/
theorem content_settled
    {path : Path}
    {existing : Option Text}
    (content : Content setting world path existing) :
    ∃ found, Resolves setting.workdir world.tree path found ∧
      ∀ place, found = .present place →
        ∃ bytes, world.tree.entry place = some (.file bytes) := by
  cases existing with
  | none =>
      rcases content with ⟨parent, name, rest, misses⟩
      refine ⟨_, misses, ?_⟩
      rintro place ⟨⟩
  | some text =>
      rcases content with ⟨place, bytes, arrives, file, _⟩
      refine ⟨_, arrives, ?_⟩
      rintro _ ⟨⟩
      exact ⟨bytes, file⟩

/-- The configuration directory was where it is, if it was there. -/
theorem home_found
    (isHome : Home setting.workdir world.tree store home)
    (directory : world.tree.entry home = some .directory) :
    Resolves setting.workdir world.tree store.configDir (.present home) := by
  rcases isHome with found | ⟨parent, name, misses, rfl⟩
  · exact found
  · rw [misses.missing.2] at directory
    cases directory

theorem target_settled
    {existing : Option Text}
    (isHome : Home setting.workdir world.tree store home)
    (content : Content setting world (store.configPath level) existing)
    (directory : world.tree.entry home = some .directory) :
    Settled world.tree home [.normal (configName level)] := by
  have homeFound := home_found isHome directory
  rcases content_settled content with ⟨found, resolves, file⟩
  rw [FileConfigStore.configPath_eq] at resolves
  rcases resolves_child_cases resolves with
    ⟨other, arrives, onward⟩ | ⟨parent, missed, rest, misses, _⟩
  · cases Walks.deterministic homeFound arrives
    exact ⟨found, onward, file⟩
  · cases Walks.deterministic homeFound misses

section Outcome

variable {middle after : World} {contents : Text}
variable {existing : Option Text}
variable (isHome : Home setting.workdir world.tree store home)
variable (content : Content setting world (store.configPath level) existing)
variable (grown : Grown setting world store middle)
variable (staged : Staged setting middle store home scratch)
variable (replaced :
  Replaced setting store level home scratch (tempName process count)
    middle.tree (encode contents) after)

include isHome content grown replaced

theorem rewrites_of_replaced :
    Rewrites world.tree after.tree (home ++ [configName level]) := by
  constructor
  · intro location notTarget
    by_cases isScratch : location = scratch ++ [tempName process count]
    · rw [isScratch, replaced.gone]
      rcases grown (scratch ++ [tempName process count]) with
        kept | ⟨vacant, _⟩
      · rw [← kept]
        rcases replaced.vacant with vacant | file
        · exact Or.inl vacant.symm
        · exact Or.inr (Or.inr ⟨file, rfl⟩)
      · exact Or.inl vacant.symm
    · rw [replaced.others location isScratch notTarget]
      rcases grown location with kept | ⟨vacant, directory, _⟩
      · exact Or.inl kept
      · exact Or.inr (Or.inl ⟨vacant, directory⟩)
  · exact ⟨_, replaced.written⟩
  · intro parent name whole directory
    rcases List.append_inj' whole rfl with ⟨rfl, last⟩
    rw [← (List.cons.inj last).1]
    exact target_settled isHome content directory

include staged

/-- The configuration directory is where it was, or where it was made. -/
theorem homeFound_of_replaced :
    Resolves setting.workdir after.tree store.configDir (.present home) ∧
      after.tree.entry home = some .directory := by
  have rewrites := rewrites_of_replaced isHome content grown replaced
  rcases grown home with kept | ⟨vacant, _, _⟩
  · have directory : world.tree.entry home = some .directory := by
      rw [← kept]
      exact staged.homeDirectory
    constructor
    · exact
        rewrites.walks_after (home_found isHome directory) directory
    · exact rewrites.directory directory
  · -- A new directory has no link in it.
    have fresh := Tree.entry_below_none vacant (configName level)
    have solid : ∀ target,
        middle.tree.entry (home ++ [configName level]) ≠
          some (.link target) := by
      intro target linked
      rcases grown (home ++ [configName level]) with kept | ⟨_, made, _⟩
      · rw [kept, fresh] at linked
        cases linked
      · rw [made] at linked
        cases linked
    have stagedAfter := replaced.staged solid
    exact ⟨stagedAfter.homeFound, stagedAfter.homeDirectory⟩

theorem wrote_of_replaced :
    Wrote setting world store level contents home after := by
  have found :=
    homeFound_of_replaced isHome content grown staged replaced
  constructor
  · exact rewrites_of_replaced isHome content grown replaced
  · intro location elsewhere
    simp only [Places, not_or] at elsewhere
    rcases elsewhere with ⟨notMade, notTarget, notTemp⟩
    have notScratch : location ≠ scratch ++ [tempName process count] := by
      intro same
      exact notTemp ⟨scratch, process, count, same⟩
    rw [replaced.others location notScratch notTarget]
    rcases grown location with kept | ⟨_, _, made⟩
    · exact kept
    · exact absurd made notMade
  · exact found.1
  · exact found.2
  · exact replaced.written

end Outcome

/-- The scratch file of the next write is no symbolic link. -/
def ScratchUnlinked
    (setting : Setting)
    (world : World)
    (store : FileConfigStore) : Prop :=
  ¬ SymlinkAt setting.workdir world.tree
    (store.tempPath setting.process (world.counter setting.process))

theorem Scaffolded.unlinked
    {after : World}
    (unlinked :
      ¬ SymlinkAt setting.workdir world.tree (store.tempPath process count))
    (staged : Staged setting after store home scratch)
    (origin :
      after = world ∨
        home <+: scratch ∧
          ∀ name, after.tree.entry (scratch ++ [name]) = none)
    (target : Path) :
    after.tree.entry (scratch ++ [tempName process count]) ≠
      some (.link target) := by
  intro linked
  rcases origin with rfl | ⟨_, empty⟩
  · apply unlinked
    refine ⟨scratch, tempName process count, target, ?_, linked⟩
    rw [FileConfigStore.tempPath_eq, names_child]
    exact ⟨rfl, staged.scratchFound, staged.scratchDirectory⟩
  · rw [empty] at linked
    cases linked

/-- A write which succeeds writes what it renders, and nothing elsewhere. -/
theorem ensures_write_wrote
    (saphyr : Saphyr)
    (level : Level)
    (document : Node)
    (rooted : LeadsToDirectory setting.workdir world.tree store.root)
    (unlinked : ScratchUnlinked setting world store) :
    Ensures (calls setting) (store.write saphyr level document).run
      (onOk
        (fun _ after =>
          ∃ existing rendered home,
            Content setting world (store.configPath level) existing ∧
              render saphyr existing document = .ok rendered ∧
                Wrote setting world store level rendered home after)
        fun _ _ => True)
      world := by
  apply ensures_write_of
  · intro error
    trivial
  intro existing rendered _ content rendering
  have scaffolded :=
    ensures_createScratch rooted (grown_keptByMaking _ _ _) grown_refl
  apply ensures_atomicWrite_of fun middle =>
    (Scaffolded setting world store middle ∧
      middle.counter = world.counter) ∧
        Grown setting world store middle
  · apply scaffolded.mono
    intro result middle outcome
    cases result with
    | error error =>
        intro error
        trivial
    | ok _ => exact ⟨outcome.1 rfl, outcome.2⟩
  · rintro middle ⟨⟨made, counted⟩, grown⟩
    rcases made with ⟨home, scratch, isHome, staged, origin⟩
    have notLink := Scaffolded.unlinked unlinked staged origin
    rw [counted]
    apply (ensures_replaceBy_replaced (staged.advance setting.process)
      notLink level rendered).mono
    intro result after replaced
    cases result with
    | error error => trivial
    | ok _ =>
        exact
          ⟨existing, rendered, home, content, rendering,
            wrote_of_replaced isHome content grown staged replaced⟩

/-- A text which setting the key renders. -/
def Rendered
    (saphyr : Saphyr)
    (key : Key)
    (value contents : Text) : Prop :=
  ∃ document root existing,
    Config.Service.insert (rootMapping document) key.segments value key =
        .ok root ∧
      render saphyr existing (.mapping root) = .ok contents

/-- Setting a key which succeeds writes the level's file, and no other. -/
theorem ensures_set_wrote
    (saphyr : Saphyr)
    (key : Key)
    (value : Text)
    (level : Level)
    (rooted : LeadsToDirectory setting.workdir world.tree store.root)
    (unlinked : ScratchUnlinked setting world store) :
    Ensures (calls setting) ((store.service saphyr).set key value level).run
      (onOk
        (fun _ after =>
          ∃ contents home,
            Rendered saphyr key value contents ∧
              Wrote setting world store level contents home after)
        fun _ _ => True)
      world := by
  rw [ConfigService.set]
  apply Ensures.run_bind (finds_read saphyr level)
  swap
  · rintro error after _
    trivial
  rintro document after ⟨rfl, _⟩
  rw [ensures_run_bind]
  cases inserted :
      Config.Service.insert (rootMapping document) key.segments value
        key with
  | error error => trivial
  | ok root =>
      apply (ensures_write_wrote saphyr level (.mapping root) rooted
        unlinked).mono
      intro result after outcome
      cases result with
      | error error => trivial
      | ok _ =>
          rcases outcome with
            ⟨existing, rendered, home, _, rendering, wrote⟩
          exact
            ⟨rendered, home, ⟨document, root, existing, inserted, rendering⟩,
              wrote⟩

/-! ## What succeeds on a dependable host -/

section Success

variable {existing : Option Text} {location : Location}

/-- A dependable host reads the document of a file which does not escape. -/
theorem ensures_read_content
    (saphyr : Saphyr)
    (dependable : setting.dependable = true)
    (notOutside :
      ¬ Outside setting.workdir world.tree store (store.configPath level))
    (content : Content setting world (store.configPath level) existing) :
    Ensures (calls setting) (store.read saphyr level).run
      (fun result after =>
        result = documentOf saphyr (store.configPath level) existing ∧
          after = world)
      world := by
  rw [FileConfigStore.read]
  apply Ensures.run_bind
    (finds_refuseEscapingPath (below_configPath store level))
  swap
  · rintro error after ⟨rfl, ⟨_, outside⟩ | ⟨_, unsettled⟩⟩
    · exact absurd outside notOutside
    · exact absurd (content_resolves content) (unsettled dependable)
  rintro _ after ⟨rfl, _⟩
  rw [ensures_run_bind, readAndSplit]
  apply Ensures.run_bind (finds_readExisting (store.configPath level))
  swap
  · rintro error last ⟨rfl, _, unsettled⟩
    exact absurd ⟨existing, content⟩ (unsettled dependable)
  rintro found last ⟨rfl, otherwise⟩
  cases content_deterministic content otherwise
  cases existing with
  | none => exact ⟨rfl, rfl⟩
  | some text =>
      simp only
      cases divided : split text with
      | error detail =>
          refine ⟨?_, rfl⟩
          rw [documentOf, splitFound, divided]
          rfl
      | ok parts =>
          cases parsed : parseFrontmatter saphyr parts.frontmatter with
          | error detail =>
              rw [ensures_run_pure, onOk_ok]
              simp only [parsed]
              exact ⟨(documentOf_malformed _ divided parsed).symm, rfl⟩
          | ok node =>
              rw [ensures_run_pure, onOk_ok]
              simp only [parsed]
              exact ⟨(documentOf_parses _ ⟨divided, parsed⟩).symm, rfl⟩

/-- The scratch path leads to a file of these bytes, and can be renamed. -/
structure Ready
    (setting : Setting)
    (store : FileConfigStore)
    (level : Level)
    (home scratch location : Location)
    (process : UInt32)
    (count : UInt64)
    (bytes : Bytes)
    (world : World) : Prop where
  staged : Staged setting world store home scratch
  resolves :
    Resolves setting.workdir world.tree (store.tempPath process count)
      (.present location)
  file : world.tree.entry location = some (.file bytes)
  replaceable :
    world.tree.entry (home ++ [configName level]) ≠ some .directory

/-- What the scratch path opens is ready once it is written. -/
theorem ready_of_opens
    {bytes : Bytes}
    {after : World}
    {parent : Location}
    {name : Text}
    (staged : Staged setting world store home scratch)
    (opens :
      OpensAt setting.workdir world.tree (store.tempPath process count)
        (parent ++ [name]))
    (replaceable :
      world.tree.entry (home ++ [configName level]) ≠ some .directory)
    (changes : Changes world parent name (some (.file bytes)) after) :
    Ready setting store level home scratch (parent ++ [name]) process count
      bytes after := by
  have stagedAfter := staged.change changes opens.not_link
  rcases changes with ⟨inside, childless, rfl⟩
  constructor
  · exact stagedAfter
  · exact Opens.graft inside childless opens
  · exact Tree.graft_entry_self inside childless
  · by_cases same : home ++ [configName level] = parent ++ [name]
    · rw [same, World.change, Tree.graft_entry_self]
      rintro ⟨⟩
    · rw [World.change, Tree.graft_entry_of_ne inside childless same]
      exact replaceable

/-- What a rename onto the level's file leaves where the bytes were written. -/
def Landed
    (level : Level)
    (home scratch location : Location)
    (name : Text)
    (after : World) : Prop :=
  location ≠ scratch ++ [name] →
    location ≠ home ++ [configName level] →
      ∃ bytes, after.tree.entry location = some (.file bytes)

section Ready

variable {bytes : Bytes}
variable (ready :
  Ready setting store level home scratch location process count bytes world)

include ready

/-- The scratch file's own entry is there, and is no directory. -/
theorem Ready.entry :
    ∃ entry,
      world.tree.entry (scratch ++ [tempName process count]) = some entry ∧
        entry ≠ .directory := by
  have through {found : Found}
      (onward :
        Walks world.tree scratch [.normal (tempName process count)] found) :
      found = .present location := by
    have resolves := resolves_child ready.staged.scratchFound onward
    rw [← FileConfigStore.tempPath_eq] at resolves
    exact Walks.deterministic resolves ready.resolves
  cases present :
      world.tree.entry (scratch ++ [tempName process count]) with
  | none => cases through (.miss ready.staged.scratchDirectory present)
  | some entry =>
      refine ⟨entry, rfl, ?_⟩
      rintro rfl
      have same :=
        through (.enter present (by rintro target ⟨⟩) (.arrive _))
      have file := ready.file
      cases same
      rw [present] at file
      cases file

theorem Ready.rename
    (dependable : setting.dependable = true)
    {answer : Except IoError Unit}
    {after : World}
    (step :
      calls setting
        (.rename (store.tempPath process count) (store.configPath level))
        world answer after) :
    onOk
      (fun _ =>
        Landed level home scratch location (tempName process count))
      (fun _ _ => False) answer after := by
  rcases ready.entry with ⟨entry, present, notDirectory⟩
  have different :=
    configName_ne_scratch home scratch process count level
  have inside := ready.staged.scratchDirectory
  have childless :
      world.tree.entry (scratch ++ [tempName process count]) ≠
        some .directory := by
    rw [present]
    rintro ⟨⟩
    exact notDirectory rfl
  have sourceNames :
      Names setting.workdir world.tree (store.tempPath process count) scratch
        (tempName process count) := by
    rw [FileConfigStore.tempPath_eq, names_child]
    exact ⟨rfl, ready.staged.scratchFound, inside⟩
  have targetNames :
      Names setting.workdir world.tree (store.configPath level) home
        (configName level) := by
    rw [FileConfigStore.configPath_eq, names_child]
    exact ⟨rfl, ready.staged.homeFound, ready.staged.homeDirectory⟩
  have homeKept :=
    @graft_directory world.tree home _ _ none inside childless
      ready.staged.homeDirectory
  have replaceable :
      (world.change scratch (tempName process count) none inside
        childless).tree.entry (home ++ [configName level]) ≠
          some .directory := by
    rw [World.change, Tree.graft_entry_of_ne inside childless different]
    exact ready.replaceable
  rcases attempt_succeeds step dependable
      ⟨(), _, scratch, _, entry, _, home, _, sourceNames, present,
        targetNames, ⟨inside, childless, rfl⟩,
        ⟨homeKept, replaceable, rfl⟩⟩ with ⟨_, rfl, renamed⟩
  rcases renamed with
    ⟨parent, name, entry, middle, above, last, names, _, otherNames,
      removed, replaced⟩
  rcases names_deterministic sourceNames names with ⟨rfl, rfl⟩
  rcases names_deterministic targetNames otherNames with ⟨rfl, rfl⟩
  rcases removed with ⟨_, removable, rfl⟩
  rcases replaced with ⟨onto, free, rfl⟩
  intro notScratch notTarget
  refine ⟨bytes, ?_⟩
  rw [World.change, Tree.graft_entry_of_ne onto free notTarget, World.change,
    Tree.graft_entry_of_ne _ removable notScratch]
  exact ready.file

end Ready

theorem ensures_replaceBy_succeeds
    (dependable : setting.dependable = true)
    (staged : Staged setting world store home scratch)
    (opens :
      OpensAt setting.workdir world.tree (store.tempPath process count)
        location)
    (replaceable :
      world.tree.entry (home ++ [configName level]) ≠ some .directory)
    (contents : Text) :
    Ensures (calls setting)
      (replaceBy (store.configPath level) contents
        (store.tempPath process count)).run
      (onOk
        (fun _ =>
          Landed level home scratch location (tempName process count))
        fun _ _ => False)
      world := by
  apply @ensures_replaceBy_onOk _ _ False (fun before => before = world) _
    (Ready setting store level home scratch location process count)
  · rintro before answer after rfl step
    rcases opens.parts with ⟨parent, name, rfl, inside, childless⟩
    rcases attempt_succeeds step dependable
        ⟨(), _, parent, name, opens, inside, childless, rfl⟩ with
      ⟨_, rfl, made⟩
    rcases made with ⟨_, _, again, changes⟩
    rw [Opens.deterministic opens again]
    exact ready_of_opens staged again replaceable changes
  · intro written byte before answer after ready step
    rcases opens.parts with ⟨parent, name, rfl, _, _⟩
    have parts :
        before.tree.entry parent = some .directory ∧
          before.tree.entry (parent ++ [name]) ≠ some .directory := by
      constructor
      · apply before.tree.closed parent name
        rw [ready.file]
        simp
      · rw [ready.file]
        simp
    rcases attempt_succeeds step dependable
        ⟨(), _, parent, name, written, ready.resolves, ready.file, parts.1,
          parts.2, rfl⟩ with ⟨_, rfl, appended⟩
    rcases appended with ⟨above, last, old, again, file, changes⟩
    have same :=
      Found.present.inj (Walks.deterministic ready.resolves again)
    rcases List.append_inj' same rfl with ⟨rfl, ends⟩
    cases ends
    rw [ready.file] at file
    cases file
    exact
      ready_of_opens ready.staged
        (Or.inr ⟨written, ready.resolves, ready.file⟩) ready.replaceable
        changes
  · intro before answer after ready step
    exact ready.rename dependable step
  · rfl

/-- Setting a key in a project which has no file of the level yet succeeds. -/
theorem ensures_set_succeeds
    {saphyr : Saphyr}
    {key : Key}
    {value rendered : Text}
    {root : Mapping}
    (dependable : setting.dependable = true)
    (staged : Staged setting world store home scratch)
    (vacant : world.tree.entry (home ++ [configName level]) = none)
    (opens :
      OpensAt setting.workdir world.tree
        (store.tempPath setting.process (world.counter setting.process))
        location)
    (inserted : Config.Service.insert [] key.segments value key = .ok root)
    (rendering : render saphyr none (.mapping root) = .ok rendered) :
    Ensures (calls setting) ((store.service saphyr).set key value level).run
      (onOk
        (fun _ =>
          Landed level home scratch location
            (tempName setting.process (world.counter setting.process)))
        fun _ _ => False)
      world := by
  have misses :
      Resolves setting.workdir world.tree (store.configPath level)
        (.missing home (configName level) []) := by
    rw [FileConfigStore.configPath_eq]
    exact resolves_child staged.homeFound (.miss staged.homeDirectory vacant)
  have content : Content setting world (store.configPath level) none :=
    ⟨_, _, _, misses⟩
  have notOutside :
      ¬ Outside setting.workdir world.tree store
        (store.configPath level) := by
    rw [FileConfigStore.configPath_eq] at misses ⊢
    apply not_outside_child staged.homeFound
    rintro ⟨_, place, resolves, _⟩
    cases Walks.deterministic misses resolves
  rw [ConfigService.set, ensures_run_bind]
  apply (ensures_read_content saphyr dependable notOutside content).mono
  rintro result after ⟨rfl, rfl⟩
  change
    Ensures (calls setting)
      (monadLift (Config.Service.insert [] key.segments value key) >>=
        fun root => (store.service saphyr).writer.write level
          (.mapping root) : StoreProgram Unit).run _ after
  rw [inserted]
  apply ensures_write_replaces dependable notOutside content rendering
    ⟨scratch, staged.scratchFound, staged.scratchDirectory⟩
  apply ensures_replaceBy_succeeds dependable
    (staged.advance setting.process) opens
  change after.tree.entry (home ++ [configName level]) ≠ some .directory
  simp [vacant]

end Success

end Effects

end Luminosity.Adapters.StoreRewrites
