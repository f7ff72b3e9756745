import Luminosity.Adapters.StoreContainment

/-!
# The paths of fragment documents

A skill name is one plain component, so the path of a fragment document is
made of the root, the configuration directory and plain names: fixed ones, and
the name of the skill.  Distinct documents have distinct paths, and reading a
document of one skill asks the host for nothing in the directory of another.
-/

namespace Luminosity.Adapters.FragmentPaths

open Luminosity.Foundation.TextSegments
open Luminosity.Foundation.EffectPrograms
open Luminosity.Config.Domain
open Luminosity.Config.Service
open Luminosity.Host.Paths
open Luminosity.Host.Calls
open Luminosity.Adapters.Document
open Luminosity.Adapters.Store
open Luminosity.Adapters.StoreContainment

/-! ## Paths of plain names -/

/-- The path some names below, each a component. -/
def descend (base : Path) (names : List Text) : Path :=
  { base with components := base.components ++ names.map .normal }

theorem descend_child (base : Path) (names : List Text) (name : Text) :
    (descend base names).child name = descend base (names ++ [name]) := by
  simp [descend, Path.child]

theorem parent_descend (base : Path) (names : List Text) (name : Text) :
    (descend base (names ++ [name])).parent = some (descend base names) := by
  rw [← descend_child, parent_child]

theorem normal_injective : Function.Injective Component.normal := by
  intro name other same
  cases same
  rfl

theorem descend_injective
    {base : Path} {names others : List Text}
    (same : descend base names = descend base others) :
    names = others := by
  have components := congrArg Path.components same
  exact List.map_injective_iff.mpr normal_injective
    (List.append_cancel_left components)

/-- What lies below a directory starts with the names of that directory. -/
theorem startsWith_descend_iff
    (base : Path) (names others : List Text) :
    (descend base names).startsWith (descend base others) = true ↔
      others <+: names := by
  rw [Path.startsWith, Bool.and_eq_true, List.isPrefixOf_iff_prefix,
    decide_eq_true_eq]
  constructor
  · rintro ⟨_, below⟩
    have mapped : others.map Component.normal <+: names.map .normal :=
      (List.prefix_append_right_inj _).mp below
    rcases List.prefix_map_iff.mp mapped with ⟨front, within, same⟩
    rw [List.map_injective_iff.mpr normal_injective same]
    exact within
  · intro within
    exact ⟨rfl, (List.prefix_append_right_inj _).mpr (within.map _)⟩

/-! ## The names on the way to a document -/

/-- The name of a file of this level. -/
def levelFile (stem : Text) (level : Level) : Text :=
  stem ++ level.qualifier ++ ".md".toList

/-- The directories below the configuration directory. -/
def folders : FragmentSource → List Text
  | .projectContext => []
  | .skillContext name => ["skills".toList, name.text]
  | .skillInstructions name => ["skills".toList, name.text]

def stem : FragmentSource → Text
  | .projectContext => "config".toList
  | .skillContext _ => "context".toList
  | .skillInstructions _ => "instructions".toList

/-- The names below the configuration directory. -/
def documentNames (source : FragmentSource) (level : Level) : List Text :=
  folders source ++ [levelFile (stem source) level]

/-- The skill a document belongs to. -/
def skillOf : FragmentSource → Option SkillName
  | .projectContext => none
  | .skillContext name => some name
  | .skillInstructions name => some name

def stems : List Text :=
  ["config".toList, "context".toList, "instructions".toList]

theorem stem_mem (source : FragmentSource) : stem source ∈ stems := by
  cases source with
  | projectContext => exact List.mem_cons_self
  | skillContext _ => exact List.mem_cons_of_mem _ List.mem_cons_self
  | skillInstructions _ =>
      exact List.mem_cons_of_mem _
        (List.mem_cons_of_mem _ List.mem_cons_self)

theorem plain_levelFile (source : FragmentSource) (level : Level) :
    Plain (levelFile (stem source) level) := by
  have each : ∀ start ∈ stems, Plain (levelFile start level) := by
    cases level <;> decide +kernel
  exact each _ (stem_mem source)

theorem plain_of_mem_documentNames
    {source : FragmentSource} {level : Level} {name : Text}
    (member : name ∈ documentNames source level) :
    Plain name := by
  rcases List.mem_append.mp member with inFolders | isFile
  · cases source with
    | projectContext => cases inFolders
    | skillContext skill =>
        rcases List.mem_pair.mp inFolders with rfl | rfl
        · decide
        · exact plain_skillName skill
    | skillInstructions skill =>
        rcases List.mem_pair.mp inFolders with rfl | rfl
        · decide
        · exact plain_skillName skill
  · rw [List.mem_singleton.mp isFile]
    exact plain_levelFile source level

variable (store : FileConfigStore)

theorem configDir_eq :
    store.configDir = descend store.root [".luminosity".toList] :=
  join_plain store.root (by decide)

theorem tempDir_eq :
    store.tempDir =
      descend store.root [".luminosity".toList, "tmp".toList] := by
  rw [FileConfigStore.tempDir, join_plain _ (by decide), configDir_eq,
    descend_child]
  rfl

theorem skillDir_eq_descend (name : SkillName) :
    store.skillDir name =
      descend store.root
        [".luminosity".toList, "skills".toList, name.text] := by
  rw [skillDir_eq, configDir_eq, descend_child, descend_child]
  rfl

/-- The path of a document is made of its names. -/
theorem fragmentPath_eq (source : FragmentSource) (level : Level) :
    store.fragmentPath source level =
      descend store.root
        (".luminosity".toList :: documentNames source level) := by
  have joined (directory : Path) :
      directory.join (levelFile (stem source) level) =
        directory.child (levelFile (stem source) level) :=
    join_plain directory (plain_levelFile source level)
  cases source with
  | projectContext =>
      calc
        store.fragmentPath .projectContext level =
            store.configDir.child _ := joined store.configDir
        _ = _ := by
          rw [configDir_eq, descend_child]
          rfl
  | skillContext name =>
      calc
        store.fragmentPath (.skillContext name) level =
            (store.skillDir name).child _ := joined (store.skillDir name)
        _ = _ := by
          rw [skillDir_eq_descend, descend_child]
          rfl
  | skillInstructions name =>
      calc
        store.fragmentPath (.skillInstructions name) level =
            (store.skillDir name).child _ := joined (store.skillDir name)
        _ = _ := by
          rw [skillDir_eq_descend, descend_child]
          rfl

/-- The last name tells the kind and the level of a document. -/
theorem levelFile_inj
    {source other : FragmentSource} {level otherLevel : Level}
    (same : levelFile (stem source) level = levelFile (stem other) otherLevel) :
    stem source = stem other ∧ level = otherLevel := by
  have each : ∀ start ∈ stems, ∀ otherStart ∈ stems,
      levelFile start level = levelFile otherStart otherLevel →
        start = otherStart ∧ level = otherLevel := by
    cases level <;> cases otherLevel <;> decide +kernel
  exact each _ (stem_mem source) _ (stem_mem other) same

/-- Distinct documents have distinct names. -/
theorem documentNames_injective
    {source other : FragmentSource} {level otherLevel : Level}
    (same : documentNames source level = documentNames other otherLevel) :
    source = other ∧ level = otherLevel := by
  rcases List.append_inj' same rfl with ⟨sameFolders, sameFile⟩
  rcases levelFile_inj (List.singleton_inj.mp sameFile) with
    ⟨sameStem, sameLevel⟩
  refine ⟨?_, sameLevel⟩
  have sameName {name otherName : SkillName}
      (equal : ["skills".toList, name.text] =
        ["skills".toList, otherName.text]) :
      name = otherName := by
    cases name
    cases otherName
    cases (List.cons.inj (List.cons.inj equal).2).1
    rfl
  have config_ne_context : "config".toList ≠ "context".toList := by decide
  have config_ne_instructions :
      "config".toList ≠ "instructions".toList := by decide
  have context_ne_instructions :
      "context".toList ≠ "instructions".toList := by decide
  cases source with
  | projectContext =>
      cases other with
      | projectContext => rfl
      | skillContext _ => exact absurd sameStem config_ne_context
      | skillInstructions _ => exact absurd sameStem config_ne_instructions
  | skillContext name =>
      cases other with
      | projectContext => exact absurd sameStem.symm config_ne_context
      | skillContext _ => rw [sameName sameFolders]
      | skillInstructions _ => exact absurd sameStem context_ne_instructions
  | skillInstructions name =>
      cases other with
      | projectContext => exact absurd sameStem.symm config_ne_instructions
      | skillContext _ => exact absurd sameStem.symm context_ne_instructions
      | skillInstructions _ => rw [sameName sameFolders]

/-! ## What reading a document asks the host for -/

/-- The paths a call names. -/
def pathsOf : Call → List Path
  | .canonicalize path | .symlinkMetadata path | .isDir path
  | .pathExists path | .read path | .readDir path | .modified path
  | .createDir path | .create path | .append path _
  | .setPermissions path _ | .removeFile path => [path]
  | .rename source target => [source, target]
  | .processId | .fetchAdd | .get _ => []

/-- A call is about a path in the directory. -/
def Enters (directory : Path) (call : Call) : Prop :=
  ∃ path ∈ pathsOf call, path.startsWith directory = true

/-- A call is about the path, its parent or the configuration directory. -/
def Concerns (path : Path) (call : Call) : Prop :=
  ∀ named ∈ pathsOf call,
    named = store.configDir ∨ path.parent = some named ∨ named = path

variable {store}

theorem concerns_path
    {path : Path} {call : Call}
    (names : pathsOf call = [path]) :
    Concerns store path call := by
  intro named member
  rw [names] at member
  exact .inr (.inr (List.mem_singleton.mp member))

theorem asks_readFragmentBody (saphyr : Saphyr) (path : Path) :
    Asks (Concerns store path) (store.readFragmentBody saphyr path).run := by
  apply Asks.run_bind
  · apply FileConfigStore.asks_refuseEscapingPath
    · intro named member
      exact .inl (List.mem_singleton.mp member)
    · intro parent isParent named member
      rw [List.mem_singleton.mp member]
      exact .inr (.inl isParent)
    · exact concerns_path rfl
    · exact concerns_path rfl
  intro _
  apply Asks.run_bind
    (FileConfigStore.asks_readAndSplit (concerns_path rfl))
  intro read
  cases read <;> trivial

/-- Reading a document asks for nothing else than it and what is above. -/
theorem asks_readBody
    (saphyr : Saphyr) (source : FragmentSource) (level : Level) :
    Asks (Concerns store (store.fragmentPath source level))
      (store.readBody saphyr source level).run := by
  apply Asks.run_bind (asks_readFragmentBody saphyr _)
  intro body
  trivial

/-- A document in the directory of a skill belongs to the skill. -/
theorem skillOf_of_starts
    {source : FragmentSource} {level : Level} {name : SkillName}
    (inside : ["skills".toList, name.text] <+: documentNames source level) :
    skillOf source = some name := by
  have sameName {other : SkillName}
      (prefixed : ["skills".toList, name.text] <+:
        ["skills".toList, other.text, levelFile (stem source) level]) :
      other = name := by
    have equal := (List.cons_prefix_cons.mp
      (List.cons_prefix_cons.mp prefixed).2).1
    cases name
    cases other
    cases equal
    rfl
  cases source with
  | projectContext =>
      exact absurd inside.length_le (by simp [documentNames, folders])
  | skillContext other => rw [← sameName inside, skillOf]
  | skillInstructions other => rw [← sameName inside, skillOf]

/-- Neither a document nor what is above it is in another skill's directory. -/
theorem not_enters_of_concerns
    {source : FragmentSource} {level : Level} {other : SkillName}
    (apart : skillOf source ≠ some other)
    {call : Call}
    (concerns : Concerns store (store.fragmentPath source level) call) :
    ¬Enters (store.skillDir other) call := by
  rintro ⟨path, member, inside⟩
  have onTheWay : ∃ names,
      path = descend store.root names ∧
        names <+: ".luminosity".toList :: documentNames source level := by
    have isDocument := fragmentPath_eq store source level
    rcases concerns path member with rfl | isParent | rfl
    · exact ⟨_, configDir_eq store,
        List.cons_prefix_cons.mpr ⟨rfl, List.nil_prefix⟩⟩
    · rw [isDocument, documentNames, ← List.cons_append, parent_descend,
        Option.some.injEq] at isParent
      exact ⟨_, isParent.symm, List.cons_prefix_cons.mpr
        ⟨rfl, List.prefix_append _ _⟩⟩
    · exact ⟨_, isDocument, List.prefix_refl _⟩
  rcases onTheWay with ⟨names, rfl, within⟩
  rw [skillDir_eq_descend, startsWith_descend_iff] at inside
  exact apart (skillOf_of_starts
    (List.cons_prefix_cons.mp (inside.trans within)).2)

/-! ## Every document has its own contained path -/

/-- The accepted names are the texts of skill names. -/
theorem parse_eq_ok_iff (raw : Text) (name : SkillName) :
    SkillName.parse raw = .ok name ↔ name.text = raw := by
  rw [SkillName.parse]
  constructor
  · intro parsed
    split at parsed
    · cases parsed
      rfl
    · cases parsed
  · rintro rfl
    have valid : name.text ≠ [] ∧ name.text.all permitted = true :=
      ⟨name.nonempty, List.all_eq_true.mpr name.allowed⟩
    rw [dif_pos valid]

section Documents

variable {store : FileConfigStore} {source other : FragmentSource}
variable {level otherLevel : Level}

theorem fragmentPath_injective
    (same :
      store.fragmentPath source level =
        store.fragmentPath other otherLevel) :
    source = other ∧ level = otherLevel := by
  rw [fragmentPath_eq, fragmentPath_eq] at same
  exact documentNames_injective
    (List.cons.inj (descend_injective same)).2

/-- The file of a level is a document of the project. -/
theorem fragmentPath_ne_configPath (belongs : skillOf source ≠ none) :
    store.fragmentPath source level ≠ store.configPath otherLevel := by
  intro same
  rcases @fragmentPath_injective store source .projectContext level otherLevel
    same with ⟨rfl, _⟩
  exact belongs rfl

/-- A document of a skill is no scratch file. -/
theorem fragmentPath_outside_tempDir (belongs : skillOf source ≠ none) :
    (store.fragmentPath source level).startsWith store.tempDir = false := by
  rw [Bool.eq_false_iff, fragmentPath_eq, tempDir_eq, ne_eq,
    startsWith_descend_iff]
  intro within
  have first := (List.cons_prefix_cons.mp within).2
  cases source with
  | projectContext => exact belongs rfl
  | skillContext _ =>
      exact absurd (List.cons_prefix_cons.mp first).1 (by decide)
  | skillInstructions _ =>
      exact absurd (List.cons_prefix_cons.mp first).1 (by decide)

end Documents

/--
Distinct documents have distinct paths, none of them a level's file or a
scratch file when they belong to a skill; below the configuration directory a
path has plain names only; and a host which differs in what is in the directory
of another skill gives a document no other content.
-/
theorem fragment_paths_contained (store : FileConfigStore) :
    (∀ raw name, SkillName.parse raw = .ok name ↔ name.text = raw) ∧
      (∀ source level other otherLevel,
        store.fragmentPath source level =
            store.fragmentPath other otherLevel →
          source = other ∧ level = otherLevel) ∧
      (∀ source level, skillOf source ≠ none →
        (∀ configLevel,
          store.fragmentPath source level ≠ store.configPath configLevel) ∧
        (store.fragmentPath source level).startsWith store.tempDir =
          false) ∧
      (∀ source level,
        (store.fragmentPath source level).absolute = store.root.absolute ∧
          (store.fragmentPath source level).components =
            store.root.components ++
              (".luminosity".toList :: documentNames source level).map
                .normal ∧
          ∀ name ∈ ".luminosity".toList :: documentNames source level,
            Plain name) ∧
      ∀ (saphyr : Saphyr) source level other, skillOf source ≠ some other →
        ∀ {State : Type} (first second : Handler host State),
          (∀ call state, ¬Enters (store.skillDir other) call →
            first call state = second call state) →
          ∀ state,
            (store.readBody saphyr source level).run.execute first state =
              (store.readBody saphyr source level).run.execute second
                state := by
  refine ⟨parse_eq_ok_iff, fun _ _ _ _ => fragmentPath_injective, ?_, ?_, ?_⟩
  · intro source level belongs
    exact ⟨fun _ => fragmentPath_ne_configPath belongs,
      fragmentPath_outside_tempDir belongs⟩
  · intro source level
    rw [fragmentPath_eq]
    refine ⟨rfl, rfl, ?_⟩
    intro name member
    rcases List.mem_cons.mp member with rfl | isName
    · decide
    · exact plain_of_mem_documentNames isName
  · intro saphyr source level other apart State first second agree state
    exact (asks_readBody saphyr source level).execute_eq
      (fun call state concerns => agree call state
        (not_enters_of_concerns apart concerns)) state

end Luminosity.Adapters.FragmentPaths
