import Luminosity.Tasks.Version
import Luminosity.Tasks.Workspace

/-!
# The files which carry the version

The version task renders the new text of each of the four files before it
writes any of them, and then rewrites them one after the other.  Wherever it is
cut short, the files which are already rewritten are the first ones, each is
whole, and nothing else has changed.

What is rendered of a file does not depend on the version it carries.  A task
which was cut short any number of times, and is then completed, leaves what it
would have left without interruption: the files of the abstract task.
-/

namespace Luminosity.Tasks.VersionFiles

open Luminosity.Foundation.TextSegments
open Luminosity.Foundation.EffectPrograms
open Luminosity.Foundation.Exceptions
open Luminosity.Foundation.Interruptions
open Luminosity.Foundation.JsonValues
open Luminosity.Foundation.LastWrite
open Luminosity.Foundation.SemanticVersions
open Luminosity.Host.Paths
open Luminosity.Tasks.Github (manifest)
open Luminosity.Tasks.Version (Semver BumpType Anchors bumpOnce)
open Luminosity.Tasks.Workspace

/-! ## The libraries -/

/-- The parsers and printers of the formats in use. -/
structure Formats where
  json : JsonLibrary
  Toml : Type
  parseToml : Text → Except Text Toml
  dumpsToml : Toml → Text
  /-- `data["package"]["version"]` -/
  packageVersion : Toml → Except Raised Text
  /-- `data["package"]["version"] = version` -/
  setPackageVersion : Text → Toml → Except Raised Toml
  /-- `semver.Version.parse` -/
  parseVersion : Text → Except Text Version

/-- What the tasks rely on of the libraries. -/
structure Formats.Lawful (formats : Formats) : Prop where
  json : formats.json.Lawful
  parse_dumps : ∀ version data updated,
    formats.setPackageVersion version data = .ok updated →
      formats.parseToml (formats.dumpsToml updated) = .ok updated
  package_version : ∀ version data updated,
    formats.setPackageVersion version data = .ok updated →
      formats.packageVersion updated = .ok version
  set_again : ∀ version data updated,
    formats.setPackageVersion version data = .ok updated →
      formats.setPackageVersion version updated = .ok updated
  unreturned : ∀ text version data updated, '\r' ∉ text →
    formats.parseToml text = .ok data →
      formats.setPackageVersion version data = .ok updated →
        '\r' ∉ formats.dumpsToml updated

section Tasks

variable (formats : Formats) (repoRoot : Path)

/-! ## JSON files -/

/-- `json.loads`. -/
def loads (text : Text) : Except Raised Json :=
  (formats.json.loads text).mapError .valueError

/-- `json.dumps`, with an indent. -/
def dumps (value : Json) : Except Raised Text :=
  (formats.json.dumps value).mapError .valueError

/-- `data[name]`. -/
def getItem (name : Text) : Json → Except Raised Json
  | .object fields =>
      match fields.lookup name with
      | some value => .ok value
      | none => .error (.keyError name)
  | _ => .error .typeError

/-- `data[name] = value`. -/
def assignItem (name : Text) (value : Json) : Json → Except Raised Json
  | .object fields => .ok (.object (setItem name value fields))
  | _ => .error .typeError

/-! ## Renderings -/

/-- The text of a JSON file with the version set. -/
def renderJson (version ending text : Text) : Except Raised Text := do
  let data ← loads formats text
  let data ← assignItem "version".toList (.string version) data
  let written ← dumps formats data
  return written ++ ending

/-- The text of the crate's manifest with the version set. -/
def renderToml (version text : Text) : Except Raised Text := do
  let data ← (formats.parseToml text).mapError .valueError
  let data ← formats.setPackageVersion version data
  return formats.dumpsToml data

/-- A file of the version, with how its text is rendered. -/
structure Rendering where
  path : Path
  render : Text → Except Raised Text

/-- Read the file, and render it. -/
def Rendering.rendered (rendering : Rendering) : WorkspaceTask Text := do
  let text ← issue (.readText rendering.path)
  liftM (rendering.render text)

/-- `_render_plugin_json`. -/
def pluginJsonRendering (version : Text) : Rendering where
  path := pluginJson repoRoot
  render := renderJson formats version []

/-- `_render_cargo_toml`. -/
def cargoTomlRendering (version : Text) : Rendering where
  path := cargoToml repoRoot
  render := renderToml formats version

/-- `_render_checksums_version`. -/
def checksumsRendering (version : Text) : Rendering where
  path := checksums repoRoot
  render := renderJson formats version ['\n']

/-- `_render_manifest_version`. -/
def manifestRendering (version : Text) : Rendering where
  path := manifest repoRoot
  render := renderJson formats version ['\n']

/-- The files of the version, in the order in which they are written. -/
def renderings (version : Text) : List Rendering :=
  [pluginJsonRendering formats repoRoot version,
    cargoTomlRendering formats repoRoot version,
    checksumsRendering formats repoRoot version,
    manifestRendering formats repoRoot version]

/-- Render each file, in order. -/
def renderAll : List Rendering → WorkspaceTask (List (Path × Text))
  | [] => return []
  | rendering :: later => do
      let text ← rendering.rendered
      let files ← renderAll later
      return (rendering.path, text) :: files

/-! ## The task -/

/-- `version.write`. -/
def write (version : Text) : WorkspaceTask Unit := do
  let files ← renderAll (renderings formats repoRoot version)
  forEach (fun file : Path × Text => atomicWriteText file.1 file.2) files

/-- `read_plugin_metadata`. -/
def readPluginMetadata : WorkspaceTask Json := do
  let text ← issue (.readText (pluginJson repoRoot))
  liftM (loads formats text)

/-- The version a JSON value stands for. -/
def versionOf : Json → Except Raised Version
  | .string text => (formats.parseVersion text).mapError .valueError
  | _ => .error .typeError

/-- `version.read`. -/
def read : WorkspaceTask Version := do
  let metadata ← readPluginMetadata formats repoRoot
  let current ← liftM (getItem "version".toList metadata)
  liftM (versionOf formats current)

/-- `version.bump`. -/
def bump (semver : Semver) (bumpTypes : List BumpType) :
    WorkspaceTask Version := do
  let currentVersion ← read formats repoRoot
  let types := if bumpTypes = [] then [.pre] else bumpTypes
  let newVersion := types.foldl (bumpOnce semver) currentVersion
  write formats repoRoot newVersion.display
  return newVersion

end Tasks

/-! ## What is rendered -/

/-- The texts rendered of files, each at the path of its rendering. -/
def RenderedAll (world : World) :
    List Rendering → List (Path × Text) → Prop :=
  List.Forall₂ fun rendering file =>
    file.1 = rendering.path ∧
      ∃ source, Reads world rendering.path source ∧
        rendering.render source = .ok file.2

/-- What a rendering makes of a text it makes of its own text again. -/
def Rendering.Settled (rendering : Rendering) : Prop :=
  ∀ source text, '\r' ∉ source → rendering.render source = .ok text →
    '\r' ∉ text ∧ rendering.render text = .ok text

section Rendered

variable {repoRoot : Path} {tools : Tools} {before seen : World}

theorem RenderedAll.paths
    {list : List Rendering} {files : List (Path × Text)}
    (rendered : RenderedAll before list files) :
    files.map Prod.fst = list.map Rendering.path := by
  induction rendered with
  | nil => rfl
  | cons head _ induction =>
      rw [List.map_cons, List.map_cons, head.1, induction]

theorem RenderedAll.unique
    {list : List Rendering} {files others : List (Path × Text)}
    (rendered : RenderedAll before list files)
    (again : RenderedAll before list others) :
    files = others := by
  induction rendered generalizing others with
  | nil =>
      cases again
      rfl
  | cons head _ induction =>
      cases again with
      | cons other rest =>
          rcases head with ⟨path, source, reads, made⟩
          rcases other with ⟨otherPath, otherSource, otherReads, otherMade⟩
          rw [reads.unique otherReads, otherMade] at made
          rw [induction rest, Prod.ext (path.trans otherPath.symm)
            (Except.ok.inj made).symm]

theorem RenderedAll.exists_of_mem
    {list : List Rendering} {files : List (Path × Text)}
    (rendered : RenderedAll before list files)
    {rendering : Rendering} (member : rendering ∈ list) :
    ∃ file ∈ files, file.1 = rendering.path ∧
      ∃ source, Reads before rendering.path source ∧
        rendering.render source = .ok file.2 := by
  induction rendered with
  | nil => cases member
  | cons head _ induction =>
      rcases List.mem_cons.mp member with rfl | later
      · exact ⟨_, List.mem_cons_self, head⟩
      · rcases induction later with ⟨file, present, found⟩
        exact ⟨file, List.mem_cons_of_mem _ present, found⟩

/-- Every file is read and rendered, and nothing changes. -/
theorem sustains_renderAll
    {always : World → Prop} (now : always before)
    (list : List Rendering) :
    Sustains (answers repoRoot tools) always (renderAll list).run
      (onOk (fun files after => after = before ∧ RenderedAll before list files)
        fun _ _ => True)
      before := by
  induction list with
  | nil => exact ⟨now, rfl, .nil⟩
  | cons rendering later induction =>
      rw [renderAll, sustains_run_bind, Rendering.rendered,
        sustains_run_bind, sustains_issue]
      refine ⟨now, ?_⟩
      rintro answer _ ⟨rfl, read⟩
      refine ⟨now, ?_⟩
      cases answer with
      | error failure => trivial
      | ok source =>
          rw [onOk_ok, onOk_ok, sustains_run_except]
          refine ⟨now, ?_⟩
          cases made : rendering.render source with
          | error raised => trivial
          | ok text =>
              rw [onOk_ok]
              apply induction.run_bind
              · rintro files _ _ ⟨rfl, rendered⟩
                exact ⟨now, rfl, .cons
                  ⟨rfl, source, read source rfl, made⟩ rendered⟩
              · exact fun _ _ _ _ => trivial

/-- What is rendered of files of which some are rewritten already. -/
theorem RenderedAll.rewritten
    {scratch : Path → Prop} {list : List Rendering}
    {files done : List (Path × Text)}
    (rendered : RenderedAll before list files)
    (settled : ∀ rendering ∈ list, rendering.Settled)
    (apart : ∀ rendering ∈ list, ¬ scratch rendering.path)
    (known : ∀ file ∈ files, file.1 ∈ done.map Prod.fst → file ∈ done)
    (nodup : (done.map Prod.fst).Nodup)
    (kept : SameOff scratch (placed done before) seen) :
    RenderedAll seen list files := by
  induction rendered with
  | nil => exact .nil
  | @cons rendering file later files head _ induction =>
      rcases head with ⟨path, source, reads, made⟩
      refine .cons ⟨path, ?_⟩ (induction
        (fun other member => settled other (List.mem_cons_of_mem _ member))
        (fun other member => apart other (List.mem_cons_of_mem _ member))
        (fun other member => known other (List.mem_cons_of_mem _ member)))
      have same := kept rendering.path (apart rendering List.mem_cons_self)
      by_cases member : file.1 ∈ done.map Prod.fst
      · -- The file is rewritten: its text is the one which was rendered.
        have present := known file List.mem_cons_self member
        rcases settled rendering List.mem_cons_self source file.2
          reads.unreturned made with ⟨unreturned, again⟩
        refine ⟨file.2, reads_encoded unreturned ?_, again⟩
        rw [same, ← path, placed_of_mem nodup present]
      · refine ⟨source, reads.congr ?_, made⟩
        rw [same, ← path, placed_of_notMem member]

end Rendered

section Renderings

variable {formats : Formats}

theorem loads_ok {text : Text} {value : Json} :
    loads formats text = .ok value ↔ formats.json.loads text = .ok value :=
  mapError_ok

theorem dumps_ok {value : Json} {text : Text} :
    dumps formats value = .ok text ↔ formats.json.dumps value = .ok text :=
  mapError_ok

theorem getItem_ok {name : Text} {value item : Json} :
    getItem name value = .ok item ↔
      ∃ fields, value = .object fields ∧ fields.lookup name = some item := by
  cases value with
  | object fields =>
      rw [getItem]
      cases found : fields.lookup name with
      | none => simp [found]
      | some held => simp [found]
  | _ => simp [getItem]

theorem assignItem_ok {name : Text} {value data updated : Json} :
    assignItem name value data = .ok updated ↔
      ∃ fields, data = .object fields ∧
        updated = .object (setItem name value fields) := by
  cases data with
  | object fields => simp [assignItem, eq_comm]
  | _ => simp [assignItem]

theorem versionOf_ok {value : Json} {version : Version} :
    versionOf formats value = .ok version ↔
      ∃ text, value = .string text ∧
        formats.parseVersion text = .ok version := by
  cases value with
  | string text => simp [versionOf, mapError_ok]
  | _ => simp [versionOf]

/-- What is rendered is the object with its version set. -/
theorem renderJson_ok {version ending source text : Text} :
    renderJson formats version ending source = .ok text ↔
      ∃ fields written,
        formats.json.loads source = .ok (.object fields) ∧
          formats.json.dumps
              (.object
                (setItem "version".toList (.string version) fields)) =
            .ok written ∧
          text = written ++ ending := by
  rw [renderJson, except_bind_ok]
  constructor
  · rintro ⟨data, loaded, made⟩
    rw [loads_ok] at loaded
    cases data with
    | object fields =>
        rcases except_bind_ok.mp made with ⟨_, set, rest⟩
        cases set
        rcases except_bind_ok.mp rest with ⟨written, dumped, ended⟩
        cases ended
        exact ⟨fields, written, loaded, dumps_ok.mp dumped, rfl⟩
    | _ => cases made
  · rintro ⟨fields, written, loaded, dumped, rfl⟩
    refine ⟨.object fields, loads_ok.mpr loaded, ?_⟩
    refine except_bind_ok.mpr ⟨_, rfl, ?_⟩
    exact except_bind_ok.mpr ⟨written, dumps_ok.mpr dumped, rfl⟩

theorem renderToml_ok {version source text : Text} :
    renderToml formats version source = .ok text ↔
      ∃ data updated, formats.parseToml source = .ok data ∧
        formats.setPackageVersion version data = .ok updated ∧
          text = formats.dumpsToml updated := by
  rw [renderToml, except_bind_ok]
  constructor
  · rintro ⟨data, parsed, made⟩
    rcases except_bind_ok.mp made with ⟨updated, set, written⟩
    cases written
    exact ⟨data, updated, mapError_ok.mp parsed, set, rfl⟩
  · rintro ⟨data, updated, parsed, set, rfl⟩
    exact ⟨data, mapError_ok.mpr parsed,
      except_bind_ok.mpr ⟨updated, set, rfl⟩⟩

variable (lawful : formats.Lawful)
include lawful

/-- The object which is rendered is the one which is read back. -/
theorem loads_rendered
    {version ending source written : Text} {fields : List (Text × Json)}
    (line : ending = [] ∨ ending = ['\n'])
    (loaded : formats.json.loads source = .ok (.object fields))
    (dumped :
      formats.json.dumps
          (.object (setItem "version".toList (.string version) fields)) =
        .ok written) :
    formats.json.loads (written ++ ending) =
      .ok (.object (setItem "version".toList (.string version) fields)) := by
  have distinct :=
    (lawful.json.distinct source _ loaded).setItem "version".toList
      (.string version)
  rcases line with rfl | rfl
  · rw [List.append_nil]
    exact lawful.json.loads_dumps _ written distinct dumped
  · exact lawful.json.loads_line _ written distinct dumped

theorem settled_renderJson (path : Path) (version : Text) {ending : Text}
    (line : ending = [] ∨ ending = ['\n']) :
    Rendering.Settled
      { path := path, render := renderJson formats version ending } := by
  intro source text _ made
  rcases renderJson_ok.mp made with ⟨fields, written, loaded, dumped, rfl⟩
  constructor
  · rw [List.mem_append, not_or]
    refine ⟨lawful.json.unreturned _ written dumped, ?_⟩
    rcases line with rfl | rfl
    · exact List.not_mem_nil
    · decide
  · refine renderJson_ok.mpr
      ⟨_, written, loads_rendered lawful line loaded dumped, ?_, rfl⟩
    rw [setItem_setItem]
    exact dumped

theorem settled_renderToml (path : Path) (version : Text) :
    Rendering.Settled
      { path := path, render := renderToml formats version } := by
  intro source text unreturned made
  rcases renderToml_ok.mp made with ⟨data, updated, parsed, set, rfl⟩
  constructor
  · exact lawful.unreturned source version data updated unreturned parsed set
  · exact renderToml_ok.mpr ⟨updated, updated,
      lawful.parse_dumps version data updated set,
      lawful.set_again version data updated set, rfl⟩

theorem settled_renderings (repoRoot : Path) (version : Text) :
    ∀ rendering ∈ renderings formats repoRoot version,
      rendering.Settled := by
  intro rendering member
  simp only [renderings, List.mem_cons, List.not_mem_nil, or_false] at member
  rcases member with rfl | rfl | rfl | rfl
  · exact settled_renderJson lawful _ _ (Or.inl rfl)
  · exact settled_renderToml lawful _ _
  · exact settled_renderJson lawful _ _ (Or.inr rfl)
  · exact settled_renderJson lawful _ _ (Or.inr rfl)

end Renderings

/-! ## The paths of the files -/

section Paths

variable (repoRoot : Path)

/-- The paths of the files which carry the version. -/
def anchorPaths : List Path :=
  [pluginJson repoRoot, cargoToml repoRoot, checksums repoRoot,
    manifest repoRoot]

/-- The paths where their new texts are staged. -/
def Scratch (path : Path) : Prop :=
  ∃ anchor ∈ anchorPaths repoRoot, path = temporaryPath anchor

theorem paths_renderings (formats : Formats) (version : Text) :
    (renderings formats repoRoot version).map Rendering.path =
      anchorPaths repoRoot := rfl

/-- The names of the files, none of which is the staging name of one. -/
def anchorNames : List Text :=
  ["plugin.json".toList, "Cargo.toml".toList, "checksums.json".toList,
    "manifest.json".toList]

theorem exists_child_of_anchor
    {anchor : Path} (member : anchor ∈ anchorPaths repoRoot) :
    ∃ (directory : Path) (name : Text), name ∈ anchorNames ∧
      anchor = directory.child name := by
  simp only [anchorPaths, List.mem_cons, List.not_mem_nil, or_false] at member
  rcases member with rfl | rfl | rfl | rfl
  · exact ⟨_, _, by decide, pluginJson_eq repoRoot⟩
  · exact ⟨_, _, by decide, cargoToml_eq repoRoot⟩
  · exact ⟨_, _, by decide, checksums_eq repoRoot⟩
  · exact ⟨_, _, by decide, manifest_eq repoRoot⟩

theorem anchor_not_scratch :
    ∀ anchor ∈ anchorPaths repoRoot, ¬ Scratch repoRoot anchor := by
  rintro anchor member ⟨other, otherMember, staged⟩
  rcases exists_child_of_anchor repoRoot member with
    ⟨directory, name, named, rfl⟩
  rcases exists_child_of_anchor repoRoot otherMember with
    ⟨otherDirectory, otherName, otherNamed, rfl⟩
  rw [temporaryPath_child] at staged
  have distinct :
      ∀ first ∈ anchorNames, ∀ second ∈ anchorNames,
        first ≠ second ++ ".tmp".toList := by decide
  exact distinct name named otherName otherNamed (child_injective staged).2

theorem nodup_anchorPaths : (anchorPaths repoRoot).Nodup := by
  have names :
      (anchorPaths repoRoot).map Path.fileName = anchorNames.map some := by
    simp [anchorPaths, anchorNames, pluginJson_eq, cargoToml_eq,
      checksums_eq, manifest_eq]
  apply List.Nodup.of_map Path.fileName
  rw [names]
  decide

end Paths

/-! ## Interrupted writes -/

section Writes

variable {formats : Formats} {repoRoot : Path} {tools : Tools}
variable {version : Text} {before seen after : World}

/-- Some of the files, the first ones, carry their new texts. -/
def Stage (formats : Formats) (repoRoot : Path) (version : Text)
    (before seen : World) : Prop :=
  SameOff (Scratch repoRoot) before seen ∨
    ∃ files done,
      RenderedAll before (renderings formats repoRoot version) files ∧
        done <+: files ∧
          SameOff (Scratch repoRoot) (placed done before) seen

/-- All the files carry their new texts, and nothing is left next to them. -/
def Complete (formats : Formats) (repoRoot : Path) (version : Text)
    (before after : World) : Prop :=
  ∃ files,
    RenderedAll before (renderings formats repoRoot version) files ∧
      SameOff (Scratch repoRoot) (placed files before) after ∧
        ∀ path, Scratch repoRoot path → after path = none

/-- The task was begun any number of times, and cut short each time. -/
inductive Interrupted (formats : Formats) (repoRoot : Path) (tools : Tools)
    (version : Text) (before : World) : World → Prop where
  | never : Interrupted formats repoRoot tools version before before
  | again {middle seen : World}
      (earlier : Interrupted formats repoRoot tools version before middle)
      (visits : Visits (answers repoRoot tools)
        (write formats repoRoot version).run middle seen) :
      Interrupted formats repoRoot tools version before seen

theorem RenderedAll.nodup
    {files : List (Path × Text)}
    (rendered : RenderedAll before (renderings formats repoRoot version)
      files) :
    (files.map Prod.fst).Nodup := by
  rw [rendered.paths, paths_renderings]
  exact nodup_anchorPaths repoRoot

theorem RenderedAll.anchor
    {files : List (Path × Text)}
    (rendered : RenderedAll before (renderings formats repoRoot version)
      files)
    {file : Path × Text} (member : file ∈ files) :
    file.1 ∈ anchorPaths repoRoot := by
  rw [← paths_renderings repoRoot formats version, ← rendered.paths]
  exact List.mem_map_of_mem member

theorem rendering_not_scratch :
    ∀ rendering ∈ renderings formats repoRoot version,
      ¬ Scratch repoRoot rendering.path := by
  intro rendering member
  apply anchor_not_scratch
  rw [← paths_renderings repoRoot formats version]
  exact List.mem_map_of_mem member

theorem RenderedAll.kept
    (lawful : formats.Lawful)
    (same : SameOff (Scratch repoRoot) before seen)
    {files : List (Path × Text)}
    (rendered : RenderedAll before (renderings formats repoRoot version)
      files) :
    RenderedAll seen (renderings formats repoRoot version) files := by
  have kept : SameOff (Scratch repoRoot) (placed [] before) seen := same
  have known :
      ∀ file ∈ files, file.1 ∈ ([] : List (Path × Text)).map Prod.fst →
        file ∈ ([] : List (Path × Text)) :=
    fun _ _ member => nomatch member
  exact rendered.rewritten (settled_renderings lawful repoRoot version)
    rendering_not_scratch known List.nodup_nil kept

/-- What is rendered at a stage is what was rendered before. -/
theorem Stage.rendered_iff
    (lawful : formats.Lawful)
    (stage : Stage formats repoRoot version before seen)
    {files : List (Path × Text)} :
    RenderedAll seen (renderings formats repoRoot version) files ↔
      RenderedAll before (renderings formats repoRoot version) files := by
  rcases stage with same | ⟨others, done, rendered, started, kept⟩
  · constructor
    · exact RenderedAll.kept lawful fun path off => (same path off).symm
    · exact RenderedAll.kept lawful same
  · have nodup := rendered.nodup
    have again :
        RenderedAll seen (renderings formats repoRoot version) others := by
      apply rendered.rewritten (settled_renderings lawful repoRoot version)
        rendering_not_scratch _
        (nodup.sublist (started.sublist.map _)) kept
      intro file member known
      rcases List.mem_map.mp known with ⟨other, present, same⟩
      rw [← List.inj_on_of_nodup_map nodup (started.subset present) member
        same]
      exact present
    constructor
    · intro now
      rw [now.unique again]
      exact rendered
    · intro first
      rw [first.unique rendered]
      exact again

/-- What a task places at a stage leads to another stage. -/
theorem Stage.placed
    {files done : List (Path × Text)}
    (stage : Stage formats repoRoot version before seen)
    (rendered : RenderedAll before (renderings formats repoRoot version)
      files)
    (started : done <+: files)
    (kept : SameOff (Scratch repoRoot) (Workspace.placed done seen) after) :
    ∃ longer, done <+: longer ∧ longer <+: files ∧
      SameOff (Scratch repoRoot) (Workspace.placed longer before) after := by
  rcases stage with same | ⟨others, earlier, again, begun, earlierKept⟩
  · exact ⟨done, List.prefix_refl done, started,
      (same.placed done).trans kept⟩
  · cases rendered.unique again
    have both := (earlierKept.placed done).trans kept
    rcases List.prefix_or_prefix_of_prefix started begun with within | beyond
    · refine ⟨earlier, within, begun, ?_⟩
      have nodup :=
        rendered.nodup.sublist (begun.sublist.map Prod.fst)
      rwa [placed_again nodup within] at both
    · refine ⟨done, List.prefix_refl done, started, ?_⟩
      rcases beyond with ⟨rest, rfl⟩
      have nodup :=
        rendered.nodup.sublist (begun.sublist.map Prod.fst)
      rwa [placed_append, placed_again nodup (List.prefix_refl earlier),
        ← placed_append] at both

/-- A task at a stage goes on from stage to stage, and completes the files. -/
theorem sustains_write
    (lawful : formats.Lawful)
    (stage : Stage formats repoRoot version before seen) :
    Sustains (answers repoRoot tools)
      (Stage formats repoRoot version before)
      (write formats repoRoot version).run
      (WhenOk fun _ final => Complete formats repoRoot version before final)
      seen := by
  apply (sustains_renderAll stage _).run_bind
  · rintro files _ _ ⟨rfl, now⟩
    have rendered := (stage.rendered_iff lawful).mp now
    have staged :
        ∀ file ∈ files, Scratch repoRoot (temporaryPath file.1) :=
      fun file member => ⟨file.1, rendered.anchor member, rfl⟩
    have apart : ∀ file ∈ files, ¬ Scratch repoRoot file.1 :=
      fun file member =>
        anchor_not_scratch repoRoot file.1 (rendered.anchor member)
    apply (sustains_rewrites staged apart _
      (SameOff.refl (Scratch repoRoot) _)).mono
    · intro result final _ holds
      cases result with
      | error raised => trivial
      | ok _ =>
          rcases holds with ⟨kept, _, cleared⟩
          rcases stage.placed rendered (List.prefix_refl files) kept with
            ⟨longer, whole, within, reached⟩
          have same : longer = files :=
            within.eq_of_length_le whole.length_le
          rw [same] at reached
          refine ⟨files, rendered, reached, ?_⟩
          rintro path ⟨anchor, member, rfl⟩
          rw [← paths_renderings repoRoot formats version,
            ← rendered.paths] at member
          rcases List.mem_map.mp member with ⟨file, present, rfl⟩
          exact cleared file present
    · intro done started middle kept
      rcases stage.placed rendered started kept with
        ⟨longer, _, within, reached⟩
      exact Or.inr ⟨files, longer, rendered, within, reached⟩
  · exact fun _ _ _ _ => trivial

theorem Interrupted.stage
    (lawful : formats.Lawful)
    (interrupted :
      Interrupted formats repoRoot tools version before seen) :
    Stage formats repoRoot version before seen := by
  induction interrupted with
  | never => exact Or.inl (SameOff.refl _ before)
  | again _ visits induction =>
      exact (sustains_write lawful induction).visited visits

end Writes

/-! ## The abstract task -/

section Refinement

variable (formats : Formats) (repoRoot : Path)

/-- The JSON file has this version. -/
def JsonDeclares (world : World) (path : Path) (version : Text) : Prop :=
  ∃ text fields, Reads world path text ∧
    formats.json.loads text = .ok (.object fields) ∧
      fields.lookup "version".toList = some (.string version)

/-- The crate's manifest has this version. -/
def TomlDeclares (world : World) (path : Path) (version : Text) : Prop :=
  ∃ text data, Reads world path text ∧ formats.parseToml text = .ok data ∧
    formats.packageVersion data = .ok version

/-- The files carry the versions of the abstract task. -/
structure Represents (world : World) (anchors : Anchors) : Prop where
  pluginJson :
    JsonDeclares formats world (pluginJson repoRoot)
      anchors.pluginJson.display
  cargoToml :
    TomlDeclares formats world (cargoToml repoRoot) anchors.cargoToml.display
  checksums :
    JsonDeclares formats world (checksums repoRoot) anchors.checksums.display
  manifest :
    JsonDeclares formats world (manifest repoRoot) anchors.manifest.display

end Refinement

section Refinement

variable {formats : Formats} {repoRoot : Path} {tools : Tools}
variable {before seen after : World}

theorem JsonDeclares.congr
    {path : Path} {version : Text}
    (declares : JsonDeclares formats before path version)
    (same : after path = before path) :
    JsonDeclares formats after path version := by
  rcases declares with ⟨text, fields, reads, rest⟩
  exact ⟨text, fields, reads.congr same, rest⟩

theorem TomlDeclares.congr
    {path : Path} {version : Text}
    (declares : TomlDeclares formats before path version)
    (same : after path = before path) :
    TomlDeclares formats after path version := by
  rcases declares with ⟨text, data, reads, rest⟩
  exact ⟨text, data, reads.congr same, rest⟩

/-- A file which was rewritten reads as its rendering. -/
theorem Complete.reads
    (lawful : formats.Lawful) {version : Text}
    (complete : Complete formats repoRoot version before after)
    {rendering : Rendering}
    (member : rendering ∈ renderings formats repoRoot version) :
    ∃ source text, rendering.render source = .ok text ∧
      Reads after rendering.path text := by
  rcases complete with ⟨files, rendered, kept, _⟩
  rcases rendered.exists_of_mem member with ⟨file, present, path, source,
    reads, made⟩
  refine ⟨source, file.2, made, ?_⟩
  have settled :=
    settled_renderings lawful repoRoot version rendering member source file.2
      reads.unreturned made
  apply reads_encoded settled.1
  rw [kept _ (rendering_not_scratch rendering member), ← path,
    placed_of_mem rendered.nodup present]

theorem jsonDeclares_of_rendered
    (lawful : formats.Lawful) {path : Path} {version ending : Text}
    (line : ending = [] ∨ ending = ['\n'])
    (reads : ∃ source text,
      renderJson formats version ending source = .ok text ∧
        Reads after path text) :
    JsonDeclares formats after path version := by
  rcases reads with ⟨source, text, made, reads⟩
  rcases renderJson_ok.mp made with ⟨fields, written, loaded, dumped, rfl⟩
  exact ⟨_, _, reads, loads_rendered lawful line loaded dumped,
    lookup_setItem_self _ _ _⟩

theorem tomlDeclares_of_rendered
    (lawful : formats.Lawful) {path : Path} {version : Text}
    (reads : ∃ source text,
      renderToml formats version source = .ok text ∧
        Reads after path text) :
    TomlDeclares formats after path version := by
  rcases reads with ⟨source, text, made, reads⟩
  rcases renderToml_ok.mp made with ⟨data, updated, _, set, rfl⟩
  exact ⟨_, updated, reads, lawful.parse_dumps version data updated set,
    lawful.package_version version data updated set⟩

/-- The files which are all rewritten are those of the abstract task. -/
theorem Complete.represents
    (lawful : formats.Lawful) {version : Version}
    (complete :
      Complete formats repoRoot version.display before after) :
    Represents formats repoRoot after (Version.write version) where
  pluginJson :=
    jsonDeclares_of_rendered lawful (Or.inl rfl)
      (complete.reads lawful List.mem_cons_self)
  cargoToml :=
    tomlDeclares_of_rendered lawful
      (complete.reads lawful (List.mem_cons_of_mem _ List.mem_cons_self))
  checksums :=
    jsonDeclares_of_rendered lawful (Or.inr rfl)
      (complete.reads lawful
        (List.mem_cons_of_mem _ (List.mem_cons_of_mem _ List.mem_cons_self)))
  manifest :=
    jsonDeclares_of_rendered lawful (Or.inr rfl)
      (complete.reads lawful
        (List.mem_cons_of_mem _ (List.mem_cons_of_mem _
          (List.mem_cons_of_mem _ List.mem_cons_self))))

/--
A task which was cut short any number of times leaves a first part of the
files rewritten, each of them whole.  Completed at last, it leaves what it
would have left at once, and the files of the abstract task.
-/
theorem interrupted_writes_complete
    (lawful : formats.Lawful) {version : Version}
    (interrupted :
      Interrupted formats repoRoot tools version.display before seen) :
    Stage formats repoRoot version.display before seen ∧
      ∀ after,
        Runs (answers repoRoot tools)
            (write formats repoRoot version.display).run seen (.ok ())
            after →
          Complete formats repoRoot version.display before after ∧
            Represents formats repoRoot after (Version.write version) := by
  have stage := interrupted.stage lawful
  refine ⟨stage, ?_⟩
  intro after runs
  have complete : Complete formats repoRoot version.display before after :=
    (sustains_write lawful stage).ensures.of_run runs
  exact ⟨complete, complete.represents lawful⟩

/-! ### A small workspace -/

def smallVersion : Version :=
  { major := 1
    minor := 0
    patch := 0
    prerelease := none }

/-- The object with this version only. -/
def versioned (version : Text) : Json :=
  .object [("version".toList, .string version)]

def oldJson : Text := "\x7b\"version\": \"0.9.0\"\x7d".toList

def newJson : Text := "\x7b\n  \"version\": \"1.0.0\"\n\x7d".toList

def newToml : Text := "[package]\nversion = \"1.0.0\"\n".toList

def smallLoads (text : Text) : Except Text Json :=
  if text = newJson ∨ text = newJson ++ ['\n'] then
    .ok (versioned "1.0.0".toList)
  else if text = oldJson then
    .ok (versioned "0.9.0".toList)
  else
    .error "unsupported".toList

def smallDumps : Json → Except Text Text
  | .object [(name, .string version)] =>
      if name = "version".toList ∧ version = "1.0.0".toList then
        .ok newJson
      else
        .error "unsupported".toList
  | _ => .error "unsupported".toList

/-- Libraries which know two objects, and one crate. -/
def smallFormats : Formats where
  json :=
    { loads := smallLoads
      dumps := smallDumps }
  Toml := Text
  parseToml text :=
    if text = newToml then
      .ok "1.0.0".toList
    else
      .error "unsupported".toList
  dumpsToml _ := newToml
  packageVersion data := .ok data
  setPackageVersion version _ :=
    if version = "1.0.0".toList then .ok version else .error .typeError
  parseVersion text :=
    if text = "0.9.0".toList then
      .ok { smallVersion with major := 0, minor := 9 }
    else
      .error "unsupported".toList

theorem distinct_versioned (version : Text) :
    (versioned version).Distinct := by
  apply Json.Distinct.object
  · exact List.nodup_singleton _
  · intro field member
    rw [List.mem_singleton.mp member]
    exact .string version

theorem smallDumps_ok
    {value : Json} {text : Text} (dumped : smallDumps value = .ok text) :
    value = versioned "1.0.0".toList ∧ text = newJson := by
  unfold smallDumps at dumped
  split at dumped
  · split_ifs at dumped with known
    rcases known with ⟨rfl, rfl⟩
    cases dumped
    exact ⟨rfl, rfl⟩
  · cases dumped

theorem smallLoads_new
    {text : Text} (known : text = newJson ∨ text = newJson ++ ['\n']) :
    smallLoads text = .ok (versioned "1.0.0".toList) :=
  if_pos known

theorem smallJson_lawful : smallFormats.json.Lawful where
  distinct text value loaded := by
    change smallLoads text = .ok value at loaded
    unfold smallLoads at loaded
    split_ifs at loaded
    · cases loaded
      exact distinct_versioned _
    · cases loaded
      exact distinct_versioned _
  loads_dumps value text _ dumped := by
    rcases smallDumps_ok dumped with ⟨rfl, rfl⟩
    exact smallLoads_new (Or.inl rfl)
  loads_line value text _ dumped := by
    rcases smallDumps_ok dumped with ⟨rfl, rfl⟩
    exact smallLoads_new (Or.inr rfl)
  unreturned value text dumped := by
    rcases smallDumps_ok dumped with ⟨rfl, rfl⟩
    decide

theorem smallFormats_lawful : smallFormats.Lawful where
  json := smallJson_lawful
  parse_dumps version data updated set := by
    simp only [smallFormats] at set
    split_ifs at set with known
    cases set
    rw [known]
    rfl
  package_version version data updated set := by
    simp only [smallFormats] at set
    split_ifs at set
    cases set
    rfl
  set_again version data updated set := by
    simp only [smallFormats] at set
    split_ifs at set with known
    cases set
    exact if_pos known
  unreturned text version data updated _ _ _ := by
    simp only [smallFormats]
    decide

def smallRoot : Path :=
  { absolute := true
    components := [.normal "repository".toList] }

/-- Tools which are not used. -/
def idleTools : Tools where
  signs _ _ _ := True
  reports _ _ _ := True
  environment _ _ := True
  hostSystem := "Linux".toList
  hostMachine := "x86_64".toList

def idleMachinery : Machinery where
  built _ _ := []
  report _ _ := succeeded
  sign _ _ := []
  environ _ := none
  system := "Linux".toList
  machine := "x86_64".toList
  temporary := smallRoot.child "tmp".toList

theorem idleMachinery_truthful : idleMachinery.Truthful idleTools where
  report _ _ := trivial
  sign _ _ := trivial
  environment _ := trivial
  system := rfl
  machine := rfl
  temporary := ⟨smallRoot, [], rfl⟩

/-- The files of an earlier version. -/
def smallFiles : Files :=
  .ofTexts
    [(pluginJson smallRoot, oldJson), (cargoToml smallRoot, newToml),
      (checksums smallRoot, oldJson), (manifest smallRoot, oldJson)]

/-- The files when a write was cut short after its first rewrite. -/
def interruptedFiles : Files :=
  interruptAfter (faultless smallRoot idleMachinery) 7
    (write smallFormats smallRoot smallVersion.display).run smallFiles

-- One file has the new version, and another one the old version.
example :
    interruptedFiles.world (pluginJson smallRoot) = some (encode newJson) ∧
      interruptedFiles.world (checksums smallRoot) =
        some (encode oldJson) := by
  decide +kernel

/-- A write which was cut short between two rewrites is completed. -/
theorem interrupted_writes_complete_small :
    ∃ after,
      Runs (answers smallRoot idleTools)
          (write smallFormats smallRoot smallVersion.display).run
          interruptedFiles.world (.ok ()) after ∧
        Complete smallFormats smallRoot smallVersion.display
            smallFiles.world after ∧
          Represents smallFormats smallRoot after
            (Version.write smallVersion) := by
  have done :
      ((write smallFormats smallRoot smallVersion.display).run.execute
        (faultless smallRoot idleMachinery) interruptedFiles).1 =
          .ok () := by
    rfl
  have runs :=
    runs_faultless smallRoot idleMachinery idleMachinery_truthful
      (write smallFormats smallRoot smallVersion.display).run
      interruptedFiles
  rw [done] at runs
  have interrupted :
      Interrupted smallFormats smallRoot idleTools smallVersion.display
        smallFiles.world interruptedFiles.world :=
    .again .never
      (visits_interruptAfter
        (faultless_admissible smallRoot idleMachinery
          idleMachinery_truthful) 7 _ smallFiles)
  exact ⟨_, runs,
    (interrupted_writes_complete smallFormats_lawful interrupted).2 _
      runs⟩

/-- The plugin manifest has this version, which the library parses. -/
def Carries (formats : Formats) (repoRoot : Path) (world : World)
    (version : Version) : Prop :=
  ∃ text, JsonDeclares formats world (pluginJson repoRoot) text ∧
    formats.parseVersion text = .ok version

/-- What is read is the version which the plugin manifest has. -/
theorem sustains_read {always : World → Prop} (now : always before) :
    Sustains (answers repoRoot tools) always (read formats repoRoot).run
      (WhenOk fun version after =>
        after = before ∧ Carries formats repoRoot before version)
      before := by
  rw [read, sustains_run_bind, readPluginMetadata, sustains_run_bind,
    sustains_issue]
  refine ⟨now, ?_⟩
  rintro answer _ ⟨rfl, reads⟩
  refine ⟨now, ?_⟩
  cases answer with
  | error failure => trivial
  | ok text =>
      rw [onOk_ok, onOk_ok, sustains_run_except]
      refine ⟨now, ?_⟩
      cases loaded : loads formats text with
      | error raised => trivial
      | ok metadata =>
          rw [onOk_ok, sustains_run_bind, sustains_run_except]
          refine ⟨now, ?_⟩
          cases found : getItem "version".toList metadata with
          | error raised => trivial
          | ok current =>
              rw [onOk_ok, sustains_run_except]
              refine ⟨now, ?_⟩
              cases parsed : versionOf formats current with
              | error raised => trivial
              | ok version =>
                  rcases getItem_ok.mp found with ⟨fields, rfl, present⟩
                  rcases versionOf_ok.mp parsed with ⟨written, rfl, parses⟩
                  exact ⟨rfl, written,
                    ⟨text, fields, reads text rfl, loads_ok.mp loaded,
                      present⟩,
                    parses⟩

/--
A bump on the files does what the abstract bump does: it starts from the
version of the plugin manifest alone, and leaves the files of the abstract
task.  Wherever it is cut short, it has done nothing, or is at a stage of
writing that one version.
-/
theorem bump_refines_files
    (lawful : formats.Lawful) (semver : Semver)
    (bumpTypes : List BumpType) :
    (∀ seen,
      Visits (answers repoRoot tools)
          (bump formats repoRoot semver bumpTypes).run before seen →
        seen = before ∨
          ∃ current, Carries formats repoRoot before current ∧
            ∀ anchors : Anchors, anchors.pluginJson = current →
              Stage formats repoRoot
                (Version.bump semver anchors bumpTypes).2.display before
                seen) ∧
      ∀ version after,
        Runs (answers repoRoot tools)
            (bump formats repoRoot semver bumpTypes).run before
            (.ok version) after →
          ∃ current, Carries formats repoRoot before current ∧
            ∀ anchors : Anchors, anchors.pluginJson = current →
              version = (Version.bump semver anchors bumpTypes).2 ∧
                Complete formats repoRoot version.display before after ∧
                  Represents formats repoRoot after
                    (Version.bump semver anchors bumpTypes).1 := by
  let types := if bumpTypes = [] then [.pre] else bumpTypes
  have sustained :
      Sustains (answers repoRoot tools)
        (fun seen => seen = before ∨
          ∃ current, Carries formats repoRoot before current ∧
            Stage formats repoRoot
              (types.foldl (bumpOnce semver) current).display before seen)
        (bump formats repoRoot semver bumpTypes).run
        (WhenOk fun version after =>
          ∃ current, Carries formats repoRoot before current ∧
            version = types.foldl (bumpOnce semver) current ∧
              Complete formats repoRoot version.display before after)
        before := by
    rw [bump]
    apply (sustains_read (Or.inl rfl)).run_bind
    · rintro current middle _ ⟨rfl, carries⟩
      have stage :
          Stage formats repoRoot
            (types.foldl (bumpOnce semver) current).display middle middle :=
        Or.inl (SameOff.refl _ middle)
      apply ((sustains_write lawful stage).widen
        fun seen reached => Or.inr ⟨current, carries, reached⟩).run_bind
      · intro _ after now complete
        exact ⟨now, current, carries, rfl, complete⟩
      · exact fun _ _ _ _ => trivial
    · exact fun _ _ _ _ => trivial
  constructor
  · intro seen visits
    rcases sustained.visited visits with same | ⟨current, carries, stage⟩
    · exact Or.inl same
    · refine Or.inr ⟨current, carries, ?_⟩
      rintro anchors rfl
      exact stage
  · intro version after runs
    rcases sustained.ensures.of_run runs with
      ⟨current, carries, bumped, complete⟩
    refine ⟨current, carries, ?_⟩
    rintro anchors rfl
    refine ⟨bumped, complete, ?_⟩
    have represents := complete.represents lawful
    rw [bumped] at represents
    exact represents

/-- A version library in which every bump leads to the small version. -/
def smallSemver : Semver where
  bumpMajor _ := smallVersion
  bumpMinor _ := smallVersion
  bumpPatch _ := smallVersion
  bumpPrerelease _ _ := smallVersion
  finalizeVersion _ := smallVersion
  nextVersion _ _ _ := smallVersion

theorem bump_refines_files_small :
    ∃ after,
      Runs (answers smallRoot idleTools)
          (bump smallFormats smallRoot smallSemver [.major]).run
          smallFiles.world
          (.ok smallVersion) after ∧
        Represents smallFormats smallRoot after
          (Version.write smallVersion) := by
  have done :
      ((bump smallFormats smallRoot smallSemver [.major]).run.execute
        (faultless smallRoot idleMachinery) smallFiles).1 =
          .ok smallVersion := by
    rfl
  have runs :=
    runs_faultless smallRoot idleMachinery idleMachinery_truthful
      (bump smallFormats smallRoot smallSemver [.major]).run smallFiles
  rw [done] at runs
  rcases (bump_refines_files smallFormats_lawful smallSemver [.major]).2 _ _
      runs with
    ⟨current, _, refines⟩
  exact ⟨_, runs, (refines (Version.write current) rfl).2.2⟩

end Refinement

end Luminosity.Tasks.VersionFiles
