import Luminosity.Launch.ManifestFormat
import Luminosity.Tasks.Signing

/-!
# Preparing a release

The first part of a prerelease bumps the version, points the marketplace at
it and builds the binaries; the second part signs them.  What the two leave in
the workspace is a release which the launcher of that very version accepts:
its manifest verifies and is of the launcher's version, and every binary
passes the checks under the entry of its platform.
-/

namespace Luminosity.Tasks.Prerelease

open Luminosity.Foundation.TextSegments
open Luminosity.Foundation.EffectPrograms
open Luminosity.Foundation.Exceptions
open Luminosity.Foundation.Interruptions
open Luminosity.Foundation.JsonValues
open Luminosity.Foundation.LineBreaks (universalNewlines_unreturned)
open Luminosity.Foundation.SemanticVersions
open Luminosity.Host.Paths
open Luminosity.Launch.ManifestFormat
open Luminosity.Launch.Verifier
  (Libraries TrustedKeys Manifest verifyManifest verifyBinary
    verifyManifest_ok_iff verifyBinary_ok_iff parseAndValidate_ok_iff)
open Luminosity.Tasks.Github
  (binDir binaryPath signaturePath manifest manifestSignature removePrefix)
open Luminosity.Tasks.Version (Semver Anchors)
open Luminosity.Tasks.Workspace
open Luminosity.Tasks.VersionFiles
open Luminosity.Tasks.Builds
open Luminosity.Tasks.Signing

/-! ## The marketplace -/

/-- The entry of the plugin has its reference set, and others stay. -/
def updateEntry (plugin ref : Text) (entry : Json) : Except Raised Json := do
  let name ← getItem "name".toList entry
  match name with
  | .string text =>
      if text = plugin then do
        let source ← getItem "source".toList entry
        let updated ← assignItem "ref".toList (.string ref) source
        assignItem "source".toList updated entry
      else
        return entry
  | _ => return entry

def updateEntries (plugin ref : Text) :
    List Json → Except Raised (List Json)
  | [] => return []
  | entry :: later => do
      let updated ← updateEntry plugin ref entry
      let others ← updateEntries plugin ref later
      return updated :: others

/-- The loop over the plugins.  An empty object or text has no items. -/
def updatePlugins (plugin ref : Text) : Json → Except Raised Json
  | .array entries => do
      let updated ← updateEntries plugin ref entries
      return .array updated
  | .object [] => .ok (.object [])
  | .string [] => .ok (.string [])
  | _ => .error .typeError

section Tasks

variable (formats : Formats) (sha256Hex : Bytes → Text) (repoRoot : Path)

/-- `read_metadata` and `read_prerelease_metadata`. -/
def readMetadata (path : Path) : WorkspaceTask Json := do
  let text ← issue (.readText path)
  liftM (loads formats text)

/-- `write_metadata` and `write_prerelease_metadata`. -/
def writeMetadata (path : Path) (metadata : Json) : WorkspaceTask Unit := do
  let written ← liftM (dumps formats metadata)
  issue (.writeText path written)

/-- `target_version or version.read(_context)` -/
def resolveVersion (targetVersion : Option Text) : WorkspaceTask Text :=
  match targetVersion with
  | some (first :: rest) => return first :: rest
  | _ => do
      let version ← read formats repoRoot
      return version.display

/-- The plugin's reference in a marketplace is set to the version. -/
def updateMarketplace (path : Path) (plugin : Text)
    (targetVersion : Option Text) : WorkspaceTask Unit := do
  let resolvedVersion ← resolveVersion formats repoRoot targetVersion
  let marketplace ← readMetadata formats path
  let plugins ← liftM (getItem "plugins".toList marketplace)
  let updated ← liftM (updatePlugins plugin ('v' :: resolvedVersion) plugins)
  let marketplace ← liftM (assignItem "plugins".toList updated marketplace)
  writeMetadata formats path marketplace

/-- `marketplace.update_prerelease_version`. -/
def updatePrereleaseVersion :
    (plugin : Text) → Option Text → WorkspaceTask Unit :=
  updateMarketplace formats repoRoot (prereleaseMarketplaceJson repoRoot)

/-! ## The parts of a prerelease -/

/-- `git.configure`. -/
def configure (userName userEmail : Text) : WorkspaceTask Unit := do
  runChecked (.configure "user.name".toList userName)
  runChecked (.configure "user.email".toList userEmail)

/-- `git.pull`. -/
def pull : WorkspaceTask Unit :=
  runChecked .pull

/-- `prerelease_prepare`. -/
def prereleasePrepare (semver : Semver) : WorkspaceTask Unit := do
  configure "Atomic Maintainers".toList "maintainers@go-atomic.io".toList
  pull
  let _ ← bump formats repoRoot semver [.pre]
  updatePrereleaseVersion formats repoRoot "luminosity".toList none
  release formats sha256Hex repoRoot

/-- `prerelease_sign`. -/
def prereleaseSign : WorkspaceTask Unit :=
  sign formats repoRoot

/-- The first two parts, one after the other. -/
def prepareAndSign (semver : Semver) : WorkspaceTask Unit := do
  prereleasePrepare formats sha256Hex repoRoot semver
  prereleaseSign formats repoRoot

end Tasks

/-! ## What the marketplace refers to -/

/-- The entry refers to this version, if it is one of the plugin. -/
def Refers (plugin ref : Text) (entry : Json) : Prop :=
  ∀ fields, entry = .object fields →
    fields.lookup "name".toList = some (.string plugin) →
      ∃ source, fields.lookup "source".toList = some (.object source) ∧
        source.lookup "ref".toList = some (.string ref)

theorem updateEntry_ok
    {plugin ref : Text} {entry updated : Json} (distinct : entry.Distinct)
    (made : updateEntry plugin ref entry = .ok updated) :
    updated.Distinct ∧ Refers plugin ref updated := by
  unfold updateEntry at made
  rcases except_bind_ok.mp made with ⟨name, found, made⟩
  rcases getItem_ok.mp found with ⟨fields, rfl, named⟩
  have other (different : ∀ text, name = .string text → text ≠ plugin) :
      Refers plugin ref (.object fields) := by
    intro own same isPlugin
    cases same
    rw [named] at isPlugin
    exact absurd rfl (different plugin (Option.some.inj isPlugin))
  cases name with
  | string text =>
      dsimp only at made
      split_ifs at made with own
      · rcases except_bind_ok.mp made with ⟨source, held, made⟩
        rcases except_bind_ok.mp made with ⟨pointed, set, assigned⟩
        rcases getItem_ok.mp held with ⟨_, same, present⟩
        cases same
        rcases assignItem_ok.mp set with ⟨inner, rfl, rfl⟩
        rcases assignItem_ok.mp assigned with ⟨_, same, rfl⟩
        cases same
        constructor
        · exact distinct.setItem _
            ((distinct.of_lookup present).setItem _ (.string _))
        · intro all same isPlugin
          cases same
          exact ⟨_, lookup_setItem_self _ _ _, lookup_setItem_self _ _ _⟩
      · cases made
        refine ⟨distinct, other ?_⟩
        intro read same
        cases same
        exact own
  | _ =>
      cases made
      exact ⟨distinct, other fun _ impossible => nomatch impossible⟩

theorem updateEntries_ok
    {plugin ref : Text} {entries updated : List Json}
    (distinct : ∀ entry ∈ entries, entry.Distinct)
    (made : updateEntries plugin ref entries = .ok updated) :
    ∀ entry ∈ updated, entry.Distinct ∧ Refers plugin ref entry := by
  induction entries generalizing updated with
  | nil =>
      cases made
      exact fun _ member => nomatch member
  | cons first later induction =>
      rw [updateEntries] at made
      rcases except_bind_ok.mp made with ⟨head, own, made⟩
      rcases except_bind_ok.mp made with ⟨others, rest, made⟩
      cases made
      intro entry member
      rcases List.mem_cons.mp member with rfl | earlier
      · exact updateEntry_ok (distinct first List.mem_cons_self) own
      · exact induction
          (fun other present => distinct other (List.mem_cons_of_mem _ present))
          rest entry earlier

/-- The plugins of which each refers to the version. -/
def AllRefer (plugin ref : Text) (plugins : Json) : Prop :=
  ∀ entries, plugins = .array entries →
    ∀ entry ∈ entries, Refers plugin ref entry

theorem updatePlugins_ok
    {plugin ref : Text} {plugins updated : Json}
    (distinct : plugins.Distinct)
    (made : updatePlugins plugin ref plugins = .ok updated) :
    updated.Distinct ∧ AllRefer plugin ref updated := by
  unfold updatePlugins at made
  split at made
  · rcases except_bind_ok.mp made with ⟨entries, each, made⟩
    cases made
    cases distinct with
    | array distinctEntries =>
        have all := updateEntries_ok distinctEntries each
        constructor
        · exact .array fun entry member => (all entry member).1
        · intro others same entry member
          cases same
          exact (all entry member).2
  · cases made
    exact ⟨distinct, fun _ impossible => nomatch impossible⟩
  · cases made
    exact ⟨distinct, fun _ impossible => nomatch impossible⟩
  · cases made

/-- The marketplace at the path refers to the version. -/
def Points (formats : Formats) (world : World) (path : Path)
    (plugin ref : Text) : Prop :=
  ∃ text fields plugins, Reads world path text ∧
    formats.json.loads text = .ok (.object fields) ∧
      fields.lookup "plugins".toList = some plugins ∧
        AllRefer plugin ref plugins

section Marketplace

variable {formats : Formats} {repoRoot : Path} {tools : Tools}
variable {before after : World}

theorem Points.congr
    {path : Path} {plugin ref : Text}
    (points : Points formats before path plugin ref)
    (same : after path = before path) :
    Points formats after path plugin ref := by
  rcases points with ⟨text, fields, plugins, reads, rest⟩
  exact ⟨text, fields, plugins, reads.congr same, rest⟩

theorem ensures_read :
    Ensures (answers repoRoot tools) (read formats repoRoot).run
      (WhenOk fun version after =>
        after = before ∧ Carries formats repoRoot before version)
      before := by
  have sustained :=
    @sustains_read formats repoRoot tools before (fun _ => True) trivial
  exact sustained.ensures

theorem ensures_readMetadata (path : Path) :
    Ensures (answers repoRoot tools) (readMetadata formats path).run
      (WhenOk fun data after => after = before ∧
        ∃ text, Reads before path text ∧ formats.json.loads text = .ok data)
      before := by
  rw [readMetadata, ensures_run_bind, ensures_issue]
  rintro answer _ ⟨rfl, reads⟩
  cases answer with
  | error failure => trivial
  | ok text =>
      rw [onOk_ok, onOk_ok, ensures_run_except]
      cases loaded : loads formats text with
      | error raised => trivial
      | ok data => exact ⟨rfl, text, reads text rfl, loads_ok.mp loaded⟩

/-- The marketplace refers to the version which was read. -/
theorem ensures_updateMarketplace
    (lawful : formats.json.Lawful) (path : Path) (plugin : Text) :
    Ensures (answers repoRoot tools)
      (updateMarketplace formats repoRoot path plugin none).run
      (WhenOk fun _ after => SameOff (· = path) before after ∧
        ∃ version, Carries formats repoRoot before version ∧
          Points formats after path plugin ('v' :: version.display))
      before := by
  rw [updateMarketplace]
  have resolved :
      Ensures (answers repoRoot tools)
        (resolveVersion formats repoRoot none).run
        (WhenOk fun shown after => after = before ∧
          ∃ version, Carries formats repoRoot before version ∧
            shown = version.display)
        before := by
    apply Ensures.succeeds ensures_read
    rintro version _ ⟨rfl, carries⟩
    exact ⟨rfl, version, carries, rfl⟩
  apply Ensures.succeeds resolved
  rintro _ _ ⟨rfl, version, carries, rfl⟩
  apply Ensures.succeeds (ensures_readMetadata path)
  rintro data before ⟨rfl, text, reads, loaded⟩
  rw [ensures_run_bind, ensures_run_except]
  cases found : getItem "plugins".toList data with
  | error raised => trivial
  | ok plugins =>
      rw [onOk_ok, ensures_run_bind, ensures_run_except]
      cases made : updatePlugins plugin ('v' :: version.display) plugins with
      | error raised => trivial
      | ok updated =>
          rcases getItem_ok.mp found with ⟨fields, rfl, present⟩
          have distinct := lawful.distinct text _ loaded
          have all := updatePlugins_ok (distinct.of_lookup present) made
          have assigned :
              assignItem "plugins".toList updated (.object fields) =
                .ok (.object (setItem "plugins".toList updated fields)) := rfl
          rw [onOk_ok, ensures_run_bind, ensures_run_except, assigned,
            onOk_ok, writeMetadata, ensures_run_bind, ensures_run_except]
          cases dumped : dumps formats
              (.object (setItem "plugins".toList updated fields)) with
          | error raised => trivial
          | ok written =>
              have printed := dumps_ok.mp dumped
              have whole := distinct.setItem "plugins".toList all.1
              rw [onOk_ok, ensures_issue]
              rintro answer _ ⟨left, rfl, complete⟩
              cases answer with
              | error failure => trivial
              | ok _ =>
                  refine ⟨sameOff_update before path left, version, carries,
                    written, _, updated, ?_,
                    lawful.loads_dumps _ written whole printed,
                    lookup_setItem_self _ _ _, all.2⟩
                  apply reads_encoded (lawful.unreturned _ written printed)
                  rw [Function.update_self, complete rfl]

end Marketplace

/-! ## Where things are -/

section Places

variable (repoRoot : Path)

theorem prereleaseMarketplaceJson_eq :
    prereleaseMarketplaceJson repoRoot =
      (repoRoot.child ".claude-plugin".toList).child
        "marketplace-prerelease.json".toList := by
  have joined :
      prereleaseMarketplaceJson repoRoot =
        repoRoot.join
          (".claude-plugin".toList ++ '/' ::
            "marketplace-prerelease.json".toList) := rfl
  rw [joined, join_slash _ (by decide) (by decide), join_plain _ (by decide)]

theorem marketplace_not_anchor :
    prereleaseMarketplaceJson repoRoot ∉ anchorPaths repoRoot := by
  intro member
  rcases exists_child_of_anchor repoRoot member with
    ⟨directory, name, named, same⟩
  rw [prereleaseMarketplaceJson_eq] at same
  rw [← (child_injective same).2] at named
  exact absurd named (by decide)

variable {repoRoot}

/-- A path next to neither the manifests nor the package is not touched. -/
theorem not_touchedByRelease
    {directory : Path} {name : Text} (notBin : directory ≠ binDir repoRoot)
    (notPackage : directory ≠ repoRoot.child "bin".toList)
    (outside : ¬ (directory.child name).startsWith
      ((workspaceRoot repoRoot).join "target".toList) = true) :
    ¬ TouchedByRelease repoRoot (directory.child name) := by
  rintro (⟨target, member, inside | binary | archive | shim⟩ | same | same)
  · exact outside inside
  · rw [binaryPath_eq repoRoot member] at binary
    exact notBin (child_injective binary).1
  · rw [debugArchivePath_eq repoRoot member] at archive
    exact notBin (child_injective archive).1
  · rw [shimPath_eq repoRoot member] at shim
    exact notPackage (child_injective shim).1
  · rw [checksums_eq] at same
    exact notBin (child_injective same).1
  · rw [checksums_staging] at same
    exact notBin (child_injective same).1

/-- A path which is not next to the manifests is not signed. -/
theorem not_written
    {directory : Path} {name : Text} (notBin : directory ≠ binDir repoRoot) :
    ¬ Written repoRoot (directory.child name) := by
  rintro ⟨other, _, same⟩
  exact notBin (child_injective same).1

variable (repoRoot)

/-- The directory of the plugin is neither of the two. -/
theorem plugin_directory :
    repoRoot.child ".claude-plugin".toList ≠ binDir repoRoot ∧
      repoRoot.child ".claude-plugin".toList ≠
        repoRoot.child "bin".toList := by
  constructor
  · intro same
    rw [binDir_eq] at same
    have lengths :=
      congrArg (fun path : Path => path.components.length) same
    simp [Path.child] at lengths
  · intro same
    exact absurd (child_injective same).2 (by decide)

theorem plugin_outside (name : Text) :
    ¬ ((repoRoot.child ".claude-plugin".toList).child name).startsWith
      ((workspaceRoot repoRoot).join "target".toList) = true := by
  intro inside
  rw [targetDir_eq] at inside
  simp [Path.startsWith, Path.child] at inside

/-- The directory of the crate is neither of the two. -/
theorem crate_directory :
    (repoRoot.child "cli".toList).child "launcher".toList ≠
        binDir repoRoot ∧
      (repoRoot.child "cli".toList).child "launcher".toList ≠
        repoRoot.child "bin".toList := by
  constructor
  · intro same
    rw [binDir_eq] at same
    have lengths :=
      congrArg (fun path : Path => path.components.length) same
    simp [Path.child] at lengths
  · intro same
    exact absurd (child_injective same).2 (by decide)

theorem crate_outside (name : Text) :
    ¬ (((repoRoot.child "cli".toList).child "launcher".toList).child
        name).startsWith
      ((workspaceRoot repoRoot).join "target".toList) = true := by
  intro inside
  rw [targetDir_eq] at inside
  simp [Path.startsWith, Path.child] at inside

/-- The paths which neither the builds nor the signatures touch. -/
def Kept (path : Path) : Prop :=
  ¬ TouchedByRelease repoRoot path ∧ ¬ Written repoRoot path

theorem kept_pluginJson : Kept repoRoot (pluginJson repoRoot) := by
  rw [pluginJson_eq]
  exact ⟨not_touchedByRelease (plugin_directory repoRoot).1
      (plugin_directory repoRoot).2 (plugin_outside repoRoot _),
    not_written (plugin_directory repoRoot).1⟩

theorem kept_marketplace :
    Kept repoRoot (prereleaseMarketplaceJson repoRoot) := by
  rw [prereleaseMarketplaceJson_eq]
  exact ⟨not_touchedByRelease (plugin_directory repoRoot).1
      (plugin_directory repoRoot).2 (plugin_outside repoRoot _),
    not_written (plugin_directory repoRoot).1⟩

theorem kept_cargoToml : Kept repoRoot (cargoToml repoRoot) := by
  rw [cargoToml_eq]
  exact ⟨not_touchedByRelease (crate_directory repoRoot).1
      (crate_directory repoRoot).2 (crate_outside repoRoot _),
    not_written (crate_directory repoRoot).1⟩

/-- The builds leave the manifest to the signatures. -/
theorem manifest_not_touched :
    ¬ TouchedByRelease repoRoot (manifest repoRoot) := by
  have distinct :
      ∀ target ∈ targets,
        "manifest.json".toList ≠ "luminosity-".toList ++ target.2 ∧
          "manifest.json".toList ≠
            "luminosity-".toList ++ target.2 ++
              ".debug.tar.gz".toList := by decide
  rw [manifest_eq]
  rintro (⟨target, member, touched⟩ | same | same)
  · exact not_touched repoRoot member (distinct target member).1
      (distinct target member).2 touched
  · rw [checksums_eq] at same
    exact absurd (child_injective same).2 (by decide)
  · rw [checksums_staging] at same
    exact absurd (child_injective same).2 (by decide)

end Places

/-! ## What is prepared -/

section Preparing

variable {formats : Formats} {sha256Hex : Bytes → Text} {repoRoot : Path}
variable {tools : Tools} {before after : World}

/-- The files carry the versions as long as they stay. -/
theorem represents_congr
    {anchors : Anchors}
    (represents : Represents formats repoRoot before anchors)
    (same : ∀ anchor ∈ anchorPaths repoRoot,
      after anchor = before anchor) :
    Represents formats repoRoot after anchors where
  pluginJson := represents.pluginJson.congr (same _ (by simp [anchorPaths]))
  cargoToml := represents.cargoToml.congr (same _ (by simp [anchorPaths]))
  checksums := represents.checksums.congr (same _ (by simp [anchorPaths]))
  manifest := represents.manifest.congr (same _ (by simp [anchorPaths]))

theorem ensures_bump
    (lawful : formats.Lawful) (semver : Semver)
    (bumpTypes : List Version.BumpType) :
    Ensures (answers repoRoot tools)
      (bump formats repoRoot semver bumpTypes).run
      (WhenOk fun version after =>
        Represents formats repoRoot after (Version.write version))
      before := by
  rw [bump]
  apply Ensures.succeeds ensures_read
  rintro current start ⟨rfl, _⟩
  apply Ensures.succeeds
    (sustains_write lawful (Or.inl (SameOff.refl _ start))).ensures
  intro _ final complete
  exact complete.represents lawful

/-- The checksums keep their version when digests are recorded. -/
theorem declares_of_checksums
    {digests : List (Text × Text)} {version : Text}
    (declares :
      JsonDeclares formats before (checksums repoRoot) version)
    (recorded : Checksums formats repoRoot digests before after) :
    JsonDeclares formats after (checksums repoRoot) version := by
  rcases declares with ⟨text, fields, reads, loaded, found⟩
  rcases recorded with ⟨source, written, others, again, sameLoaded,
    readsWritten, loadedWritten⟩
  rw [again.unique reads, loaded] at sameLoaded
  cases sameLoaded
  refine ⟨written, _, readsWritten, loadedWritten, ?_⟩
  rw [lookup_setItem_of_ne _ (by decide), found]

/-- What the first part leaves to the second. -/
structure Prepared (formats : Formats) (sha256Hex : Bytes → Text)
    (repoRoot : Path) (tools : Tools) (version : Version)
    (world : World) : Prop where
  represents : Represents formats repoRoot world (Version.write version)
  points : Points formats world (prereleaseMarketplaceJson repoRoot)
    "luminosity".toList ('v' :: version.display)
  released : ∃ reached start,
    Released formats sha256Hex repoRoot tools reached start world

/-- What is parsed of a display is displayed as that. -/
def ParsesDisplays (formats : Formats) : Prop :=
  ∀ version parsed : Version,
    formats.parseVersion version.display = .ok parsed →
      parsed.display = version.display

/-- The version which is read is displayed as the one which was written. -/
theorem display_of_carries
    (parses : ParsesDisplays formats) {version other : Version}
    (represents :
      Represents formats repoRoot before (Version.write version))
    (carries : Carries formats repoRoot before other) :
    other.display = version.display := by
  rcases carries with ⟨text, ⟨source, fields, reads, loaded, found⟩, parsed⟩
  rcases represents.pluginJson with
    ⟨written, others, again, sameLoaded, sameFound⟩
  rw [reads.unique again, sameLoaded] at loaded
  cases loaded
  rw [sameFound] at found
  cases found
  exact parses version other parsed

/-- Once the builds are done, everything is prepared. -/
theorem ensures_release_prepared
    (lawful : formats.json.Lawful) {version : Version}
    (represents :
      Represents formats repoRoot before (Version.write version))
    (points : Points formats before (prereleaseMarketplaceJson repoRoot)
      "luminosity".toList ('v' :: version.display)) :
    Ensures (answers repoRoot tools) (release formats sha256Hex repoRoot).run
      (WhenOk fun _ after =>
        Prepared formats sha256Hex repoRoot tools version after)
      before := by
  have frame :
      Ensures (answers repoRoot tools)
        (release formats sha256Hex repoRoot).run
        (fun _ after => SameOff (TouchedByRelease repoRoot) before after)
        before :=
    (sustains_touching asks_release).ensures
  have building :=
    (sustains_release lawful
      (@sustains_visits repoRoot tools (release formats sha256Hex repoRoot)
        before)).ensures
  apply (building.and frame).mono
  rintro result after ⟨released, same⟩
  cases result with
  | error raised => trivial
  | ok _ =>
      have recorded := released
      rcases recorded with ⟨digests, recorded, _⟩
      refine ⟨⟨?_, ?_, ?_, ?_⟩, ?_, _, before, released⟩
      · exact represents.pluginJson.congr
          (same _ (kept_pluginJson repoRoot).1)
      · exact represents.cargoToml.congr (same _ (kept_cargoToml repoRoot).1)
      · exact declares_of_checksums represents.checksums recorded
      · exact represents.manifest.congr
          (same _ (manifest_not_touched repoRoot))
      · exact points.congr (same _ (kept_marketplace repoRoot).1)

/-- The first part prepares a release of one version. -/
theorem ensures_prereleasePrepare
    (lawful : formats.Lawful) (parses : ParsesDisplays formats)
    (semver : Semver) :
    Ensures (answers repoRoot tools)
      (prereleasePrepare formats sha256Hex repoRoot semver).run
      (WhenOk fun _ after => ∃ version,
        Prepared formats sha256Hex repoRoot tools version after)
      before := by
  rw [prereleasePrepare]
  have configured :
      Ensures (answers repoRoot tools)
        (configure "Atomic Maintainers".toList
          "maintainers@go-atomic.io".toList).run
        (WhenOk fun _ _ => True) before := by
    apply Ensures.succeeds (ensures_runChecked _)
    intro _ after _
    apply (ensures_runChecked _).mono
    intro result _ _
    cases result <;> trivial
  apply Ensures.succeeds configured
  intro _ middle _
  apply Ensures.succeeds (ensures_runChecked _)
  intro _ pulled _
  apply Ensures.succeeds (ensures_bump lawful semver _)
  intro version bumped represents
  apply Ensures.succeeds (ensures_updateMarketplace lawful.json _ _)
  rintro _ updated ⟨same, other, carries, points⟩
  rw [display_of_carries parses represents carries] at points
  have stays :
      Represents formats repoRoot updated (Version.write version) := by
    apply represents_congr represents
    intro anchor member
    apply same
    rintro rfl
    exact marketplace_not_anchor repoRoot member
  apply (ensures_release_prepared lawful.json stays points).mono
  intro result after prepared
  cases result with
  | error raised => trivial
  | ok _ => exact ⟨version, prepared⟩

end Preparing

/-! ## What the launcher reads of the manifest -/

section Reading

theorem removePrefix_append (start text : Text) :
    removePrefix start (start ++ text) = text := by
  simp [removePrefix]

/-- The digests are recorded with their algorithm, and read without it. -/
theorem bareDigests_digestFields (digests : List (Text × Text)) :
    bareDigests
        (digests.map fun digest =>
          (digest.1, .string ("sha256:".toList ++ digest.2))) =
      .ok digests := by
  induction digests with
  | nil => rfl
  | cons digest later induction =>
      rw [List.map_cons, bareDigests, induction, removePrefix_append]
      rfl

/-- The entries of the digests, each with its signature. -/
def Entries (signatures digests : List (Text × Text))
    (entries : List (Text × Launch.Verifier.PlatformEntry)) : Prop :=
  List.Forall₂
    (fun digest entry => entry.1 = digest.1 ∧
      entry.2.sha256 = digest.2 ∧
        signatures.lookup digest.1 = some entry.2.signature)
    digests entries

theorem platformOf_fields (digest signature : Text) :
    platformOf (platformFields digest signature) =
      some { sha256 := digest, signature } :=
  rfl

/-- The launcher reads the platforms which the signing task wrote. -/
theorem entriesOf_platforms
    {signatures digests : List (Text × Text)}
    {platforms : List (Text × Json)}
    (assembled : platformsOf signatures digests = .ok platforms) :
    ∃ entries, entriesOf platformOf platforms = some entries ∧
      Entries signatures digests entries ∧
        platforms.map Prod.fst = digests.map Prod.fst ∧
          ∀ platform ∈ platforms, ∃ digest signature,
            platform.2 = platformFields digest signature := by
  induction digests generalizing platforms with
  | nil =>
      cases assembled
      exact ⟨[], rfl, .nil, rfl, fun _ member => nomatch member⟩
  | cons digest later induction =>
      rcases digest with ⟨platform, digest⟩
      rw [platformsOf] at assembled
      cases found : signatures.lookup platform with
      | none =>
          rw [found] at assembled
          cases assembled
      | some signature =>
          rw [found] at assembled
          rcases except_bind_ok.mp assembled with ⟨others, rest, made⟩
          cases made
          rcases induction rest with ⟨entries, read, each, names, fields⟩
          refine ⟨(platform, { sha256 := digest, signature }) :: entries, ?_,
            .cons ⟨rfl, rfl, found⟩ each, ?_, ?_⟩
          · rw [entriesOf, platformOf_fields, read]
            rfl
          · rw [List.map_cons, names]
            rfl
          · intro other member
            rcases List.mem_cons.mp member with rfl | earlier
            · exact ⟨digest, signature, rfl⟩
            · exact fields other earlier

theorem Entries.names
    {signatures digests : List (Text × Text)}
    {entries : List (Text × Launch.Verifier.PlatformEntry)}
    (each : Entries signatures digests entries) :
    entries.map Prod.fst = digests.map Prod.fst := by
  induction each with
  | nil => rfl
  | cons head _ induction =>
      rw [List.map_cons, List.map_cons, head.1, induction]

theorem Entries.lookup
    {signatures digests : List (Text × Text)}
    {entries : List (Text × Launch.Verifier.PlatformEntry)}
    (each : Entries signatures digests entries) {platform digest : Text}
    (found : digests.lookup platform = some digest) :
    ∃ entry, entries.lookup platform = some entry ∧ entry.sha256 = digest ∧
      signatures.lookup platform = some entry.signature := by
  induction each with
  | nil => cases found
  | @cons first entry _ _ head _ induction =>
      rw [List.lookup_cons] at found ⊢
      by_cases same : platform = first.1
      · rw [same, beq_self_eq_true] at found
        cases found
        refine ⟨entry.2, ?_, head.2.1, ?_⟩
        · rw [head.1, same, beq_self_eq_true]
        · rw [same]
          exact head.2.2
      · rw [beq_false_of_ne same] at found
        rw [head.1, beq_false_of_ne same]
        exact induction found

/-- The launcher reads the manifest which the signing task wrote. -/
theorem deserialize_manifestJson
    {platforms : List (Text × Json)}
    {entries : List (Text × Launch.Verifier.PlatformEntry)}
    (read : entriesOf platformOf platforms = some entries)
    (version : Text) :
    deserialize (manifestJson (.string version) platforms) =
      some
        { schemaVersion := 1
          version
          binaries :=
            [(launcherCrate,
              { description := launcherDescription
                platforms := entries })] } := by
  have binary :
      binaryOf
          (.object
            [("description".toList, .string launcherDescription),
              ("platforms".toList, .object platforms)]) =
        some
          { description := launcherDescription
            platforms := entries } := by
    change (do
      let platforms ← entriesOf platformOf platforms
      return BinaryDocument.mk launcherDescription platforms) = _
    rw [read]
    rfl
  change (do
    let binaries ← (do
      let item ← binaryOf
        (.object
          [("description".toList, .string launcherDescription),
            ("platforms".toList, .object platforms)])
      return [(launcherCrate, item)])
    return Document.mk 1 version binaries) = _
  rw [binary]
  rfl

theorem distinct_platformFields (digest signature : Text) :
    (platformFields digest signature).Distinct := by
  apply Json.Distinct.object
  · show ["sha256".toList, "signature".toList].Nodup
    decide
  · intro field member
    simp only [List.mem_cons, List.not_mem_nil, or_false] at member
    rcases member with rfl | rfl
    · exact .string digest
    · exact .string signature

theorem within_platformFields (depth : Nat) (digest signature : Text) :
    (platformFields digest signature).Within (depth + 1) := by
  apply Json.Within.object
  intro field member
  simp only [List.mem_cons, List.not_mem_nil, or_false] at member
  rcases member with rfl | rfl
  · exact .string depth digest
  · exact .string depth signature

/-- The platforms of a manifest are fields, each of them once. -/
structure PlatformFields (platforms : List (Text × Json)) : Prop where
  nodup : (platforms.map Prod.fst).Nodup
  fields : ∀ platform ∈ platforms, ∃ digest signature,
    platform.2 = platformFields digest signature

theorem PlatformFields.distinct
    {platforms : List (Text × Json)} (are : PlatformFields platforms)
    (version : Text) :
    (manifestJson (.string version) platforms).Distinct := by
  have whole : (Json.object platforms).Distinct := by
    apply Json.Distinct.object are.nodup
    intro field member
    rcases are.fields field member with ⟨digest, signature, same⟩
    rw [same]
    exact distinct_platformFields digest signature
  have binary :
      (Json.object
        [("description".toList, .string launcherDescription),
          ("platforms".toList, .object platforms)]).Distinct := by
    apply Json.Distinct.object
    · show ["description".toList, "platforms".toList].Nodup
      decide
    · intro field member
      simp only [List.mem_cons, List.not_mem_nil, or_false] at member
      rcases member with rfl | rfl
      · exact .string _
      · exact whole
  apply Json.Distinct.object
  · show ["schema_version".toList, "version".toList,
      "binaries".toList].Nodup
    decide
  · intro field member
    simp only [List.mem_cons, List.not_mem_nil, or_false] at member
    rcases member with rfl | rfl | rfl
    · exact .integer _
    · exact .string version
    · apply Json.Distinct.object
      · exact List.nodup_singleton _
      · intro field member
        rw [List.mem_singleton.mp member]
        exact binary

theorem PlatformFields.within
    {platforms : List (Text × Json)} (are : PlatformFields platforms)
    (version : Text) :
    (manifestJson (.string version) platforms).Within 127 := by
  have whole : (Json.object platforms).Within 124 := by
    apply Json.Within.object
    intro field member
    rcases are.fields field member with ⟨digest, signature, same⟩
    rw [same]
    exact within_platformFields 122 digest signature
  have binary :
      (Json.object
        [("description".toList, .string launcherDescription),
          ("platforms".toList, .object platforms)]).Within 125 := by
    apply Json.Within.object
    intro field member
    simp only [List.mem_cons, List.not_mem_nil, or_false] at member
    rcases member with rfl | rfl
    · exact .string 124 _
    · exact whole
  apply Json.Within.object
  intro field member
  simp only [List.mem_cons, List.not_mem_nil, or_false] at member
  rcases member with rfl | rfl | rfl
  · exact .integer 126 _
  · exact .string 126 version
  · apply Json.Within.object
    intro field member
    rw [List.mem_singleton.mp member]
    exact binary

end Reading

/-! ## What the launcher accepts -/

section Accepting

variable {libraries : Libraries}

/-- The file has a signature, at the other path, which verifies. -/
def Verifies (trusted : TrustedKeys libraries) (world : World)
    (target signature : Path) : Prop :=
  ∃ bytes signed text, world target = some bytes ∧
    world signature = some signed ∧ decode signed = some text ∧
      trusted.verifies bytes text = true

/-- The manifest passes the checks of the launcher, and so do the binaries. -/
def Accepted (trusted : TrustedKeys libraries) (repoRoot : Path)
    (version : Text) (world : World) : Prop :=
  ∃ bytes signed signature contract,
    world (manifest repoRoot) = some bytes ∧
      world (manifestSignature repoRoot) = some signed ∧
        decode signed = some signature ∧
          verifyManifest bytes signature trusted = .ok () ∧
            Manifest.parseAndValidate libraries bytes version =
                .ok contract ∧
              ∀ target ∈ targets,
                Verifies trusted world (binaryPath repoRoot target.2)
                    (signaturePath repoRoot target.2) ∧
                  ∃ binary entry,
                    world (binaryPath repoRoot target.2) = some binary ∧
                      contract.platformEntry launcherCrate target.2 =
                          some entry ∧
                        ∀ asset,
                          verifyBinary asset binary entry.sha256
                              entry.signature trusted =
                            .ok ()

/-- The key of the environment is the secret half of a trusted key. -/
def SignsForTrusted (tools : Tools) (trusted : TrustedKeys libraries) :
    Prop :=
  ∀ keyMaterial, tools.environment secretKeyEnv (some keyMaterial) →
    ∀ bytes signed, tools.signs (encode keyMaterial) bytes signed →
      ∃ text, decode signed = some text ∧ '\r' ∉ text ∧
        trusted.verifies bytes text = true

variable {formats : Formats} {repoRoot : Path} {tools : Tools}
variable {trusted : TrustedKeys libraries} {before after : World}

/-- A signature which is made is read as the text which verifies. -/
theorem verifies_of_signedBy
    (signsFor : SignsForTrusted tools trusted) {keyMaterial : Text}
    (held : tools.environment secretKeyEnv (some keyMaterial))
    {target signature : Path}
    (signed : SignedBy tools (encode keyMaterial) target signature before) :
    ∃ bytes signed text, before target = some bytes ∧
      before signature = some signed ∧ decode signed = some text ∧
        Reads before signature text ∧
          trusted.verifies bytes text = true := by
  rcases signed with ⟨bytes, made, present, found, signs⟩
  rcases signsFor keyMaterial held bytes made signs with
    ⟨text, decoded, unreturned, verifies⟩
  exact ⟨bytes, made, text, present, found, decoded,
    ⟨made, text, found, decoded,
      (universalNewlines_unreturned unreturned).symm⟩, verifies⟩

/-- What the launcher reads of a manifest which was written for it. -/
theorem parses_manifest
    (reads : ReadsManifests libraries formats.json)
    {platforms : List (Text × Json)} (are : PlatformFields platforms)
    {entries : List (Text × Launch.Verifier.PlatformEntry)}
    (read : entriesOf platformOf platforms = some entries)
    {version written : Text}
    (dumped :
      formats.json.dumps (manifestJson (.string version) platforms) =
        .ok written) :
    ∃ contract,
      Manifest.parseAndValidate libraries (encode (written ++ ['\n']))
          version =
        .ok contract ∧
      ∀ platform, contract.platformEntry launcherCrate platform =
        lastOf entries platform := by
  have parsed := reads _ written ['\n'] (are.distinct version)
    (are.within version) dumped (Or.inr rfl)
  rw [deserialize_manifestJson read] at parsed
  cases result : libraries.fromSlice (encode (written ++ ['\n'])) with
  | error detail =>
      rw [result] at parsed
      cases parsed
  | ok contract =>
      rw [result] at parsed
      have same := Option.some.inj parsed
      refine ⟨contract, parseAndValidate_ok_iff.mpr ⟨result, ?_, ?_⟩, ?_⟩
      · rw [same]
        exact UInt64.le_refl 1
      · rw [same]
        rfl
      · intro platform
        rw [same]
        rfl

/-- The checksums which were prepared are the ones the manifest is of. -/
theorem Prepared.records
    {version : Version} {sha256Hex : Bytes → Text}
    (prepared : Prepared formats sha256Hex repoRoot tools version before)
    (same : SameOff (Written repoRoot) before after)
    {data found : Json} {digests : List (Text × Text)}
    (records : Records formats repoRoot after data)
    (isVersion : getItem "version".toList data = .ok found)
    (has : HasDigests data digests) :
    found = .string version.display ∧ ∃ reached,
      Noted sha256Hex repoRoot tools reached targets digests before := by
  rcases prepared.released with ⟨reached, start, noted, recorded, staged⟩
  rcases recorded with ⟨_, text, fields, _, _, reads, loaded⟩
  rcases prepared.represents.checksums with
    ⟨again, others, readsAgain, loadedAgain, declared⟩
  rcases records with ⟨source, readsAfter, loadedAfter⟩
  rw [readsAgain.unique reads, loaded] at loadedAgain
  cases loadedAgain
  have unwritten := same _ (checksums_not_written repoRoot)
  rw [readsAfter.unique (reads.congr unwritten), loaded] at loadedAfter
  cases loadedAfter
  constructor
  · rcases getItem_ok.mp isVersion with ⟨own, equal, present⟩
    cases equal
    rw [declared] at present
    exact (Option.some.inj present).symm
  · rcases has with ⟨binaries, isBinaries, bare⟩
    rcases getItem_ok.mp isBinaries with ⟨own, equal, present⟩
    cases equal
    rw [lookup_setItem_self] at present
    cases present
    rw [bareDigests_digestFields] at bare
    cases bare
    exact ⟨reached, staged⟩

/-- What is prepared, and then signed, is accepted. -/
theorem Prepared.accepted
    (lawful : formats.json.Lawful)
    (reads : ReadsManifests libraries formats.json)
    (signsFor : SignsForTrusted tools trusted) {version : Version}
    (prepared :
      Prepared formats (Launch.Verifier.sha256Hex libraries) repoRoot tools
        version before)
    (same : SameOff (Written repoRoot) before after)
    (signed : SignedWithRelease formats repoRoot tools after) :
    JsonDeclares formats after (manifest repoRoot) version.display ∧
      Accepted trusted repoRoot version.display after := by
  rcases signed with ⟨keyMaterial, held, signed⟩
  rcases signed.manifested with ⟨data, found, digests, signatures, platforms,
    written, records, isVersion, has, readsSignatures, assembled, dumped,
    present⟩
  rcases prepared.records same records isVersion has with
    ⟨rfl, reached, noted⟩
  rcases entriesOf_platforms assembled with
    ⟨entries, read, each, names, fields⟩
  have nodup : (digests.map Prod.fst).Nodup := by
    rw [noted.1]
    decide
  have are : PlatformFields platforms := ⟨names ▸ nodup, fields⟩
  rcases parses_manifest reads are read dumped with ⟨contract, parses, holds⟩
  rcases verifies_of_signedBy signsFor held signed.manifest with
    ⟨bytes, made, signature, isManifest, isSignature, decoded, _, verifies⟩
  constructor
  · refine ⟨written ++ ['\n'], _, ?_,
      lawful.loads_line _ written (are.distinct _) dumped, ?_⟩
    · apply reads_encoded _ present
      rw [List.mem_append, not_or]
      exact ⟨lawful.unreturned _ written dumped, by decide⟩
    · rfl
  · rw [present] at isManifest
    cases isManifest
    refine ⟨_, made, signature, contract, present, isSignature, decoded,
      verifyManifest_ok_iff.mpr verifies, parses, ?_⟩
    intro target member
    rcases noted.2 target member with
      ⟨digest, isDigest, binary, _, isBinary, _, digestOf⟩
    rcases verifies_of_signedBy signsFor held
        (signed.binaries target member) with
      ⟨other, detached, text, isOther, isDetached, decodedText, readsText,
        verifiesBinary⟩
    have isStaged : after (binaryPath repoRoot target.2) = some binary := by
      rw [same _ (binary_not_written repoRoot member), isBinary]
    rw [isStaged] at isOther
    cases isOther
    rcases each.lookup isDigest with ⟨entry, isEntry, isSha256, isInline⟩
    rcases readsSignatures target member with ⟨inline, isText, readsInline⟩
    rw [isInline] at isText
    cases isText
    rw [← readsInline.unique readsText] at verifiesBinary decodedText
    refine ⟨⟨binary, detached, entry.signature, isStaged, isDetached,
      decodedText, verifiesBinary⟩, binary, entry, isStaged, ?_, ?_⟩
    · rw [holds, lastOf_eq_lookup (each.names ▸ nodup), isEntry]
    · intro asset
      exact verifyBinary_ok_iff.mpr
        ⟨(isSha256.trans digestOf).symm, verifiesBinary⟩

end Accepting

/-! ### A small prerelease -/

/-- The digests of the four binaries which are built. -/
def releaseDigest (bytes : Bytes) : Vector UInt8 32 :=
  if bytes = encode "aarch64-apple-darwin".toList then
    #v[0x60, 0x25, 0x26, 0xfe, 0x5d, 0x07, 0x20, 0xf8,
      0xfb, 0x8f, 0x60, 0x27, 0x2c, 0x92, 0x4a, 0x75,
      0x4e, 0xb9, 0x0c, 0x46, 0x13, 0x81, 0x90, 0x8e,
      0x5d, 0x8a, 0x5f, 0x04, 0xf6, 0xe5, 0x04, 0xc0]
  else if bytes = encode "x86_64-apple-darwin".toList then
    #v[0x83, 0x86, 0x36, 0xfb, 0x51, 0xc7, 0xc2, 0x95,
      0xf5, 0x3a, 0xc0, 0xbe, 0xcf, 0xa6, 0x6f, 0x4e,
      0x77, 0x26, 0xc3, 0x88, 0xaf, 0x3f, 0xc9, 0x39,
      0x7e, 0x57, 0xc9, 0x7f, 0x5f, 0x97, 0xc8, 0x40]
  else if bytes = encode "aarch64-unknown-linux-musl".toList then
    #v[0x38, 0x99, 0x01, 0x44, 0xad, 0x7c, 0x86, 0xa7,
      0x96, 0xfa, 0x78, 0x44, 0x44, 0x0d, 0xa5, 0x4d,
      0xbc, 0x1c, 0xa4, 0x81, 0xe4, 0x8f, 0x87, 0x79,
      0x62, 0x09, 0xd8, 0xa9, 0xf5, 0xd2, 0x66, 0x11]
  else
    #v[0x11, 0xa7, 0xf9, 0x7d, 0x7c, 0x53, 0xe6, 0x09,
      0xba, 0x9f, 0xb1, 0x0d, 0x25, 0x65, 0x7f, 0x44,
      0x74, 0xd2, 0xbf, 0xc8, 0x13, 0x53, 0x53, 0x3d,
      0xda, 0xec, 0x0a, 0xb2, 0xca, 0x68, 0x8e, 0x9c]

def releaseHex (bytes : Bytes) : Text :=
  (releaseDigest bytes).toList.flatMap Launch.Verifier.hexByte

/-- The signature of bytes with the release key. -/
def releaseSignature (bytes : Bytes) : Text :=
  "signature of ".toList ++ releaseHex bytes

def marketplaceOf (ref : Text) : Json :=
  .object
    [("plugins".toList, .array
      [.object
        [("name".toList, .string "luminosity".toList),
          ("source".toList, .object [("ref".toList, .string ref)])]])]

def releaseRecorded : Json :=
  .object
    (setItem "binaries".toList
      (digestFields
        (targets.map fun target =>
          (target.2, releaseHex (encode target.1))))
      [("version".toList, .string "1.0.0".toList)])

def releasePlatforms : List (Text × Json) :=
  targets.map fun target =>
    (target.2, platformFields (releaseHex (encode target.1))
      (releaseSignature (encode target.1)))

/-- The values which are read and written on the way to the release. -/
def releaseValues : List Json :=
  [versioned "0.9.0".toList, versioned "1.0.0".toList,
    marketplaceOf "v0.9.0".toList, marketplaceOf "v1.0.0".toList,
    releaseRecorded,
    manifestJson (.string "1.0.0".toList) releasePlatforms]

def releaseJson : JsonLibrary :=
  tableLibrary (printAt 0) releaseValues

def releaseFormats : Formats :=
  { smallFormats with
    json := releaseJson
    parseVersion := fun text =>
      if text = "0.9.0".toList then
        .ok { smallVersion with major := 0, minor := 9 }
      else if text = "1.0.0".toList then
        .ok smallVersion
      else
        .error "unsupported".toList }

def releaseLibraries : Libraries where
  digest := releaseDigest
  PublicKey := Unit
  Signature := Text
  decodeSignature signature := .ok signature
  verify _ data signature _ :=
    if signature = releaseSignature data then
      .ok ()
    else
      .error "signature verification failed".toList
  fromSlice := readManifest releaseJson

def releaseKeys : TrustedKeys releaseLibraries where
  keys := [()]

def releaseMachinery : Machinery :=
  { smallMachinery with
    sign := fun _ bytes => encode (releaseSignature bytes)
    environ := fun name =>
      if name = secretKeyEnv then some "release key".toList else none
    temporary :=
      { absolute := true
        components := [.normal "tmp".toList, .normal "tmprelease".toList] } }

def releaseTools : Tools where
  signs _ bytes signed := signed = encode (releaseSignature bytes)
  reports inspector bytes result :=
    result = smallMachinery.report inspector bytes
  environment name value := value = releaseMachinery.environ name
  hostSystem := releaseMachinery.system
  hostMachine := releaseMachinery.machine

theorem releaseMachinery_truthful :
    releaseMachinery.Truthful releaseTools where
  report _ _ := rfl
  sign _ _ := rfl
  environment _ := rfl
  system := rfl
  machine := rfl
  temporary :=
    ⟨{ absolute := true, components := [.normal "tmp".toList] },
      "release".toList, rfl⟩

/-- The workspace of an earlier version. -/
def releaseFiles : Files :=
  .ofTexts
    [(pluginJson smallRoot, printAt 0 (versioned "0.9.0".toList)),
      (cargoToml smallRoot, newToml),
      (checksums smallRoot, printAt 0 (versioned "0.9.0".toList)),
      (manifest smallRoot, printAt 0 (versioned "0.9.0".toList)),
      (prereleaseMarketplaceJson smallRoot,
        printAt 0 (marketplaceOf "v0.9.0".toList))]

theorem distinct_marketplaceOf (ref : Text) :
    (marketplaceOf ref).Distinct := by
  have source : (Json.object [("ref".toList, .string ref)]).Distinct := by
    apply Json.Distinct.object
    · exact List.nodup_singleton _
    · intro field member
      rw [List.mem_singleton.mp member]
      exact .string ref
  have entry :
      (Json.object
        [("name".toList, .string "luminosity".toList),
          ("source".toList,
            .object [("ref".toList, .string ref)])]).Distinct := by
    apply Json.Distinct.object
    · show ["name".toList, "source".toList].Nodup
      decide
    · intro field member
      simp only [List.mem_cons, List.not_mem_nil, or_false] at member
      rcases member with rfl | rfl
      · exact .string _
      · exact source
  apply Json.Distinct.object
  · exact List.nodup_singleton _
  · intro field member
    rw [List.mem_singleton.mp member]
    apply Json.Distinct.array
    intro item member
    rw [List.mem_singleton.mp member]
    exact entry

theorem distinct_releaseRecorded : releaseRecorded.Distinct := by
  apply (distinct_versioned "1.0.0".toList).setItem "binaries".toList
  apply distinct_digestFields
  decide +kernel

theorem releasePlatforms_fields : PlatformFields releasePlatforms where
  nodup := by decide +kernel
  fields platform member := by
    rcases List.mem_map.mp member with ⟨target, _, rfl⟩
    exact ⟨_, _, rfl⟩

/-- What is printed of the values can be read back. -/
theorem releaseValues_table : Table (printAt 0) releaseValues where
  distinct value member := by
    simp only [releaseValues, List.mem_cons, List.not_mem_nil, or_false]
      at member
    rcases member with rfl | rfl | rfl | rfl | rfl | rfl
    · exact distinct_versioned _
    · exact distinct_versioned _
    · exact distinct_marketplaceOf _
    · exact distinct_marketplaceOf _
    · exact distinct_releaseRecorded
    · exact releasePlatforms_fields.distinct _
  unreturned value member := by
    have checked :
        releaseValues.all (fun value => !(printAt 0 value).contains '\r') =
          true := by
      decide +kernel
    simpa using List.all_eq_true.mp checked value member
  apart value member other otherMember printed := by
    have checked :
        releaseValues.all (fun value => releaseValues.all fun other =>
          value = other ||
            !(printedAs (printAt 0) (printAt 0 value) other ||
              printedAs (printAt 0) (printAt 0 value ++ ['\n']) other)) =
          true := by
      decide +kernel
    have pair :=
      List.all_eq_true.mp (List.all_eq_true.mp checked value member) other
        otherMember
    rw [Bool.or_eq_true, decide_eq_true_eq] at pair
    rcases pair with same | apart
    · exact same
    · rw [← Bool.or_eq_true] at printed
      rw [printed] at apart
      cases apart

theorem releaseFormats_lawful : releaseFormats.Lawful where
  json := tableLibrary_lawful releaseValues_table
  parse_dumps := smallFormats_lawful.parse_dumps
  package_version := smallFormats_lawful.package_version
  set_again := smallFormats_lawful.set_again
  unreturned := smallFormats_lawful.unreturned

theorem releaseFormats_parses : ParsesDisplays releaseFormats := by
  intro version parsed accepted
  simp only [releaseFormats] at accepted
  split_ifs at accepted with old new
  · cases accepted
    rw [old]
    decide +kernel
  · cases accepted
    rw [new]
    decide +kernel

theorem digitChar_ne_return {digit : Nat} (bound : digit < 16) :
    Nat.digitChar digit ≠ '\r' := by
  revert digit
  decide

theorem unreturned_hex (bytes : Bytes) :
    '\r' ∉ bytes.flatMap Launch.Verifier.hexByte := by
  rw [List.mem_flatMap]
  rintro ⟨byte, _, member⟩
  have bound := byte.toNat_lt
  rw [Launch.Verifier.hexByte, List.mem_cons, List.mem_singleton] at member
  rcases member with high | low
  · exact digitChar_ne_return (by omega) high.symm
  · exact digitChar_ne_return (by omega) low.symm

theorem unreturned_releaseHex (bytes : Bytes) : '\r' ∉ releaseHex bytes :=
  unreturned_hex _

theorem unreturned_releaseSignature (bytes : Bytes) :
    '\r' ∉ releaseSignature bytes := by
  intro returned
  rcases List.mem_append.mp returned with label | digits
  · exact absurd label (by decide +kernel)
  · exact unreturned_releaseHex bytes digits

theorem releaseTools_sign : SignsForTrusted releaseTools releaseKeys := by
  rintro keyMaterial _ bytes _ rfl
  refine ⟨releaseSignature bytes, decode_encode _,
    unreturned_releaseSignature bytes, ?_⟩
  simp [Launch.Verifier.TrustedKeys.verifies, releaseKeys, releaseLibraries,
    Except.isOk, Except.toBool]

/-- The preparation and the signing of the small release. -/
def smallRelease : WorkspaceTask Unit :=
  prepareAndSign releaseFormats (Launch.Verifier.sha256Hex releaseLibraries)
    smallRoot smallSemver

theorem smallRelease_succeeds :
    (smallRelease.run.execute (faultless smallRoot releaseMachinery)
      releaseFiles).1.isOk = true := by
  decide +kernel

theorem runs_smallRelease :
    ∃ after, Runs (answers smallRoot releaseTools) smallRelease.run
      releaseFiles.world (.ok ()) after := by
  have runs :=
    runs_faultless smallRoot releaseMachinery releaseMachinery_truthful
      smallRelease.run releaseFiles
  have succeeds := smallRelease_succeeds
  generalize smallRelease.run.execute (faultless smallRoot releaseMachinery)
    releaseFiles = ended at runs succeeds
  rcases ended with ⟨raised | _, after⟩
  · cases succeeds
  · exact ⟨_, runs⟩

end Luminosity.Tasks.Prerelease
