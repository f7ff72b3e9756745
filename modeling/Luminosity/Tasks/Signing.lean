import Luminosity.Tasks.Builds

/-!
# Signing a release

The signing task signs every staged binary, assembles the release manifest
from the recorded digests and the signatures it has just made, and signs the
manifest.  The secret key is kept in a private directory while it is used.
-/

namespace Luminosity.Tasks.Signing

open Luminosity.Foundation.TextSegments
open Luminosity.Foundation.EffectPrograms
open Luminosity.Foundation.Exceptions
open Luminosity.Foundation.Interruptions
open Luminosity.Foundation.JsonValues
open Luminosity.Host.Paths
open Luminosity.Tasks.Github
  (Failure Completed binDir binaryPath signaturePath manifest
    manifestSignature pathName strip removePrefix)
open Luminosity.Tasks.Workspace
open Luminosity.Tasks.VersionFiles
open Luminosity.Tasks.Builds

/-! ## The manifest -/

def manifestSchemaVersion : Int := 1

def launcherDescription : Text := "The luminosity launcher".toList

def secretKeyEnv : Text := "LUMINOSITY_RELEASE_SECRET_KEY".toList

/-- What the manifest says of a platform. -/
def platformFields (digest signature : Text) : Json :=
  .object
    [("sha256".toList, .string digest),
      ("signature".toList, .string signature)]

/-- The platforms of the digests, each with its signature. -/
def platformsOf (signatures : List (Text × Text)) :
    List (Text × Text) → Except Raised (List (Text × Json))
  | [] => return []
  | (platform, digest) :: later =>
      match signatures.lookup platform with
      | none => throw (.keyError platform)
      | some signature => do
          let platforms ← platformsOf signatures later
          return (platform, platformFields digest signature) :: platforms

/-- The manifest of one binary. -/
def manifestJson (version : Json) (platforms : List (Text × Json)) : Json :=
  .object
    [("schema_version".toList, .integer manifestSchemaVersion),
      ("version".toList, version),
      ("binaries".toList, .object
        [(launcherCrate, .object
          [("description".toList, .string launcherDescription),
            ("platforms".toList, .object platforms)])])]

/-- `build_manifest`. -/
def buildManifest (version : Json) (digests signatures : List (Text × Text)) :
    Except Raised Json := do
  let platforms ← platformsOf signatures digests
  return manifestJson version platforms

/-- The digests of the fields, without their algorithm. -/
def bareDigests : List (Text × Json) → Except Raised (List (Text × Text))
  | [] => return []
  | (platform, .string digest) :: later => do
      let digests ← bareDigests later
      return (platform, removePrefix "sha256:".toList digest) :: digests
  | _ :: _ => throw .attributeError

/-- `data.items()`. -/
def items : Json → Except Raised (List (Text × Json))
  | .object fields => .ok fields
  | _ => .error .attributeError

section Tasks

variable (formats : Formats) (repoRoot : Path)

/-- `json.loads(CHECKSUMS.read_text())` -/
def readChecksums : WorkspaceTask Json := do
  let text ← issue (.readText (checksums repoRoot))
  liftM (loads formats text)

/-- `_checksum_digests`. -/
def checksumDigests : WorkspaceTask (List (Text × Text)) := do
  let data ← readChecksums formats repoRoot
  let binaries ← liftM (getItem "binaries".toList data)
  let fields ← liftM (items binaries)
  liftM (bareDigests fields)

/-- The signatures of targets, by platform. -/
def signaturesOf : List (Text × Text) → WorkspaceTask (List (Text × Text))
  | [] => return []
  | target :: later => do
      let text ← issue (.readText (signaturePath repoRoot target.2))
      let signatures ← signaturesOf later
      return (target.2, text) :: signatures

/-- `_signatures`. -/
def signatures : WorkspaceTask (List (Text × Text)) :=
  signaturesOf repoRoot targets

/-- `write_manifest`. -/
def writeManifest : WorkspaceTask Unit := do
  let data ← readChecksums formats repoRoot
  let version ← liftM (getItem "version".toList data)
  let digests ← checksumDigests formats repoRoot
  let signatures ← signatures repoRoot
  let built ← liftM (buildManifest version digests signatures)
  let written ← liftM (dumps formats built)
  atomicWriteText (manifest repoRoot) (written ++ ['\n'])

/-! ## Signatures -/

/-- `minisign.sign`. -/
def minisignSign (secretKey target signature : Path) : WorkspaceTask Unit := do
  let result ←
    attempt (issue (.minisignSign secretKey signature target))
      fun raised =>
        match raised with
        | .external (.osError detail) | .external (.timeoutExpired detail) =>
            throw (.minisign
              ("minisign -S could not run for ".toList ++ pathName target ++
                ": ".toList ++ detail))
        | other => throw other
  if (result : Completed).returncode = 0 then
    pure ()
  else
    throw (.minisign
      ("minisign -S failed for ".toList ++ pathName target ++
        ": ".toList ++ strip (result : Completed).stderr))

/-- `sign_binaries`. -/
def signBinaries (secretKey : Path) : WorkspaceTask Unit :=
  forEach
    (fun target : Text × Text =>
      minisignSign secretKey (binaryPath repoRoot target.2)
        (signaturePath repoRoot target.2))
    targets

/-- What is signed while the secret key is there. -/
def signAll (directory : Path) (keyMaterial : Text) : WorkspaceTask Unit := do
  let secretKey := directory.join "release.key".toList
  issue (.writeText secretKey keyMaterial)
  issue (.chmod secretKey)
  signBinaries repoRoot secretKey
  writeManifest formats repoRoot
  minisignSign secretKey (manifest repoRoot) (manifestSignature repoRoot)

/-- `sign.sign`. -/
def sign : WorkspaceTask Unit := do
  let keyMaterial ← issue (.environ secretKeyEnv)
  match (keyMaterial : Option Text) with
  | none | some [] =>
      throw (.exit
        (secretKeyEnv ++ " is not set; cannot sign the release".toList) 1)
  | some material => do
      let directory ← issue .temporaryDirectory
      ensuring (signAll formats repoRoot directory material)
        (issue (.removeDirectory directory))

end Tasks

/-! ## Where things are -/

section Places

variable (repoRoot : Path)

theorem plain_signature
    {target : Text × Text} (member : target ∈ targets) :
    Plain ("luminosity-".toList ++ target.2 ++ ".minisig".toList) := by
  have plain :
      ∀ target ∈ targets,
        Plain ("luminosity-".toList ++ target.2 ++ ".minisig".toList) := by
    decide
  exact plain target member

theorem signaturePath_eq
    {target : Text × Text} (member : target ∈ targets) :
    signaturePath repoRoot target.2 =
      (binDir repoRoot).child
        ("luminosity-".toList ++ target.2 ++ ".minisig".toList) :=
  join_plain _ (plain_signature member)

theorem manifestSignature_eq :
    manifestSignature repoRoot =
      (binDir repoRoot).child "manifest.minisig".toList :=
  join_plain _ (by decide)

theorem manifest_staging :
    temporaryPath (manifest repoRoot) =
      (binDir repoRoot).child "manifest.json.tmp".toList := by
  rw [manifest_eq, temporaryPath_child]
  rfl

/-- The names which the signing task writes next to the binaries. -/
def writtenNames : List Text :=
  targets.map (fun target =>
      "luminosity-".toList ++ target.2 ++ ".minisig".toList) ++
    ["manifest.json".toList, "manifest.json.tmp".toList,
      "manifest.minisig".toList]

/-- The paths at which the signing task may leave something else. -/
def Written (path : Path) : Prop :=
  ∃ name ∈ writtenNames, path = (binDir repoRoot).child name

theorem written_signature
    {target : Text × Text} (member : target ∈ targets) :
    Written repoRoot (signaturePath repoRoot target.2) :=
  ⟨_, List.mem_append_left _ (List.mem_map_of_mem member),
    signaturePath_eq repoRoot member⟩

/-- The manifest and its staging file. -/
def WrittenAsManifest (path : Path) : Prop :=
  path = manifest repoRoot ∨ path = temporaryPath (manifest repoRoot)

theorem WrittenAsManifest.written
    {path : Path} (writes : WrittenAsManifest repoRoot path) :
    Written repoRoot path := by
  rcases writes with rfl | rfl
  · exact ⟨_, List.mem_append_right _ List.mem_cons_self,
      manifest_eq repoRoot⟩
  · exact ⟨_, List.mem_append_right _
        (List.mem_cons_of_mem _ List.mem_cons_self),
      manifest_staging repoRoot⟩

theorem written_manifestSignature :
    Written repoRoot (manifestSignature repoRoot) :=
  ⟨_, List.mem_append_right _
      (List.mem_cons_of_mem _ (List.mem_cons_of_mem _ List.mem_cons_self)),
    manifestSignature_eq repoRoot⟩

/-- The binaries and their checksums are not written. -/
theorem binary_not_written
    {target : Text × Text} (member : target ∈ targets) :
    ¬ Written repoRoot (binaryPath repoRoot target.2) := by
  rintro ⟨name, written, same⟩
  rw [binaryPath_eq repoRoot member] at same
  have distinct :
      ∀ target ∈ targets,
        "luminosity-".toList ++ target.2 ∉ writtenNames := by decide
  apply distinct target member
  rw [(child_injective same).2]
  exact written

theorem checksums_not_written : ¬ Written repoRoot (checksums repoRoot) := by
  rintro ⟨name, written, same⟩
  rw [checksums_eq] at same
  have absent : "checksums.json".toList ∉ writtenNames := by decide
  apply absent
  rw [(child_injective same).2]
  exact written

/-- The secret key is at no path which the task writes besides. -/
theorem secretKey_not_written (directory : Path) :
    ¬ Written repoRoot (directory.join "release.key".toList) := by
  rintro ⟨name, written, same⟩
  rw [join_plain _ (by decide)] at same
  have absent : "release.key".toList ∉ writtenNames := by decide
  apply absent
  rw [(child_injective same).2]
  exact written

/-- A signature is neither the manifest nor its staging file. -/
theorem signature_not_manifest
    {target : Text × Text} (member : target ∈ targets) :
    ¬ WrittenAsManifest repoRoot (signaturePath repoRoot target.2) := by
  have distinct :
      ∀ target ∈ targets,
        "luminosity-".toList ++ target.2 ++ ".minisig".toList ≠
            "manifest.json".toList ∧
          "luminosity-".toList ++ target.2 ++ ".minisig".toList ≠
            "manifest.json.tmp".toList := by decide
  rintro (same | same)
  · rw [signaturePath_eq repoRoot member, manifest_eq] at same
    exact (distinct target member).1 (child_injective same).2
  · rw [signaturePath_eq repoRoot member, manifest_staging] at same
    exact (distinct target member).2 (child_injective same).2

theorem signature_ne_manifestSignature
    {target : Text × Text} (member : target ∈ targets) :
    signaturePath repoRoot target.2 ≠ manifestSignature repoRoot := by
  have distinct :
      ∀ target ∈ targets,
        "luminosity-".toList ++ target.2 ++ ".minisig".toList ≠
          "manifest.minisig".toList := by decide
  rw [signaturePath_eq repoRoot member, manifestSignature_eq]
  intro same
  exact distinct target member (child_injective same).2

theorem manifest_ne_signature :
    manifest repoRoot ≠ manifestSignature repoRoot := by
  rw [manifest_eq, manifestSignature_eq]
  intro same
  exact absurd (child_injective same).2 (by decide)

theorem manifest_ne_staging :
    temporaryPath (manifest repoRoot) ≠ manifest repoRoot := by
  rw [manifest_staging, manifest_eq]
  intro same
  exact absurd (child_injective same).2 (by decide)

/-- The paths next to the manifests which no temporary directory has. -/
def Lasting (path : Path) : Prop :=
  ∃ name, ¬ "tmp".toList <+: name ∧ path = (binDir repoRoot).child name

theorem lasting_of_target
    {target : Text × Text} (member : target ∈ targets) :
    Lasting repoRoot (binaryPath repoRoot target.2) ∧
      Lasting repoRoot (signaturePath repoRoot target.2) := by
  have named :
      ∀ target ∈ targets,
        ¬ "tmp".toList <+: "luminosity-".toList ++ target.2 ∧
          ¬ "tmp".toList <+:
            "luminosity-".toList ++ target.2 ++ ".minisig".toList := by
    decide
  exact ⟨⟨_, (named target member).1, binaryPath_eq repoRoot member⟩,
    ⟨_, (named target member).2, signaturePath_eq repoRoot member⟩⟩

theorem lasting_checksums : Lasting repoRoot (checksums repoRoot) :=
  ⟨_, by decide, checksums_eq repoRoot⟩

theorem lasting_manifest :
    Lasting repoRoot (manifest repoRoot) ∧
      Lasting repoRoot (manifestSignature repoRoot) :=
  ⟨⟨_, by decide, manifest_eq repoRoot⟩,
    ⟨_, by decide, manifestSignature_eq repoRoot⟩⟩

/-- A fresh temporary directory has none of the lasting paths. -/
theorem lasting_outside
    {world : World} {directory base path : Path} {name : Text}
    (fresh : ∀ path, path.startsWith directory = true → world path = none)
    (named : directory = base.child ("tmp".toList ++ name))
    {present : Text}
    (occupied : world ((binDir repoRoot).child present) ≠ none)
    (lasting : Lasting repoRoot path) :
    ¬ path.startsWith directory = true := by
  rcases lasting with ⟨own, lasts, rfl⟩
  intro inside
  rcases startsWith_child inside with above | same
  · exact occupied (fresh _ (child_startsWith above present))
  · rw [named] at same
    apply lasts
    rw [← (child_injective same).2]
    exact List.prefix_append _ _

theorem signature_injective
    {target other : Text × Text} (member : target ∈ targets)
    (otherMember : other ∈ targets)
    (same :
      signaturePath repoRoot target.2 = signaturePath repoRoot other.2) :
    target.2 = other.2 := by
  rw [signaturePath_eq repoRoot member,
    signaturePath_eq repoRoot otherMember] at same
  exact List.append_cancel_left
    (List.append_cancel_right (child_injective same).2)

end Places

/-! ## What the task touches -/

section Frames

variable {formats : Formats} {repoRoot : Path} {tools : Tools}
variable {paths : Path → Prop}

theorem touches_chmod (path : Path) :
    Touches repoRoot tools paths (.chmod path) := by
  rintro before answer _ rfl
  exact SameOff.refl paths _

theorem touches_minisignSign {signature : Path} (touched : paths signature)
    (secretKey target : Path) :
    Touches repoRoot tools paths
      (.minisignSign secretKey signature target) := by
  rintro before answer _ ⟨left, rfl, _⟩
  apply (sameOff_update before signature left).widen
  rintro other rfl
  exact touched

theorem asks_readChecksums :
    Asks (Touches repoRoot tools paths)
      (readChecksums formats repoRoot).run := by
  apply Asks.run_bind (asks_issue.mpr (touches_readText _))
  intro text
  exact asks_run_except _

theorem asks_checksumDigests :
    Asks (Touches repoRoot tools paths)
      (checksumDigests formats repoRoot).run := by
  apply Asks.run_bind asks_readChecksums
  intro data
  apply Asks.run_bind (asks_run_except _)
  intro binaries
  apply Asks.run_bind (asks_run_except _)
  intro fields
  exact asks_run_except _

theorem asks_signaturesOf (list : List (Text × Text)) :
    Asks (Touches repoRoot tools paths) (signaturesOf repoRoot list).run := by
  induction list with
  | nil => trivial
  | cons target later induction =>
      apply Asks.run_bind (asks_issue.mpr (touches_readText _))
      intro text
      apply Asks.run_bind induction
      intro signatures
      trivial

theorem asks_writeManifest :
    Asks (Touches repoRoot tools (WrittenAsManifest repoRoot))
      (writeManifest formats repoRoot).run := by
  apply Asks.run_bind asks_readChecksums
  intro data
  apply Asks.run_bind (asks_run_except _)
  intro version
  apply Asks.run_bind asks_checksumDigests
  intro digests
  apply Asks.run_bind (asks_signaturesOf targets)
  intro signatures
  apply Asks.run_bind (asks_run_except _)
  intro built
  apply Asks.run_bind (asks_run_except _)
  intro written
  exact asks_atomicWriteText (Or.inr rfl) (Or.inl rfl) _

theorem asks_minisignSign
    {signature : Path} (touched : paths signature)
    (secretKey target : Path) :
    Asks (Touches repoRoot tools paths)
      (minisignSign secretKey target signature).run := by
  have signs :
      Asks (Touches repoRoot tools paths)
        (issue (.minisignSign secretKey signature target)).run :=
    asks_issue.mpr (touches_minisignSign touched secretKey target)
  apply Asks.run_bind
  · apply Asks.attempt signs
    intro raised
    split <;> trivial
  · intro result
    split_ifs <;> trivial

/-- The loop over targets writes their signatures. -/
theorem asks_signTargets
    (secretKey : Path) {list : List (Text × Text)}
    (known : ∀ target ∈ list, target ∈ targets) :
    Asks (Touches repoRoot tools (Written repoRoot))
      (forEach
        (fun target : Text × Text =>
          minisignSign secretKey (binaryPath repoRoot target.2)
            (signaturePath repoRoot target.2))
        list).run := by
  induction list with
  | nil => trivial
  | cons target later induction =>
      apply Asks.run_bind
        (asks_minisignSign
          (written_signature repoRoot (known target List.mem_cons_self)) _ _)
      intro _
      exact induction fun other member =>
        known other (List.mem_cons_of_mem _ member)

/-- The paths the task writes while the secret key is there. -/
def WrittenWith (repoRoot secretKey path : Path) : Prop :=
  Written repoRoot path ∨ path = secretKey

theorem binary_not_writtenWith
    (repoRoot directory : Path) {target : Text × Text}
    (member : target ∈ targets) :
    ¬ WrittenWith repoRoot (directory.join "release.key".toList)
      (binaryPath repoRoot target.2) := by
  have distinct :
      ∀ target ∈ targets,
        "luminosity-".toList ++ target.2 ≠ "release.key".toList := by decide
  rintro (writes | same)
  · exact binary_not_written repoRoot member writes
  · rw [binaryPath_eq repoRoot member, join_plain _ (by decide)] at same
    exact distinct target member (child_injective same).2

theorem asks_signAll (directory : Path) (keyMaterial : Text) :
    Asks
      (Touches repoRoot tools
        (WrittenWith repoRoot (directory.join "release.key".toList)))
      (signAll formats repoRoot directory keyMaterial).run := by
  have wider (call : Call)
      (touches : Touches repoRoot tools (Written repoRoot) call) :
      Touches repoRoot tools
        (WrittenWith repoRoot (directory.join "release.key".toList)) call := by
    intro before answer after step
    exact (touches before answer after step).widen fun _ => Or.inl
  apply Asks.run_bind (asks_issue.mpr (touches_writeText (Or.inr rfl) _))
  intro _
  apply Asks.run_bind (asks_issue.mpr (touches_chmod _))
  intro _
  apply Asks.run_bind ((asks_signTargets _ fun _ => id).mono wider)
  intro _
  apply Asks.run_bind
  · apply asks_writeManifest.mono
    intro call touches before answer after step
    exact (touches before answer after step).widen
      fun _ writes => Or.inl (writes.written repoRoot)
  intro _
  exact (asks_minisignSign (written_manifestSignature repoRoot) _ _).mono
    wider

end Frames

/-! ## What the task makes -/

section Making

variable {formats : Formats} {repoRoot : Path} {tools : Tools}
variable {before : World}

/-- The signature is there, and made with the key for the file. -/
def SignedBy (tools : Tools) (key : Bytes) (target signature : Path)
    (world : World) : Prop :=
  ∃ bytes signed, world target = some bytes ∧
    world signature = some signed ∧ tools.signs key bytes signed

theorem SignedBy.congr
    {key : Bytes} {target signature : Path} {after : World}
    (signed : SignedBy tools key target signature before)
    (sameTarget : after target = before target)
    (sameSignature : after signature = before signature) :
    SignedBy tools key target signature after := by
  rcases signed with ⟨bytes, made, present, found, signs⟩
  exact ⟨bytes, made, sameTarget.trans present, sameSignature.trans found,
    signs⟩

theorem ensures_minisignSign
    {secretKey target signature : Path} {key : Bytes}
    (present : before secretKey = some key) (apart : target ≠ signature) :
    Ensures (answers repoRoot tools)
      (minisignSign secretKey target signature).run
      (WhenOk fun _ after => SameOff (· = signature) before after ∧
        SignedBy tools key target signature after)
      before := by
  have signs :
      Ensures (answers repoRoot tools)
        (issue (.minisignSign secretKey signature target)).run
        (WhenOk fun finished after =>
          SameOff (· = signature) before after ∧
            ((finished : Completed).returncode = 0 →
              SignedBy tools key target signature after))
        before := by
    rw [ensures_issue]
    rintro answer _ ⟨left, rfl, made⟩
    cases answer with
    | error failure => trivial
    | ok finished =>
        refine ⟨sameOff_update before signature left, ?_⟩
        intro success
        rcases made finished rfl success with
          ⟨used, bytes, signed, keyPresent, found, rfl, signs⟩
        rw [present] at keyPresent
        cases keyPresent
        refine ⟨bytes, signed, ?_, Function.update_self .., signs⟩
        rw [Function.update_of_ne apart, found]
  rw [minisignSign]
  apply Ensures.succeeds (Ensures.attempt signs ?_)
  · rintro finished after ⟨same, made⟩
    split_ifs with success
    · exact ⟨same, made success⟩
    · trivial
  · intro raised
    split <;> exact ⟨_, rfl⟩

/-- The loop signs each of the targets. -/
theorem ensures_signTargets
    {secretKey : Path} {key : Bytes} {done list : List (Text × Text)}
    (present : before secretKey = some key)
    (hidden : ¬ Written repoRoot secretKey)
    (known : ∀ target ∈ done ++ list, target ∈ targets)
    (nodup : ((done ++ list).map Prod.snd).Nodup)
    (signed : ∀ target ∈ done,
      SignedBy tools key (binaryPath repoRoot target.2)
        (signaturePath repoRoot target.2) before) :
    Ensures (answers repoRoot tools)
      (forEach
        (fun target : Text × Text =>
          minisignSign secretKey (binaryPath repoRoot target.2)
            (signaturePath repoRoot target.2))
        list).run
      (WhenOk fun _ after => ∀ target ∈ done ++ list,
        SignedBy tools key (binaryPath repoRoot target.2)
          (signaturePath repoRoot target.2) after)
      before := by
  induction list generalizing done before with
  | nil =>
      rw [List.append_nil]
      exact signed
  | cons target later induction =>
      have member : target ∈ targets := known target (by simp)
      have fresh : target.2 ∉ done.map Prod.snd := by
        rw [List.map_append, List.map_cons] at nodup
        intro earlier
        exact List.disjoint_of_nodup_append nodup earlier
          List.mem_cons_self
      have regrouped :
          done ++ target :: later = (done ++ [target]) ++ later := by simp
      have apart (path : Path) (unwritten : ¬ Written repoRoot path) :
          path ≠ signaturePath repoRoot target.2 := by
        rintro rfl
        exact unwritten (written_signature repoRoot member)
      apply Ensures.succeeds (ensures_minisignSign present
        (apart _ (binary_not_written repoRoot member)))
      rintro _ after ⟨same, made⟩
      rw [regrouped] at known nodup ⊢
      apply induction ((same _ (apart _ hidden)).trans present) known nodup
      intro other earlier
      rcases List.mem_append.mp earlier with old | last
      · have otherMember : other ∈ targets := known other (by simp [old])
        apply (signed other old).congr
        · exact same _ (apart _ (binary_not_written repoRoot otherMember))
        · apply same
          intro equal
          apply fresh
          rw [← signature_injective repoRoot otherMember member equal]
          exact List.mem_map_of_mem old
      · rw [List.mem_singleton.mp last]
        exact made

/-! ### The manifest -/

/-- The JSON value of the checksums file. -/
def Records (formats : Formats) (repoRoot : Path) (world : World)
    (data : Json) : Prop :=
  ∃ source, Reads world (checksums repoRoot) source ∧
    formats.json.loads source = .ok data

theorem Records.unique
    {data other : Json} (records : Records formats repoRoot before data)
    (again : Records formats repoRoot before other) :
    data = other := by
  rcases records with ⟨source, reads, loaded⟩
  rcases again with ⟨otherSource, otherReads, otherLoaded⟩
  rw [reads.unique otherReads, otherLoaded] at loaded
  exact (Except.ok.inj loaded).symm

theorem Records.congr
    {data : Json} {after : World}
    (records : Records formats repoRoot before data)
    (same : after (checksums repoRoot) = before (checksums repoRoot)) :
    Records formats repoRoot after data := by
  rcases records with ⟨source, reads, loaded⟩
  exact ⟨source, reads.congr same, loaded⟩

theorem ensures_readChecksums :
    Ensures (answers repoRoot tools) (readChecksums formats repoRoot).run
      (WhenOk fun data after =>
        after = before ∧ Records formats repoRoot before data)
      before := by
  rw [readChecksums, ensures_run_bind, ensures_issue]
  rintro answer _ ⟨rfl, reads⟩
  cases answer with
  | error failure => trivial
  | ok source =>
      rw [onOk_ok, onOk_ok, ensures_run_except]
      cases loaded : loads formats source with
      | error raised => trivial
      | ok data => exact ⟨rfl, source, reads source rfl, loads_ok.mp loaded⟩

/-- The digests which the value of the checksums has. -/
def HasDigests (data : Json) (digests : List (Text × Text)) : Prop :=
  ∃ fields, getItem "binaries".toList data = .ok (.object fields) ∧
    bareDigests fields = .ok digests

theorem ensures_checksumDigests :
    Ensures (answers repoRoot tools) (checksumDigests formats repoRoot).run
      (WhenOk fun digests after => after = before ∧
        ∃ data, Records formats repoRoot before data ∧
          HasDigests data digests)
      before := by
  rw [checksumDigests]
  apply Ensures.succeeds ensures_readChecksums
  rintro data _ ⟨rfl, records⟩
  rw [ensures_run_bind, ensures_run_except]
  cases found : getItem "binaries".toList data with
  | error raised => trivial
  | ok binaries =>
      rw [onOk_ok, ensures_run_bind, ensures_run_except]
      cases binaries with
      | object fields =>
          change Ensures _ (ExceptT.run (liftM (bareDigests fields))) _ _
          rw [ensures_run_except]
          cases bare : bareDigests fields with
          | error raised => trivial
          | ok digests => exact ⟨rfl, data, records, fields, found, bare⟩
      | _ => trivial

/-- The signatures of targets, as they are read. -/
def ReadsSignatures (repoRoot : Path) (world : World)
    (list signatures : List (Text × Text)) : Prop :=
  ∀ target ∈ list, ∃ text, signatures.lookup target.2 = some text ∧
    Reads world (signaturePath repoRoot target.2) text

theorem ensures_signaturesOf (list : List (Text × Text)) :
    Ensures (answers repoRoot tools) (signaturesOf repoRoot list).run
      (WhenOk fun signatures after => after = before ∧
        ReadsSignatures repoRoot before list signatures)
      before := by
  induction list with
  | nil => exact ⟨rfl, fun _ member => nomatch member⟩
  | cons target later induction =>
      rw [signaturesOf, ensures_run_bind, ensures_issue]
      rintro answer _ ⟨rfl, reads⟩
      cases answer with
      | error failure => trivial
      | ok text =>
          rw [onOk_ok, onOk_ok]
          apply Ensures.succeeds induction
          rintro signatures _ ⟨rfl, others⟩
          refine ⟨rfl, ?_⟩
          intro other member
          by_cases same : other.2 = target.2
          · rw [same]
            exact ⟨text, by simp, reads text rfl⟩
          · rcases List.mem_cons.mp member with rfl | earlier
            · exact absurd rfl same
            · rcases others other earlier with ⟨held, found, readsOther⟩
              refine ⟨held, ?_, readsOther⟩
              rw [List.lookup_cons, beq_false_of_ne same]
              exact found

/-- The manifest is the one of the checksums and the signatures. -/
def Manifested (formats : Formats) (repoRoot : Path) (world : World) :
    Prop :=
  ∃ data version digests signatures platforms written,
    Records formats repoRoot world data ∧
      getItem "version".toList data = .ok version ∧
        HasDigests data digests ∧
          ReadsSignatures repoRoot world targets signatures ∧
            platformsOf signatures digests = .ok platforms ∧
              formats.json.dumps (manifestJson version platforms) =
                  .ok written ∧
                world (manifest repoRoot) =
                  some (encode (written ++ ['\n']))

/-- The manifest stays what it is while its parts stay. -/
theorem Manifested.congr
    {after : World} (manifested : Manifested formats repoRoot before)
    (sameChecksums :
      after (checksums repoRoot) = before (checksums repoRoot))
    (sameSignatures : ∀ target ∈ targets,
      after (signaturePath repoRoot target.2) =
        before (signaturePath repoRoot target.2))
    (sameManifest :
      after (manifest repoRoot) = before (manifest repoRoot)) :
    Manifested formats repoRoot after := by
  rcases manifested with ⟨data, version, digests, signatures, platforms,
    written, records, found, has, reads, rest, dumped, present⟩
  refine ⟨data, version, digests, signatures, platforms, written,
    records.congr sameChecksums, found, has, ?_, rest, dumped,
    sameManifest.trans present⟩
  intro target member
  rcases reads target member with ⟨text, held, readsText⟩
  exact ⟨text, held, readsText.congr (sameSignatures target member)⟩

/-- The manifest which is rewritten is the one of its parts. -/
theorem Manifested.written
    {data version : Json} {digests signatures : List (Text × Text)}
    {platforms : List (Text × Json)} {written : Text} {after : World}
    (records : Records formats repoRoot before data)
    (found : getItem "version".toList data = .ok version)
    (has : HasDigests data digests)
    (reads : ReadsSignatures repoRoot before targets signatures)
    (assembled : platformsOf signatures digests = .ok platforms)
    (dumped :
      formats.json.dumps (manifestJson version platforms) = .ok written)
    (same : SameOff (· = temporaryPath (manifest repoRoot))
      (Function.update before (manifest repoRoot)
        (some (encode (written ++ ['\n'])))) after) :
    Manifested formats repoRoot after := by
  have kept (path : Path) (off : ¬ WrittenAsManifest repoRoot path) :
      after path = before path := by
    rw [same path fun staging => off (Or.inr staging),
      Function.update_of_ne fun manifest => off (Or.inl manifest)]
  refine ⟨data, version, digests, signatures, platforms, written,
    records.congr (kept _ ?_), found, has, ?_, assembled, dumped, ?_⟩
  · intro writes
    exact checksums_not_written repoRoot (writes.written repoRoot)
  · intro target member
    rcases reads target member with ⟨text, held, readsText⟩
    exact ⟨text, held,
      readsText.congr (kept _ (signature_not_manifest repoRoot member))⟩
  · rw [same _ (manifest_ne_staging repoRoot).symm, Function.update_self]

theorem ensures_writeManifest :
    Ensures (answers repoRoot tools) (writeManifest formats repoRoot).run
      (WhenOk fun _ after => Manifested formats repoRoot after) before := by
  rw [writeManifest]
  apply Ensures.succeeds ensures_readChecksums
  rintro data _ ⟨rfl, records⟩
  rw [ensures_run_bind, ensures_run_except]
  cases found : getItem "version".toList data with
  | error raised => trivial
  | ok version =>
      rw [onOk_ok]
      apply Ensures.succeeds ensures_checksumDigests
      rintro digests _ ⟨rfl, other, again, has⟩
      rw [again.unique records] at has
      apply Ensures.succeeds (ensures_signaturesOf targets)
      rintro signatures before ⟨rfl, reads⟩
      rw [ensures_run_bind, ensures_run_except]
      cases assembled : platformsOf signatures digests with
      | error raised =>
          rw [buildManifest, assembled]
          trivial
      | ok platforms =>
          have built :
              buildManifest version digests signatures =
                .ok (manifestJson version platforms) := by
            rw [buildManifest, assembled]
            rfl
          rw [built, onOk_ok, ensures_run_bind, ensures_run_except]
          cases dumped : dumps formats (manifestJson version platforms) with
          | error raised => trivial
          | ok written =>
              rw [onOk_ok]
              apply (ensures_atomicWriteText (manifest_ne_staging repoRoot)
                (written ++ ['\n'])).mono
              intro result after same
              cases result with
              | error raised => trivial
              | ok _ =>
                  apply Manifested.written records found has reads
                    assembled (dumps_ok.mp dumped)
                  exact same

/-! ### The signatures -/

/-- The binaries and the manifest are signed with the key. -/
structure Signed (formats : Formats) (repoRoot : Path) (tools : Tools)
    (key : Bytes) (world : World) : Prop where
  binaries : ∀ target ∈ targets,
    SignedBy tools key (binaryPath repoRoot target.2)
      (signaturePath repoRoot target.2) world
  manifested : Manifested formats repoRoot world
  manifest : SignedBy tools key (manifest repoRoot)
    (manifestSignature repoRoot) world

/-- What is signed stays so while the lasting paths stay. -/
theorem Signed.congr
    {key : Bytes} {after : World}
    (signed : Signed formats repoRoot tools key before)
    (kept : ∀ path, Lasting repoRoot path → after path = before path) :
    Signed formats repoRoot tools key after where
  binaries target member :=
    (signed.binaries target member).congr
      (kept _ (lasting_of_target repoRoot member).1)
      (kept _ (lasting_of_target repoRoot member).2)
  manifested :=
    signed.manifested.congr (kept _ (lasting_checksums repoRoot))
      (fun _ member => kept _ (lasting_of_target repoRoot member).2)
      (kept _ (lasting_manifest repoRoot).1)
  manifest :=
    signed.manifest.congr (kept _ (lasting_manifest repoRoot).1)
      (kept _ (lasting_manifest repoRoot).2)

/-- Once its key is placed, everything is signed with it. -/
theorem ensures_signWith
    {secretKey : Path} {key : Bytes}
    (hidden : ¬ Written repoRoot secretKey)
    (placed : before secretKey = some key) :
    Ensures (answers repoRoot tools)
      (do
        signBinaries repoRoot secretKey
        writeManifest formats repoRoot
        minisignSign secretKey (manifest repoRoot)
          (manifestSignature repoRoot) : WorkspaceTask Unit).run
      (WhenOk fun _ after => Signed formats repoRoot tools key after)
      before := by
  have signing :
      Ensures (answers repoRoot tools) (signBinaries repoRoot secretKey).run
        (WhenOk fun _ after => ∀ target ∈ targets,
          SignedBy tools key (binaryPath repoRoot target.2)
            (signaturePath repoRoot target.2) after)
        before :=
    @ensures_signTargets _ _ _ _ _ [] targets placed hidden (fun _ => id)
      (by decide) fun _ member => nomatch member
  have signingFrame :
      Ensures (answers repoRoot tools) (signBinaries repoRoot secretKey).run
        (fun _ after => SameOff (Written repoRoot) before after) before :=
    (sustains_touching (asks_signTargets _ fun _ => id)).ensures
  rw [ensures_run_bind]
  apply (signing.and signingFrame).mono
  rintro result staged ⟨binaries, sameStaged⟩
  cases result with
  | error raised => trivial
  | ok _ =>
      have writingFrame :
          Ensures (answers repoRoot tools)
            (writeManifest formats repoRoot).run
            (fun _ after => SameOff (WrittenAsManifest repoRoot) staged after)
            staged :=
        (sustains_touching asks_writeManifest).ensures
      rw [onOk_ok, ensures_run_bind]
      apply (ensures_writeManifest.and writingFrame).mono
      rintro result assembled ⟨manifested, sameAssembled⟩
      cases result with
      | error raised => trivial
      | ok _ =>
          have kept (path : Path) (off : ¬ Written repoRoot path) :
              assembled path = before path := by
            rw [sameAssembled path fun writes =>
              off (writes.written repoRoot), sameStaged path off]
          rw [onOk_ok]
          apply (ensures_minisignSign ((kept _ hidden).trans placed)
            (manifest_ne_signature repoRoot)).mono
          intro result after holds
          cases result with
          | error raised => trivial
          | ok _ =>
              rcases holds with ⟨same, signature⟩
              have apart (path : Path) (off : ¬ Written repoRoot path) :
                  after path = assembled path := by
                apply same path
                rintro rfl
                exact off (written_manifestSignature repoRoot)
              constructor
              · intro target member
                have stays := same _
                  (signature_ne_manifestSignature repoRoot member)
                apply (binaries target member).congr
                · rw [apart _ (binary_not_written repoRoot member),
                    sameAssembled _ fun writes =>
                      binary_not_written repoRoot member
                        (writes.written repoRoot)]
                · rw [stays, sameAssembled _
                    (signature_not_manifest repoRoot member)]
              · exact manifested.congr
                  (apart _ (checksums_not_written repoRoot))
                  (fun target member => same _
                    (signature_ne_manifestSignature repoRoot member))
                  (same _ (manifest_ne_signature repoRoot))
              · exact signature

/-- Everything is signed with the key which is placed for it. -/
theorem ensures_signAll (directory : Path) (keyMaterial : Text) :
    Ensures (answers repoRoot tools)
      (signAll formats repoRoot directory keyMaterial).run
      (WhenOk fun _ after =>
        Signed formats repoRoot tools (encode keyMaterial) after)
      before := by
  have hidden := secretKey_not_written repoRoot directory
  rw [signAll, ensures_run_bind, ensures_issue]
  rintro answer _ ⟨left, rfl, complete⟩
  cases answer with
  | error failure => trivial
  | ok _ =>
      rw [onOk_ok, onOk_ok, ensures_run_bind, ensures_issue]
      intro answer before step
      have placed :
          before (directory.join "release.key".toList) =
            some (encode keyMaterial) := by
        change before = _ at step
        rw [step, Function.update_self, complete rfl]
      cases answer with
      | error failure => trivial
      | ok _ => exact ensures_signWith hidden placed

/-! ### The task -/

/-- No file is below the directory. -/
def Fresh (world : World) (directory : Path) : Prop :=
  ∀ path, path.startsWith directory = true → world path = none

/-- The key is in the directory it is placed in. -/
theorem secretKey_inside (directory : Path) :
    (directory.join "release.key".toList).startsWith directory = true := by
  rw [join_plain _ (by decide)]
  apply child_startsWith
  simp [Path.startsWith]

/-- What is removed with a fresh directory was not there before. -/
theorem sameOff_removal
    {directory : Path} {paths : Path → Prop} {middle after : World}
    (fresh : Fresh before directory) (same : SameOff paths before middle)
    (removal : ∀ path, after path = middle path ∨
      path.startsWith directory = true ∧ after path = none) :
    SameOff paths before after := by
  intro path off
  rcases removal path with kept | ⟨inside, removed⟩
  · rw [kept, same path off]
  · rw [removed, fresh path inside]

/-- Once the directory is removed, the key leaves no trace. -/
theorem sameOff_removed
    {directory : Path} {middle after : World}
    (fresh : Fresh before directory)
    (same : SameOff
      (WrittenWith repoRoot (directory.join "release.key".toList))
      before middle)
    (removal : ∀ path, after path = middle path ∨
      path.startsWith directory = true ∧ after path = none)
    (removed : ∀ path, path.startsWith directory = true →
      after path = none) :
    SameOff (Written repoRoot) before after := by
  intro path off
  by_cases inside : path.startsWith directory = true
  · rw [removed path inside, fresh path inside]
  · apply sameOff_removal fresh same removal
    rintro (writes | rfl)
    · exact off writes
    · exact inside (secretKey_inside directory)

/-- What is signed outlasts the removal of the directory of the key. -/
theorem Signed.removed
    {key : Bytes} {directory base : Path} {name : Text} {after middle : World}
    (signed : Signed formats repoRoot tools key middle)
    (fresh : Fresh before directory)
    (named : directory = base.child ("tmp".toList ++ name))
    (same : SameOff
      (WrittenWith repoRoot (directory.join "release.key".toList))
      before middle)
    (removal : ∀ path, after path = middle path ∨
      path.startsWith directory = true ∧ after path = none) :
    Signed formats repoRoot tools key after := by
  rcases List.exists_mem_of_ne_nil targets (by decide) with ⟨target, member⟩
  have present :
      before ((binDir repoRoot).child ("luminosity-".toList ++ target.2)) ≠
        none := by
    rcases signed.binaries target member with ⟨bytes, _, found, _⟩
    rw [same _ (binary_not_writtenWith repoRoot directory member)] at found
    rw [← binaryPath_eq repoRoot member, found]
    exact Option.some_ne_none bytes
  apply signed.congr
  intro path lasting
  rcases removal path with kept | ⟨inside, _⟩
  · exact kept
  · exact absurd inside
      (lasting_outside repoRoot fresh named present lasting)

/-- The secret key is in a private directory, and nowhere else. -/
def KeyConfined (repoRoot : Path) (before seen : World) : Prop :=
  SameOff (Written repoRoot) before seen ∨
    ∃ directory, Fresh before directory ∧
      SameOff (WrittenWith repoRoot (directory.join "release.key".toList))
        before seen

/-- What is signed once the task has ended well. -/
def SignedWithRelease (formats : Formats) (repoRoot : Path) (tools : Tools)
    (world : World) : Prop :=
  ∃ keyMaterial, tools.environment secretKeyEnv (some keyMaterial) ∧
    Signed formats repoRoot tools (encode keyMaterial) world

/-- What holds at every moment while the secret key is there. -/
theorem sustains_signAll
    {directory : Path} (fresh : Fresh before directory)
    (keyMaterial : Text) :
    Sustains (answers repoRoot tools) (KeyConfined repoRoot before)
      (signAll formats repoRoot directory keyMaterial).run
      (fun result after =>
        SameOff (WrittenWith repoRoot (directory.join "release.key".toList))
            before after ∧
          WhenOk (fun _ after =>
            Signed formats repoRoot tools (encode keyMaterial) after)
            result after)
      before := by
  have touching :
      Sustains (answers repoRoot tools)
        (SameOff (WrittenWith repoRoot
          (directory.join "release.key".toList)) before)
        (signAll formats repoRoot directory keyMaterial).run
        (fun _ after =>
          SameOff (WrittenWith repoRoot
            (directory.join "release.key".toList)) before after)
        before :=
    sustains_touching (asks_signAll directory keyMaterial)
  apply (sustains_iff _ _ _).mpr
  constructor
  · intro seen visits
    exact Or.inr ⟨directory, fresh, touching.visited visits⟩
  · exact touching.ensures.and (ensures_signAll directory keyMaterial)

/-- What holds while the task runs, and how it ends. -/
theorem sustains_sign :
    Sustains (answers repoRoot tools) (KeyConfined repoRoot before)
      (sign formats repoRoot).run
      (fun result after =>
        ((∃ failure, result = .error (.external failure)) ∨
            SameOff (Written repoRoot) before after) ∧
          (result = .ok () →
            SignedWithRelease formats repoRoot tools after))
      before := by
  have unchanged : SameOff (Written repoRoot) before before :=
    SameOff.refl _ before
  rw [sign, sustains_run_bind, sustains_issue]
  refine ⟨Or.inl unchanged, ?_⟩
  rintro answer before ⟨rfl, environment⟩
  refine ⟨Or.inl unchanged, ?_⟩
  cases answer with
  | error failure =>
      exact ⟨Or.inl ⟨failure, rfl⟩, fun impossible => nomatch impossible⟩
  | ok keyMaterial =>
      have held := environment keyMaterial rfl
      rcases keyMaterial with _ | _ | ⟨first, rest⟩
      · exact ⟨Or.inl unchanged, Or.inr unchanged,
          fun impossible => nomatch impossible⟩
      · exact ⟨Or.inl unchanged, Or.inr unchanged,
          fun impossible => nomatch impossible⟩
      · rw [onOk_ok, onOk_ok, sustains_run_bind, sustains_issue]
        refine ⟨Or.inl unchanged, ?_⟩
        rintro answer before ⟨rfl, temporary⟩
        refine ⟨Or.inl unchanged, ?_⟩
        cases answer with
        | error failure =>
            exact ⟨Or.inl ⟨failure, rfl⟩,
              fun impossible => nomatch impossible⟩
        | ok directory =>
            rcases temporary directory rfl with ⟨fresh, base, name, named⟩
            rw [onOk_ok, onOk_ok, sustains_ensuring]
            apply (sustains_signAll fresh (first :: rest)).mono
            rintro result middle confined ⟨same, signed⟩
            rw [sustains_issue]
            refine ⟨confined, ?_⟩
            rintro ended after ⟨removal, removed⟩
            refine ⟨Or.inr ⟨directory, fresh,
              sameOff_removal fresh same removal⟩, ?_⟩
            cases ended with
            | error failure =>
                exact ⟨Or.inl ⟨failure, rfl⟩,
                  fun impossible => nomatch impossible⟩
            | ok _ =>
                refine ⟨Or.inr (sameOff_removed fresh same removal
                  (removed rfl)), ?_⟩
                rintro rfl
                exact ⟨first :: rest, held,
                  Signed.removed signed fresh named same removal⟩

end Making

end Luminosity.Tasks.Signing
