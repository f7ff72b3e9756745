import Luminosity.Foundation.Exceptions
import Luminosity.Host.Paths

/-!
# The release tasks

The last task of a publish uploads the artefacts to a draft release, downloads
them again, verifies what came back, and only then makes the release public.
A verification which fails leaves the draft for triage; any other failure
deletes it, with its tag.

Every step is an operation of the environment which may fail in any way, so
the task is a program, in the order of the source.
-/

namespace Luminosity.Tasks.Github

open Luminosity.Foundation.TextSegments
open Luminosity.Foundation.EffectPrograms
open Luminosity.Foundation.Exceptions
open Luminosity.Host.Paths

/-! ## Operations -/

/-- What an operation of the environment raises. -/
inductive Failure
  | timeoutExpired (detail : Text)
  | osError (detail : Text)
  /-- Any other exception, such as the one of a command which exits badly. -/
  | exception (detail : Text)
  /-- What is no `Exception`, such as an interrupt. -/
  | interrupt
deriving DecidableEq, Repr

/-- What a task raises. -/
inductive Raised
  | assetVerification (message : Text)
  | minisign (message : Text)
  | fileNotFound (missing : List Path)
  | keyError (key : Text)
  | external (failure : Failure)
deriving DecidableEq

/-- What `except Exception` catches. -/
def Raised.isException : Raised → Bool
  | .external .interrupt => false
  | _ => true

/-- The end of a subprocess. -/
structure Completed where
  returncode : Int
  stderr : Text
deriving DecidableEq, Repr

/-- The commands run through the context. -/
inductive Command
  /-- `gh release upload {tag} {path}` -/
  | upload (tag : Text) (path : Path)
  /-- `gh release edit {tag} --draft=false` -/
  | undraft (tag : Text)
  /-- `gh release delete {tag} --cleanup-tag --yes`, which only warns. -/
  | delete (tag : Text)
deriving DecidableEq

inductive Call
  /-- The platforms of the checksums file, each with its digest. -/
  | readChecksums
  | pathExists (path : Path)
  | run (command : Command)
  | temporaryFile
  | ghDownload (tag assetName : Text) (output : Path)
  | computeSha256 (path : Path)
  | minisignVerify (target signature publicKey : Path)
  | unlink (path : Path)
  | print (line : Text)

/-- What each operation returns. -/
abbrev Call.Value : Call → Type
  | .readChecksums => List (Text × Text)
  | .pathExists _ => Bool
  | .run _ => Unit
  | .temporaryFile => Path
  | .ghDownload _ _ _ => Completed
  | .computeSha256 _ => Text
  | .minisignVerify _ _ _ => Completed
  | .unlink _ => Unit
  | .print _ => Unit

/-- Every operation may raise. -/
def github : Interface where
  Op := Call
  Answer := fun call => Except Failure call.Value

abbrev ReleaseTask := ExceptT Raised (Program github)

/-- Ask for an operation, and raise what it raises. -/
def issue (call : Call) : ReleaseTask call.Value := do
  let answer ← (Program.call (show github.Op from call) :
    ReleaseTask (Except Failure call.Value))
  match answer with
  | .ok value => return value
  | .error failure => throw (.external failure)

/-! ## Texts -/

/-- The characters which `str.strip` removes. -/
def isSpace (character : Char) : Bool :=
  let code := character.toNat
  (9 ≤ code && code ≤ 13) || (28 ≤ code && code ≤ 32) || code = 0x85 ||
    code = 0xA0 || code = 0x1680 || (0x2000 ≤ code && code ≤ 0x200A) ||
    code = 0x2028 || code = 0x2029 || code = 0x202F || code = 0x205F ||
    code = 0x3000

/-- `str.strip`. -/
def strip (text : Text) : Text :=
  ((text.dropWhile isSpace).reverse.dropWhile isSpace).reverse

/-- `str.removeprefix`. -/
def removePrefix (start text : Text) : Text :=
  if start.isPrefixOf text then text.drop start.length else text

/-- `Path.name`: the last component. -/
def pathName (path : Path) : Text :=
  match path.components.getLast? with
  | some component => component.display
  | none => []

/-! ## Paths -/

section Tasks

variable (repoRoot : Path)

def binDir : Path :=
  repoRoot.join "cli/launcher/bin".toList

def binaryPath (platform : Text) : Path :=
  (binDir repoRoot).join ("luminosity-".toList ++ platform)

def debugArchivePath (platform : Text) : Path :=
  (binDir repoRoot).join
    ("luminosity-".toList ++ platform ++ ".debug.tar.gz".toList)

def signaturePath (platform : Text) : Path :=
  (binDir repoRoot).join
    ("luminosity-".toList ++ platform ++ ".minisig".toList)

def manifest : Path :=
  (binDir repoRoot).join "manifest.json".toList

def manifestSignature : Path :=
  (binDir repoRoot).join "manifest.minisig".toList

def releasePublicKey : Path :=
  repoRoot.join "keys/luminosity-release.pub".toList

/-! ## Verification -/

/-- `minisign.verify`. -/
def minisignVerify (target signature publicKey : Path) : ReleaseTask Unit := do
  let result ←
    attempt (issue (.minisignVerify target signature publicKey))
      fun raised =>
        match raised with
        | .external (.osError detail) | .external (.timeoutExpired detail) =>
            throw (.minisign
              ("minisign -V could not run for ".toList ++ pathName target ++
                ": ".toList ++ detail))
        | other => throw other
  if (result : Completed).returncode = 0 then
    pure ()
  else
    throw (.minisign
      ("minisign -V failed for ".toList ++ pathName target ++
        ": ".toList ++ strip (result : Completed).stderr))

/-- `upload_release_asset`. -/
def uploadReleaseAsset (tag : Text) (path : Path) : ReleaseTask Unit :=
  issue (.run (.upload tag path))

/-- `download_release_asset`. -/
def downloadReleaseAsset (tag assetName : Text) (outputPath : Path) :
    ReleaseTask Unit := do
  let result ← issue (.ghDownload tag assetName outputPath)
  if (result : Completed).returncode = 0 then
    pure ()
  else
    throw (.assetVerification
      ("gh release download failed: ".toList ++
        strip (result : Completed).stderr))

/-- `verify_release_asset`. -/
def verifyReleaseAsset (path : Path) (expectedHex : Text) :
    ReleaseTask Unit := do
  let actual ← issue (.computeSha256 path)
  if (actual : Text) = expectedHex then
    pure ()
  else
    throw (.assetVerification
      (pathName path ++ ": expected sha256:".toList ++ expectedHex ++
        ", got sha256:".toList ++ actual))

/-- A download which takes too long is a failed verification. -/
def onTimeout (assetName : Text) (body : ReleaseTask Unit) : ReleaseTask Unit :=
  attempt body fun raised =>
    match raised with
    | .external (.timeoutExpired _) =>
        throw (.assetVerification
          ("gh release download timed out for ".toList ++ assetName))
    | other => throw other

/-- `download_and_verify`. -/
def downloadAndVerify (tag assetName expectedHex : Text) :
    ReleaseTask Unit := do
  let tmpPath ← issue .temporaryFile
  ensuring
    (do
      onTimeout assetName (downloadReleaseAsset tag assetName tmpPath)
      verifyReleaseAsset tmpPath expectedHex)
    (issue (.unlink tmpPath))

/-- `download_and_verify_signature`. -/
def downloadAndVerifySignature
    (tag assetName signatureName : Text) (publicKey : Path) :
    ReleaseTask Unit := do
  let targetPath ← issue .temporaryFile
  let sigPath ← issue .temporaryFile
  ensuring
    (do
      onTimeout assetName (do
        downloadReleaseAsset tag assetName targetPath
        downloadReleaseAsset tag signatureName sigPath)
      attempt (minisignVerify targetPath sigPath publicKey) fun raised =>
        match raised with
        | .minisign message => throw (.assetVerification message)
        | other => throw other)
    (do
      let _ ← issue (.unlink targetPath)
      issue (.unlink sigPath))

/-! ## The publication -/

/-- The platforms of the targets, each once. -/
def platforms (targets : List (Text × Text)) : List Text :=
  (targets.map Prod.snd).eraseDups

/-- The artefacts which a release must have. -/
def required (targets : List (Text × Text)) : List Path :=
  (platforms targets).map (binaryPath repoRoot) ++
    (platforms targets).map (debugArchivePath repoRoot) ++
      (platforms targets).map (signaturePath repoRoot) ++
        [manifest repoRoot, manifestSignature repoRoot]

/-- The paths at which there is nothing. -/
def missingAmong : List Path → ReleaseTask (List Path)
  | [] => pure []
  | path :: later => do
      let present ← issue (.pathExists path)
      let missing ← missingAmong later
      return if (present : Bool) then missing else path :: missing

/-- The uploads of one platform. -/
def uploadPlatform (tag platform : Text) :
    ReleaseTask Unit := do
  uploadReleaseAsset tag (binaryPath repoRoot platform)
  uploadReleaseAsset tag (debugArchivePath repoRoot platform)
  uploadReleaseAsset tag (signaturePath repoRoot platform)

/-- `hashes[platform]`. -/
def hashOf (checksums : List (Text × Text)) (platform : Text) :
    ReleaseTask Text :=
  match checksums.lookup platform with
  | some digest => pure (removePrefix "sha256:".toList digest)
  | none => throw (.keyError platform)

/-- The checks of one platform. -/
def verifyPlatform
    (checksums : List (Text × Text)) (tag platform : Text) :
    ReleaseTask Unit := do
  let expectedHex ← hashOf checksums platform
  downloadAndVerify tag (pathName (binaryPath repoRoot platform)) expectedHex
  downloadAndVerifySignature tag (pathName (binaryPath repoRoot platform))
    (pathName (signaturePath repoRoot platform)) (releasePublicKey repoRoot)

/-- The uploads and the checks, before the release is made public. -/
def uploadThenVerify
    (targets checksums : List (Text × Text)) (tag : Text) :
    ReleaseTask Unit := do
  forEach (uploadPlatform repoRoot tag) (platforms targets)
  uploadReleaseAsset tag (manifest repoRoot)
  uploadReleaseAsset tag (manifestSignature repoRoot)
  forEach (verifyPlatform repoRoot checksums tag) (platforms targets)
  downloadAndVerifySignature tag (pathName (manifest repoRoot))
    (pathName (manifestSignature repoRoot)) (releasePublicKey repoRoot)

/-- `_emit_forensic_alert`. -/
def emitForensicAlert (tag message : Text) : ReleaseTask Unit :=
  issue (.print
    ("::error title=Release ".toList ++ tag ++ "::".toList ++ message))

/-- The body of the `try`. -/
def publishVerified
    (targets checksums : List (Text × Text)) (tag : Text) :
    ReleaseTask Unit := do
  uploadThenVerify repoRoot targets checksums tag
  issue (.run (.undraft tag))

/-- What the handlers of the `try` do, before they raise again. -/
def onRaised (tag : Text) : Raised → ReleaseTask Unit
  | .assetVerification message => do
      emitForensicAlert tag
        ("AssetVerificationError — draft + tag PRESERVED ".toList ++
          "for triage".toList)
      throw (.assetVerification message)
  | raised =>
      if raised.isException then do
        let _ ← issue (.run (.delete tag))
        throw raised
      else
        throw raised

/-- `upload_and_verify`. -/
def uploadAndVerify (targets : List (Text × Text)) (version : Text) :
    ReleaseTask Unit := do
  let tag := 'v' :: version
  let checksums ← issue .readChecksums
  let missing ← missingAmong (required repoRoot targets)
  if missing = [] then
    attempt (publishVerified repoRoot targets checksums tag) (onRaised tag)
  else
    throw (.fileNotFound missing)

end Tasks

/-! ## Operations which leave the release alone -/

/-- The operation neither publishes nor deletes the release. -/
def Call.Quiet : Call → Prop
  | .run (.undraft _) => False
  | .run (.delete _) => False
  | _ => True

theorem asks_issue {call : Call} (quiet : call.Quiet) :
    Asks Call.Quiet (issue call).run := by
  apply Asks.run_bind
  · exact (asks_run_call _).mpr quiet
  · intro answer
    cases answer <;> trivial

theorem asks_downloadReleaseAsset
    (tag assetName : Text) (output : Path) :
    Asks Call.Quiet (downloadReleaseAsset tag assetName output).run := by
  refine Asks.run_bind (asks_issue ?_) ?_
  · trivial
  · intro finished
    split_ifs <;> trivial

theorem asks_verifyReleaseAsset (path : Path) (expectedHex : Text) :
    Asks Call.Quiet (verifyReleaseAsset path expectedHex).run := by
  refine Asks.run_bind (asks_issue ?_) ?_
  · trivial
  · intro actual
    split_ifs <;> trivial

theorem asks_onTimeout
    {assetName : Text} {body : ReleaseTask Unit}
    (quiet : Asks Call.Quiet body.run) :
    Asks Call.Quiet (onTimeout assetName body).run := by
  apply Asks.attempt quiet
  intro raised
  split <;> trivial

theorem asks_downloadAndVerify (tag assetName expectedHex : Text) :
    Asks Call.Quiet (downloadAndVerify tag assetName expectedHex).run := by
  refine Asks.run_bind (asks_issue ?_) ?_
  · trivial
  · intro path
    apply Asks.ensuring
    · apply Asks.run_bind
        (asks_onTimeout (asks_downloadReleaseAsset tag assetName path))
      intro _
      exact asks_verifyReleaseAsset path expectedHex
    · apply asks_issue
      trivial

theorem asks_minisignVerify (target signature publicKey : Path) :
    Asks Call.Quiet (minisignVerify target signature publicKey).run := by
  apply Asks.run_bind
  · apply Asks.attempt
    · apply asks_issue
      trivial
    · intro raised
      split <;> trivial
  · intro finished
    split_ifs <;> trivial

theorem asks_downloadAndVerifySignature
    (tag assetName signatureName : Text) (publicKey : Path) :
    Asks Call.Quiet
      (downloadAndVerifySignature tag assetName signatureName
        publicKey).run := by
  refine Asks.run_bind (asks_issue ?_) ?_
  · trivial
  intro targetPath
  refine Asks.run_bind (asks_issue ?_) ?_
  · trivial
  intro sigPath
  apply Asks.ensuring
  · apply Asks.run_bind
    · apply asks_onTimeout
      apply Asks.run_bind
        (asks_downloadReleaseAsset tag assetName targetPath)
      intro _
      exact asks_downloadReleaseAsset tag signatureName sigPath
    · intro _
      apply Asks.attempt (asks_minisignVerify targetPath sigPath publicKey)
      intro raised
      split <;> trivial
  · refine Asks.run_bind (asks_issue ?_) ?_
    · trivial
    · intro _
      apply asks_issue
      trivial

theorem asks_missingAmong (paths : List Path) :
    Asks Call.Quiet (missingAmong paths).run := by
  induction paths with
  | nil => trivial
  | cons path later induction =>
      refine Asks.run_bind (asks_issue ?_) ?_
      · trivial
      · intro present
        apply Asks.run_bind induction
        intro missing
        trivial

theorem asks_uploadPlatform (repoRoot : Path) (tag platform : Text) :
    Asks Call.Quiet (uploadPlatform repoRoot tag platform).run := by
  refine Asks.run_bind (asks_issue ?_) ?_
  · trivial
  intro _
  refine Asks.run_bind (asks_issue ?_) ?_
  · trivial
  intro _
  apply asks_issue
  trivial

theorem asks_verifyPlatform
    (repoRoot : Path) (checksums : List (Text × Text))
    (tag platform : Text) :
    Asks Call.Quiet (verifyPlatform repoRoot checksums tag platform).run := by
  apply Asks.run_bind
  · rw [hashOf]
    split <;> trivial
  intro expectedHex
  apply Asks.run_bind (asks_downloadAndVerify _ _ _)
  intro _
  exact asks_downloadAndVerifySignature _ _ _ _

/-- Up to the publication, nothing publishes or deletes the release. -/
theorem asks_uploadThenVerify
    (repoRoot : Path) (targets checksums : List (Text × Text))
    (tag : Text) :
    Asks Call.Quiet
      (uploadThenVerify repoRoot targets checksums tag).run := by
  apply Asks.run_bind
    (Asks.forEach (asks_uploadPlatform repoRoot tag) _)
  intro _
  refine Asks.run_bind (asks_issue ?_) ?_
  · trivial
  intro _
  refine Asks.run_bind (asks_issue ?_) ?_
  · trivial
  intro _
  apply Asks.run_bind
    (Asks.forEach (asks_verifyPlatform repoRoot checksums tag) _)
  intro _
  exact asks_downloadAndVerifySignature _ _ _ _

theorem asks_emitForensicAlert (tag message : Text) :
    Asks Call.Quiet (emitForensicAlert tag message).run := by
  apply asks_issue
  trivial

end Luminosity.Tasks.Github
