import Luminosity.Foundation.Interleaving
import Luminosity.Tasks.Github

/-!
# Publications

A publication runs against tools and a server which answer anything.  What
comes back of a download is arbitrary; the tools say the truth about the files
they are given; and a command may have taken effect or not, whatever it
reports.  The operations are recorded.

The release is made public only after everything it must have is there, and
what came back of every platform and of the manifest passed its checks.  A run
which ends with a failed verification neither publishes nor deletes.
-/

namespace Luminosity.Tasks.Publication

open Luminosity.Foundation.TextSegments
open Luminosity.Foundation.EffectPrograms
open Luminosity.Foundation.Exceptions
open Luminosity.Foundation.Interleaving
open Luminosity.Host.Paths
open Luminosity.Tasks.Github

/-! ## The environment -/

/-- The digest of bytes, and what a public key verifies. -/
structure Tools where
  sha256Hex : Bytes → Text
  verifies : (publicKey : Path) → (target signature : Bytes) → Bool

/-- What has become of the release. -/
inductive Release
  | draft
  | published
  | deleted
deriving DecidableEq, Repr

/-- The temporary files, the release, and whether its tag is there. -/
structure World where
  files : Path → Option Bytes
  release : Release
  tagged : Bool

/-- The world in which the path has these contents. -/
def World.place (world : World) (path : Path) (contents : Option Bytes) :
    World :=
  { world with
    files := fun other =>
      if other = path then contents else world.files other }

@[simp]
theorem World.place_files_self
    (world : World) (path : Path) (contents : Option Bytes) :
    (world.place path contents).files path = contents := by
  simp [World.place]

@[simp]
theorem World.place_files_of_ne
    (world : World) {path other : Path} (contents : Option Bytes)
    (different : other ≠ path) :
    (world.place path contents).files other = world.files other := by
  simp [World.place, different]

/-- A command may have taken effect or not. -/
def TakesEffect : Command → World → World → Prop
  | .upload _ _, before, after => after = before
  | .undraft _, before, after =>
      after = before ∨ after = { before with release := .published }
  | .delete _, before, after =>
      after.files = before.files ∧
        (after.release = before.release ∨ after.release = .deleted) ∧
          (after.tagged = before.tagged ∨ after.tagged = false)

/-- What the operations can do and answer. -/
def answers (tools : Tools) : Semantics github World :=
  fun call before answer after =>
    match call with
    | .readChecksums => after = before
    | .pathExists _ => after = before
    | .print _ => after = before
    | .run command => TakesEffect command before after
    | .temporaryFile =>
        match (answer : Except Failure Path) with
        | .ok path =>
            before.files path = none ∧ after = before.place path (some [])
        | .error _ => after = before
    | .ghDownload _ _ output =>
        ∃ contents, after = before.place output contents ∧
          ∀ finished : Completed,
            (answer : Except Failure Completed) = .ok finished →
              finished.returncode = 0 → contents.isSome = true
    | .computeSha256 path =>
        after = before ∧
          ∀ digest : Text,
            (answer : Except Failure Text) = .ok digest →
              ∃ bytes, before.files path = some bytes ∧
                digest = tools.sha256Hex bytes
    | .minisignVerify target signature publicKey =>
        after = before ∧
          ∀ finished : Completed,
            (answer : Except Failure Completed) = .ok finished →
              finished.returncode = 0 →
                ∃ bytes signatureBytes,
                  before.files target = some bytes ∧
                    before.files signature = some signatureBytes ∧
                      tools.verifies publicKey bytes signatureBytes = true
    | .unlink path =>
        after = before ∨ after = before.place path none

/-- One recorded operation. -/
abbrev Step := Event github Unit World

/-- What was done, newest first. -/
abbrev History := List Step

abbrev Log := World × History

/-- The operations, recorded. -/
abbrev calls (tools : Tools) : Semantics github Log :=
  recorded (fun _ => answers tools) ()

/-! ## Evidence -/

/-- The event is a download of the asset, which brought these bytes. -/
def Delivers (tag assetName : Text) (bytes : Bytes) : Step → Prop
  | ⟨_, .ghDownload eventTag eventAsset output, answer, _, after⟩ =>
      eventTag = tag ∧ eventAsset = assetName ∧
        (∃ finished : Completed,
          (answer : Except Failure Completed) = .ok finished ∧
            finished.returncode = 0) ∧
          after.files output = some bytes
  | _ => False

def Delivered (tag assetName : Text) (bytes : Bytes) (history : History) :
    Prop :=
  ∃ event ∈ history, Delivers tag assetName bytes event

/-- The event finds something at the path. -/
def Finds (path : Path) : Step → Prop
  | ⟨_, .pathExists eventPath, answer, _, _⟩ =>
      eventPath = path ∧ (answer : Except Failure Bool) = .ok true
  | _ => False

def Found (path : Path) (history : History) : Prop :=
  ∃ event ∈ history, Finds path event

/-- The event reads these checksums. -/
def Reads (checksums : List (Text × Text)) : Step → Prop
  | ⟨_, .readChecksums, answer, _, _⟩ =>
      (answer : Except Failure (List (Text × Text))) = .ok checksums
  | _ => False

def Recorded (checksums : List (Text × Text)) (history : History) : Prop :=
  ∃ event ∈ history, Reads checksums event

section Evidence

variable (tools : Tools) (repoRoot : Path)

/-- Bytes which came back in this run have the digest. -/
def DigestChecked
    (tag assetName expectedHex : Text) (history : History) : Prop :=
  ∃ bytes, Delivered tag assetName bytes history ∧
    tools.sha256Hex bytes = expectedHex

/-- An asset and a signature which came back in this run verify. -/
def SignatureChecked
    (tag assetName signatureName : Text) (publicKey : Path)
    (history : History) : Prop :=
  ∃ bytes signatureBytes,
    Delivered tag assetName bytes history ∧
      Delivered tag signatureName signatureBytes history ∧
        tools.verifies publicKey bytes signatureBytes = true

/-- The platform's binary has the recorded digest, and it is signed. -/
structure PlatformVerified
    (checksums : List (Text × Text)) (tag platform : Text)
    (history : History) : Prop where
  digest :
    ∃ digest, checksums.lookup platform = some digest ∧
      DigestChecked tools tag (pathName (binaryPath repoRoot platform))
        (removePrefix "sha256:".toList digest) history
  signature :
    SignatureChecked tools tag (pathName (binaryPath repoRoot platform))
      (pathName (signaturePath repoRoot platform))
      (releasePublicKey repoRoot) history

/-- Everything which must be checked before the release is made public. -/
structure Verified
    (targets : List (Text × Text)) (tag : Text) (history : History) :
    Prop where
  artefacts : ∀ path ∈ required repoRoot targets, Found path history
  platforms :
    ∃ checksums, Recorded checksums history ∧
      ∀ target ∈ targets,
        PlatformVerified tools repoRoot checksums tag target.2 history
  manifest :
    SignatureChecked tools tag (pathName (manifest repoRoot))
      (pathName (manifestSignature repoRoot)) (releasePublicKey repoRoot)
      history

variable {tools repoRoot}

theorem Delivered.grow
    {tag assetName : Text} {bytes : Bytes} {history longer : History}
    (delivered : Delivered tag assetName bytes history)
    (grows : history <:+ longer) :
    Delivered tag assetName bytes longer := by
  rcases delivered with ⟨event, member, delivers⟩
  exact ⟨event, grows.subset member, delivers⟩

theorem Found.grow
    {path : Path} {history longer : History}
    (found : Found path history) (grows : history <:+ longer) :
    Found path longer := by
  rcases found with ⟨event, member, finds⟩
  exact ⟨event, grows.subset member, finds⟩

theorem Recorded.grow
    {checksums : List (Text × Text)} {history longer : History}
    (isRecorded : Recorded checksums history)
    (grows : history <:+ longer) :
    Recorded checksums longer := by
  rcases isRecorded with ⟨event, member, reads⟩
  exact ⟨event, grows.subset member, reads⟩

theorem DigestChecked.grow
    {tag assetName expectedHex : Text} {history longer : History}
    (checked : DigestChecked tools tag assetName expectedHex history)
    (grows : history <:+ longer) :
    DigestChecked tools tag assetName expectedHex longer := by
  rcases checked with ⟨bytes, delivered, same⟩
  exact ⟨bytes, delivered.grow grows, same⟩

theorem SignatureChecked.grow
    {tag assetName signatureName : Text} {publicKey : Path}
    {history longer : History}
    (checked :
      SignatureChecked tools tag assetName signatureName publicKey history)
    (grows : history <:+ longer) :
    SignatureChecked tools tag assetName signatureName publicKey longer := by
  rcases checked with ⟨bytes, signatureBytes, target, signature, verifies⟩
  exact ⟨bytes, signatureBytes, target.grow grows, signature.grow grows,
    verifies⟩

theorem PlatformVerified.grow
    {checksums : List (Text × Text)} {tag platform : Text}
    {history longer : History}
    (verified :
      PlatformVerified tools repoRoot checksums tag platform history)
    (grows : history <:+ longer) :
    PlatformVerified tools repoRoot checksums tag platform longer := by
  rcases verified with ⟨⟨digest, present, checked⟩, signature⟩
  exact ⟨⟨digest, present, checked.grow grows⟩, signature.grow grows⟩

end Evidence

/-! ## Operations -/

section Operations

variable {tools : Tools}

/-- What an operation raises, the task raises. -/
def outcomeOf {α : Type} : Except Failure α → Except Raised α
  | .ok value => .ok value
  | .error failure => .error (.external failure)

theorem ensures_issue
    {State : Type} {semantics : Semantics github State}
    (call : Call) (post : Except Raised call.Value → State → Prop)
    (state : State) :
    Ensures semantics (issue call).run post state ↔
      ∀ answer after, semantics call state answer after →
        post (outcomeOf answer) after := by
  rw [issue, ensures_run_bind, ensures_run_call]
  constructor
  · intro ensured answer after step
    have holds := ensured answer after step
    cases answer with
    | ok value => exact holds
    | error failure => exact holds
  · intro ensured answer after step
    have holds := ensured answer after step
    cases answer with
    | ok value => exact holds
    | error failure => exact holds

/-- A download which succeeds brings bytes, and touches nothing else. -/
theorem ensures_downloadReleaseAsset
    (tag assetName : Text) (output : Path) (log : Log) :
    Ensures (calls tools) (downloadReleaseAsset tag assetName output).run
      (WhenOk fun _ after =>
        log.2 <:+ after.2 ∧
          (∀ other, other ≠ output →
            after.1.files other = log.1.files other) ∧
            ∃ bytes, after.1.files output = some bytes ∧
              Delivered tag assetName bytes after.2)
      log := by
  rw [downloadReleaseAsset, ensures_run_bind, ensures_issue]
  rintro answer ⟨world, history⟩ ⟨⟨contents, placed, brought⟩, grows⟩
  cases answer with
  | error failure => trivial
  | ok finished =>
      change Ensures _ (ite _ _ _ : ReleaseTask Unit).run _ _
      split_ifs with succeeded
      · rcases Option.isSome_iff_exists.mp
            (brought finished rfl succeeded) with ⟨bytes, rfl⟩
        dsimp only at placed grows
        subst placed grows
        refine ⟨List.suffix_cons _ _, ?_, bytes, ?_, ?_⟩
        · intro other different
          exact World.place_files_of_ne _ _ different
        · exact World.place_files_self _ _ _
        · refine ⟨_, List.mem_cons_self, rfl, rfl, ?_, ?_⟩
          · exact ⟨finished, rfl, succeeded⟩
          · exact World.place_files_self _ _ _
      · trivial

/-- A failure which is a timeout or not stays a failure. -/
theorem ensures_onTimeout
    {assetName : Text} {body : ReleaseTask Unit} {holds : Unit → Log → Prop}
    {log : Log}
    (established : Ensures (calls tools) body.run (WhenOk holds) log) :
    Ensures (calls tools) (onTimeout assetName body).run (WhenOk holds)
      log := by
  apply Ensures.attempt established
  intro raised
  split <;> exact ⟨_, rfl⟩

/-- A digest which is verified is the one of the bytes at the path. -/
theorem ensures_verifyReleaseAsset
    (path : Path) (expectedHex : Text) (log : Log) :
    Ensures (calls tools) (verifyReleaseAsset path expectedHex).run
      (WhenOk fun _ after =>
        log.2 <:+ after.2 ∧ ∃ bytes, log.1.files path = some bytes ∧
          tools.sha256Hex bytes = expectedHex)
      log := by
  rw [verifyReleaseAsset, ensures_run_bind, ensures_issue]
  rintro answer ⟨world, history⟩ ⟨⟨same, truthful⟩, grows⟩
  cases answer with
  | error failure => trivial
  | ok actual =>
      change Ensures _ (ite _ _ _ : ReleaseTask Unit).run _ _
      split_ifs with expected
      · rcases truthful actual rfl with ⟨bytes, present, digest⟩
        dsimp only at grows
        subst grows
        exact ⟨List.suffix_cons _ _, bytes, present,
          digest.symm.trans expected⟩
      · trivial

/-- A temporary file is a new one. -/
theorem ensures_temporaryFile (log : Log) :
    Ensures (calls tools) (issue .temporaryFile).run
      (WhenOk fun path after =>
        log.2 <:+ after.2 ∧ log.1.files path = none ∧
          after.1 = log.1.place path (some []))
      log := by
  rw [ensures_issue]
  rintro answer ⟨world, history⟩ ⟨step, grows⟩
  cases answer with
  | error failure => trivial
  | ok path =>
      dsimp only at grows
      subst grows
      exact ⟨List.suffix_cons _ _, step.1, step.2⟩

/-- What a history establishes outlasts a program. -/
theorem ensures_outlasts
    {α : Type} {holds : History → Prop}
    (grow : ∀ history longer, holds history → history <:+ longer →
      holds longer)
    {program : Program github α} {log : Log} (established : holds log.2) :
    Ensures (calls tools) program (fun _ after => holds after.2) log := by
  apply (ensures_grows_recorded program log).mono
  intro _ after grows
  exact grow log.2 after.2 established grows

/-- What is downloaded and verified has the digest. -/
theorem ensures_downloadAndVerify
    (tag assetName expectedHex : Text) (log : Log) :
    Ensures (calls tools) (downloadAndVerify tag assetName expectedHex).run
      (WhenOk fun _ after =>
        DigestChecked tools tag assetName expectedHex after.2)
      log := by
  rw [downloadAndVerify]
  apply Ensures.succeeds (ensures_temporaryFile log)
  intro path middle _
  apply Ensures.ensuring
  · apply Ensures.succeeds
      (ensures_onTimeout
        (ensures_downloadReleaseAsset tag assetName path middle))
    rintro _ after ⟨_, _, bytes, present, delivered⟩
    apply (ensures_verifyReleaseAsset path expectedHex after).mono
    intro result last onSuccess
    cases result with
    | error error => trivial
    | ok _ =>
        rcases onSuccess with ⟨grows, found, same, digest⟩
        rw [present] at same
        cases same
        exact ⟨bytes, delivered.grow grows, digest⟩
  · intro _ after checked
    exact ensures_outlasts (fun _ _ => DigestChecked.grow) checked

/-- A signature which is verified is one of the bytes at the paths. -/
theorem ensures_minisignVerify
    (target signature publicKey : Path) (log : Log) :
    Ensures (calls tools) (minisignVerify target signature publicKey).run
      (WhenOk fun _ after =>
        log.2 <:+ after.2 ∧ ∃ bytes signatureBytes,
          log.1.files target = some bytes ∧
            log.1.files signature = some signatureBytes ∧
              tools.verifies publicKey bytes signatureBytes = true)
      log := by
  rw [minisignVerify, ensures_run_bind, ensures_attempt, ensures_issue]
  rintro answer ⟨world, history⟩ ⟨⟨same, truthful⟩, grows⟩
  cases answer with
  | error failure => cases failure <;> trivial
  | ok finished =>
      change Ensures _ (ite _ _ _ : ReleaseTask Unit).run _ _
      split_ifs with succeeded
      · dsimp only at grows
        subst grows
        exact ⟨List.suffix_cons _ _, truthful finished rfl succeeded⟩
      · trivial

/-- Both files hold what came back of their downloads. -/
def Fetched
    (tag assetName signatureName : Text) (targetPath sigPath : Path)
    (log : Log) : Prop :=
  ∃ bytes signatureBytes,
    log.1.files targetPath = some bytes ∧
      log.1.files sigPath = some signatureBytes ∧
        Delivered tag assetName bytes log.2 ∧
          Delivered tag signatureName signatureBytes log.2

/-- Two downloads to different files leave both. -/
theorem ensures_fetched
    (tag assetName signatureName : Text) {targetPath sigPath : Path}
    (different : targetPath ≠ sigPath) (log : Log) :
    Ensures (calls tools)
      (do
        downloadReleaseAsset tag assetName targetPath
        downloadReleaseAsset tag signatureName sigPath :
        ReleaseTask Unit).run
      (WhenOk fun _ =>
        Fetched tag assetName signatureName targetPath sigPath)
      log := by
  apply Ensures.succeeds
    (ensures_downloadReleaseAsset tag assetName targetPath log)
  rintro _ middle ⟨_, _, bytes, present, delivered⟩
  apply (ensures_downloadReleaseAsset tag signatureName sigPath middle).mono
  intro result after onSuccess
  cases result with
  | error error => trivial
  | ok _ =>
      rcases onSuccess with ⟨grows, kept, signatureBytes, found, brought⟩
      refine ⟨bytes, signatureBytes, ?_, found, delivered.grow grows,
        brought⟩
      rw [kept targetPath different, present]

/-- What was fetched and is verified has the signature. -/
theorem ensures_signature
    {tag assetName signatureName : Text} {targetPath sigPath : Path}
    (publicKey : Path) {log : Log}
    (fetched :
      Fetched tag assetName signatureName targetPath sigPath log) :
    Ensures (calls tools) (minisignVerify targetPath sigPath publicKey).run
      (WhenOk fun _ after =>
        SignatureChecked tools tag assetName signatureName publicKey
          after.2)
      log := by
  rcases fetched with
    ⟨bytes, signatureBytes, present, found, delivered, brought⟩
  apply (ensures_minisignVerify targetPath sigPath publicKey log).mono
  intro result after onSuccess
  cases result with
  | error error => trivial
  | ok _ =>
      rcases onSuccess with
        ⟨grows, target, signature, isTarget, isSignature, holds⟩
      rw [present] at isTarget
      rw [found] at isSignature
      cases isTarget
      cases isSignature
      exact ⟨bytes, signatureBytes, delivered.grow grows,
        brought.grow grows, holds⟩

/-- What is downloaded and verified has the signature. -/
theorem ensures_downloadAndVerifySignature
    (tag assetName signatureName : Text) (publicKey : Path) (log : Log) :
    Ensures (calls tools)
      (downloadAndVerifySignature tag assetName signatureName publicKey).run
      (WhenOk fun _ after =>
        SignatureChecked tools tag assetName signatureName publicKey
          after.2)
      log := by
  rw [downloadAndVerifySignature]
  apply Ensures.succeeds (ensures_temporaryFile log)
  rintro targetPath first ⟨_, _, created⟩
  apply Ensures.succeeds (ensures_temporaryFile first)
  rintro sigPath second ⟨_, fresh, _⟩
  -- The first temporary file is there when the second one is created.
  have different : targetPath ≠ sigPath := by
    rintro rfl
    rw [created, World.place_files_self] at fresh
    cases fresh
  apply Ensures.ensuring
  · apply Ensures.succeeds
      (ensures_onTimeout
        (ensures_fetched tag assetName signatureName different second))
    intro _ after fetched
    apply Ensures.attempt (ensures_signature publicKey fetched)
    intro raised
    split <;> exact ⟨_, rfl⟩
  · intro _ after checked
    exact ensures_outlasts (fun _ _ => SignatureChecked.grow) checked

/-- What a task establishes, with a history which only grows. -/
theorem ensures_growing
    {α : Type} {task : ReleaseTask α} {holds : α → Log → Prop} {log : Log}
    (established : Ensures (calls tools) task.run (WhenOk holds) log) :
    Ensures (calls tools) task.run
      (WhenOk fun value after => log.2 <:+ after.2 ∧ holds value after)
      log := by
  apply (established.and (ensures_grows_recorded task.run log)).mono
  rintro result after ⟨onSuccess, grows⟩
  cases result with
  | error error => trivial
  | ok value => exact ⟨grows, onSuccess⟩

/-- A platform whose checks pass is verified. -/
theorem ensures_verifyPlatform
    (repoRoot : Path) (checksums : List (Text × Text))
    (tag platform : Text) (log : Log) :
    Ensures (calls tools) (verifyPlatform repoRoot checksums tag platform).run
      (WhenOk fun _ after =>
        PlatformVerified tools repoRoot checksums tag platform after.2)
      log := by
  rw [verifyPlatform, hashOf]
  cases present : checksums.lookup platform with
  | none => trivial
  | some digest =>
      apply Ensures.succeeds (ensures_downloadAndVerify _ _ _ log)
      intro _ middle checked
      apply (ensures_growing
        (ensures_downloadAndVerifySignature tag _ _ _ middle)).mono
      intro result after onSuccess
      cases result with
      | error error => trivial
      | ok _ =>
          exact ⟨⟨digest, present, checked.grow onSuccess.1⟩, onSuccess.2⟩

/-- The loop over the platforms verifies each of them. -/
theorem ensures_verifyPlatforms
    (repoRoot : Path) (checksums : List (Text × Text)) (tag : Text)
    (items : List Text) (log : Log) :
    Ensures (calls tools)
      (forEach (verifyPlatform repoRoot checksums tag) items).run
      (WhenOk fun _ after =>
        log.2 <:+ after.2 ∧ ∀ platform ∈ items,
          PlatformVerified tools repoRoot checksums tag platform after.2)
      log := by
  apply Ensures.forEach
    (fun platform (after : Log) =>
      PlatformVerified tools repoRoot checksums tag platform after.2)
    (fun (before after : Log) => before.2 <:+ after.2)
  · intro state
    exact List.suffix_rfl
  · intro first second third before after
    exact before.trans after
  · intro platform before after verified grows
    exact verified.grow grows
  · intro platform state
    exact ensures_growing
      (ensures_verifyPlatform repoRoot checksums tag platform state)

/-- Nothing is missing among paths which are all found. -/
theorem ensures_missingAmong (paths : List Path) (log : Log) :
    Ensures (calls tools) (missingAmong paths).run
      (WhenOk fun missing after =>
        missing = [] → ∀ path ∈ paths, Found path after.2)
      log := by
  induction paths generalizing log with
  | nil =>
      intro _ path member
      cases member
  | cons path later induction =>
      rw [missingAmong, ensures_run_bind, ensures_issue]
      rintro answer ⟨world, history⟩ ⟨same, grows⟩
      dsimp only at grows
      subst grows
      cases answer with
      | error failure => trivial
      | ok present =>
          apply Ensures.succeeds (ensures_growing (induction _))
          rintro missing after ⟨grows, others⟩
          cases present with
          | false => rintro ⟨⟩
          | true =>
              intro none other member
              rcases List.mem_cons.mp member with rfl | member
              · exact ⟨_, grows.subset List.mem_cons_self, rfl, rfl⟩
              · exact others none other member

/-- Whatever a task does, it ends somewhere. -/
theorem ensures_anything
    {α : Type} (task : ReleaseTask α) (log : Log) :
    Ensures (calls tools) task.run (WhenOk fun _ _ => True) log := by
  apply (ensures_runs task.run log).mono
  intro result after _
  cases result <;> trivial

/-- After the checks, the platforms and the manifest are verified. -/
theorem ensures_uploadThenVerify
    (repoRoot : Path) (targets checksums : List (Text × Text))
    (tag : Text) (log : Log) :
    Ensures (calls tools)
      (uploadThenVerify repoRoot targets checksums tag).run
      (WhenOk fun _ after =>
        (∀ platform ∈ platforms targets,
          PlatformVerified tools repoRoot checksums tag platform after.2) ∧
          SignatureChecked tools tag (pathName (manifest repoRoot))
            (pathName (manifestSignature repoRoot))
            (releasePublicKey repoRoot) after.2)
      log := by
  rw [uploadThenVerify]
  apply Ensures.succeeds (ensures_anything _ log)
  intro _ first _
  apply Ensures.succeeds (ensures_anything _ first)
  intro _ second _
  apply Ensures.succeeds (ensures_anything _ second)
  intro _ third _
  apply Ensures.succeeds
    (ensures_verifyPlatforms repoRoot checksums tag (platforms targets)
      third)
  rintro _ fourth ⟨_, verified⟩
  apply (ensures_growing
    (ensures_downloadAndVerifySignature tag _ _ _ fourth)).mono
  intro result after onSuccess
  cases result with
  | error error => trivial
  | ok _ =>
      refine ⟨?_, onSuccess.2⟩
      intro platform member
      exact (verified platform member).grow onSuccess.1

end Operations

/-! ## How a run ends -/

/-- A quiet operation keeps the release and its tag. -/
theorem quiet_keeps
    {tools : Tools} {call : Call} {before after : World}
    {answer : Except Failure call.Value}
    (quiet : call.Quiet) (step : answers tools call before answer after) :
    after.release = before.release ∧ after.tagged = before.tagged := by
  cases call with
  | readChecksums => cases step; exact ⟨rfl, rfl⟩
  | pathExists path => cases step; exact ⟨rfl, rfl⟩
  | print line => cases step; exact ⟨rfl, rfl⟩
  | run command =>
      cases command with
      | upload tag path => cases step; exact ⟨rfl, rfl⟩
      | undraft tag => exact quiet.elim
      | delete tag => exact quiet.elim
  | temporaryFile =>
      cases answer with
      | ok path => rw [step.2]; exact ⟨rfl, rfl⟩
      | error failure => cases step; exact ⟨rfl, rfl⟩
  | ghDownload tag assetName output =>
      rcases step with ⟨contents, rfl, _⟩
      exact ⟨rfl, rfl⟩
  | computeSha256 path => rw [step.1]; exact ⟨rfl, rfl⟩
  | minisignVerify target signature publicKey =>
      rw [step.1]
      exact ⟨rfl, rfl⟩
  | unlink path =>
      rcases step with rfl | rfl
      · exact ⟨rfl, rfl⟩
      · exact ⟨rfl, rfl⟩

/-- Only quiet operations were done, and the release is what it was. -/
def Still (initial : Release) (log : Log) : Prop :=
  log.1.release = initial ∧
    ∀ event ∈ log.2, event.op.Quiet ∧ event.before.release = initial

section Endings

variable {tools : Tools} {repoRoot : Path} {initial : Release}

theorem ensures_still
    {α : Type} {program : Program github α} {log : Log}
    (asks : Asks Call.Quiet program) (still : Still initial log) :
    Ensures (calls tools) program (fun _ => Still initial) log := by
  apply asks.ensures
  · rintro call before answer after quiet ⟨step, grows⟩ ⟨draft, quietly⟩
    rw [Still, (quiet_keeps quiet step).1, grows]
    refine ⟨draft, ?_⟩
    intro event member
    rcases List.mem_cons.mp member with rfl | member
    · exact ⟨quiet, draft⟩
    · exact quietly event member
  · exact still

/-- The task ends with a failed verification. -/
def Preserves (result : Except Raised Unit) : Prop :=
  ∃ message, result = .error (.assetVerification message)

/--
How a run can end: before anything was done to the release, after a deletion
of what it was, after a publication, or after a publication which was reported
to fail and the deletion which follows.
-/
inductive Ends
    (tools : Tools) (repoRoot : Path) (initial : Release)
    (targets : List (Text × Text)) (tag : Text) :
    Except Raised Unit → Log → Prop
  | stopped
      (raised : Raised) (log : Log)
      (still : Still initial log) :
      Ends tools repoRoot initial targets tag (.error raised) log
  | deleted
      (result : Except Raised Unit) (before log : Log)
      (answer : Except Failure Unit)
      (still : Still initial before)
      (deletes : calls tools (.run (.delete tag)) before answer log)
      (other : ¬ Preserves result) :
      Ends tools repoRoot initial targets tag result log
  | undrafted
      (before log : Log) (answer : Except Failure Unit)
      (still : Still initial before)
      (verified : Verified tools repoRoot targets tag before.2)
      (undrafts : calls tools (.run (.undraft tag)) before answer log)
      (reported : answer = .ok () ∨ answer = .error .interrupt) :
      Ends tools repoRoot initial targets tag (outcomeOf answer) log
  | lost
      (result : Except Raised Unit) (before middle log : Log)
      (failure : Failure) (answer : Except Failure Unit)
      (still : Still initial before)
      (verified : Verified tools repoRoot targets tag before.2)
      (undrafts :
        calls tools (.run (.undraft tag)) before (.error failure) middle)
      (reported : failure ≠ .interrupt)
      (deletes : calls tools (.run (.delete tag)) middle answer log)
      (other : ¬ Preserves result) :
      Ends tools repoRoot initial targets tag result log

/-- What the handlers do after quiet operations. -/
theorem ensures_onRaised
    (targets : List (Text × Text)) (tag : Text) (raised : Raised)
    {log : Log} (still : Still initial log) :
    Ensures (calls tools) (onRaised tag raised).run
      (Ends tools repoRoot initial targets tag) log := by
  have deletes :
      (∀ message, raised ≠ .assetVerification message) →
        Ensures (calls tools)
          (if raised.isException then do
            let _ ← issue (.run (.delete tag))
            throw raised
          else
            throw raised : ReleaseTask Unit).run
          (Ends tools repoRoot initial targets tag) log := by
    intro other
    split_ifs
    · rw [ensures_run_bind, ensures_issue]
      intro answer after step
      cases answer with
      | ok _ =>
          apply Ends.deleted _ log after _ still step
          rintro ⟨message, equal⟩
          cases equal
          exact other message rfl
      | error failure =>
          apply Ends.deleted _ log after _ still step
          rintro ⟨message, equal⟩
          cases equal
    · exact .stopped raised log still
  cases raised with
  | assetVerification message =>
      rw [onRaised, ensures_run_bind]
      apply (ensures_still (asks_emitForensicAlert tag _) still).mono
      intro result after stillAfter
      cases result with
      | ok _ => exact .stopped _ after stillAfter
      | error error => exact .stopped error after stillAfter
  | minisign message => exact deletes (by rintro _ ⟨⟩)
  | fileNotFound missing => exact deletes (by rintro _ ⟨⟩)
  | keyError key => exact deletes (by rintro _ ⟨⟩)
  | external failure => exact deletes (by rintro _ ⟨⟩)

/-- What follows a publication, by what it reports. -/
theorem ensures_undraft
    (targets : List (Text × Text)) (tag : Text) {log : Log}
    (still : Still initial log)
    (verified : Verified tools repoRoot targets tag log.2) :
    Ensures (calls tools) (issue (.run (.undraft tag))).run
      (onOk
        (fun value => Ends tools repoRoot initial targets tag (.ok value))
        (fun raised middle =>
          Ensures (calls tools) (onRaised tag raised).run
            (Ends tools repoRoot initial targets tag) middle))
      log := by
  rw [ensures_issue]
  intro answer middle undrafts
  cases answer with
  | ok value =>
      exact .undrafted log middle _ still verified undrafts (Or.inl rfl)
  | error failure =>
      by_cases interrupted : failure = .interrupt
      · subst interrupted
        exact .undrafted log middle _ still verified undrafts
          (Or.inr rfl)
      · have caught : (Raised.external failure).isException = true := by
          cases failure with
          | interrupt => exact absurd rfl interrupted
          | timeoutExpired detail => rfl
          | osError detail => rfl
          | exception detail => rfl
        change Ensures _ (onRaised tag (.external failure)).run _ _
        rw [onRaised, if_pos caught, ensures_run_bind, ensures_issue]
        · intro answer after deletes
          cases answer with
          | ok _ =>
              apply Ends.lost _ log middle after failure _ still verified
                undrafts interrupted deletes
              rintro ⟨message, ⟨⟩⟩
          | error other =>
              apply Ends.lost _ log middle after failure _ still verified
                undrafts interrupted deletes
              rintro ⟨message, ⟨⟩⟩
        · rintro message ⟨⟩

/-- How a run can end. -/
theorem ensures_uploadAndVerify
    (targets : List (Text × Text)) (version : Text)
    (files : Path → Option Bytes) (initial : Release) (tagged : Bool) :
    Ensures (calls tools) (uploadAndVerify repoRoot targets version).run
      (Ends tools repoRoot initial targets ('v' :: version))
      ({ files, release := initial, tagged }, []) := by
  rw [uploadAndVerify, ensures_run_bind, ensures_issue]
  intro answer first step
  have still : Still initial first := by
    have quiet : (Call.readChecksums).Quiet := trivial
    rw [Still, (quiet_keeps quiet step.1).1, step.2]
    refine ⟨rfl, ?_⟩
    intro event member
    rcases List.mem_singleton.mp member with rfl
    exact ⟨quiet, rfl⟩
  cases answer with
  | error failure => exact .stopped _ first still
  | ok checksums =>
      have isRecorded : Recorded checksums first.2 := by
        rw [step.2]
        exact ⟨_, List.mem_cons_self, rfl⟩
      rw [outcomeOf, onOk_ok, ensures_run_bind]
      apply ((ensures_growing (ensures_missingAmong _ first)).and
        (ensures_still (asks_missingAmong _) still)).mono
      rintro result second ⟨onSuccess, still⟩
      cases result with
      | error error => exact .stopped error second still
      | ok missing =>
          rcases onSuccess with ⟨grows, found⟩
          rw [onOk_ok]
          split_ifs with complete
          · rw [ensures_attempt, publishVerified, ensures_run_bind]
            apply ((ensures_growing
              (ensures_uploadThenVerify repoRoot targets checksums
                ('v' :: version) second)).and
              (ensures_still (asks_uploadThenVerify _ _ _ _) still)).mono
            rintro result third ⟨onSuccess, still⟩
            cases result with
            | error raised => exact ensures_onRaised targets _ raised still
            | ok _ =>
                rcases onSuccess with ⟨longer, verified, signed⟩
                apply ensures_undraft targets _ still
                constructor
                · intro path member
                  exact (found complete path member).grow longer
                · refine ⟨checksums,
                    isRecorded.grow (grows.trans longer), ?_⟩
                  intro target member
                  apply verified
                  rw [platforms, List.mem_eraseDups]
                  exact List.mem_map_of_mem member
                · exact signed
          · exact .stopped _ second still

end Endings

/-! ## Publication is preceded by every check -/

section Licences

variable {tools : Tools} {repoRoot : Path}
variable {targets : List (Text × Text)} {tag : Text}

/-- Whenever the release is published, everything was verified before. -/
def Licensed
    (tools : Tools) (repoRoot : Path) (targets : List (Text × Text))
    (tag : Text) (history : History) : Prop :=
  ∀ newer event older, history = newer ++ event :: older →
    ∀ other, event.op = .run (.undraft other) →
      Verified tools repoRoot targets tag older

theorem licensed_of_quiet
    {history : History} (quiet : ∀ event ∈ history, event.op.Quiet) :
    Licensed tools repoRoot targets tag history := by
  rintro newer event older rfl other undrafts
  have isQuiet := quiet event (by simp)
  rw [undrafts] at isQuiet
  exact isQuiet.elim

theorem Licensed.cons
    {event : Step} {history : History}
    (licensed : Licensed tools repoRoot targets tag history)
    (verified : ∀ other, event.op = .run (.undraft other) →
      Verified tools repoRoot targets tag history) :
    Licensed tools repoRoot targets tag (event :: history) := by
  intro newer step older split other undrafts
  cases newer with
  | nil =>
      rcases List.cons.inj split with ⟨rfl, rfl⟩
      exact verified other undrafts
  | cons head rest =>
      exact licensed rest step older (List.cons.inj split).2 other undrafts

end Licences

/--
The release is made public only after every artefact was found, every
platform's binary which was downloaded in the run had the recorded digest and
a verified signature, and so had the manifest.  A run which ends with a failed
verification neither publishes nor deletes the release.
-/
theorem published_only_verified
    (tools : Tools) (repoRoot : Path) (targets : List (Text × Text))
    (version : Text) (files : Path → Option Bytes) (initial : Release)
    (tagged : Bool) :
    Ensures (calls tools) (uploadAndVerify repoRoot targets version).run
      (fun result after =>
        Licensed tools repoRoot targets ('v' :: version) after.2 ∧
          (Preserves result → ∀ event ∈ after.2, ∀ tag,
            event.op ≠ .run (.undraft tag) ∧
              event.op ≠ .run (.delete tag)))
      ({ files, release := initial, tagged }, []) := by
  apply (ensures_uploadAndVerify targets version files initial tagged).mono
  intro result after ends
  cases ends with
  | stopped raised _ still =>
      refine ⟨licensed_of_quiet fun event member => (still.2 event member).1,
        ?_⟩
      intro _ event member tag
      have quiet := (still.2 event member).1
      constructor
      · intro undrafts
        rw [undrafts] at quiet
        exact quiet
      · intro deletes
        rw [deletes] at quiet
        exact quiet
  | deleted _ before _ answer still deletes other =>
      refine ⟨?_, fun preserves => absurd preserves other⟩
      rw [deletes.2]
      apply Licensed.cons
        (licensed_of_quiet fun event member => (still.2 event member).1)
      rintro tag ⟨⟩
  | undrafted before _ answer still verified undrafts reported =>
      constructor
      · rw [undrafts.2]
        apply Licensed.cons
          (licensed_of_quiet fun event member => (still.2 event member).1)
        exact fun _ _ => verified
      · rintro ⟨message, preserves⟩
        rcases reported with rfl | rfl
        · cases preserves
        · cases preserves
  | lost _ before middle _ failure answer still verified undrafts _
      deletes other =>
      refine ⟨?_, fun preserves => absurd preserves other⟩
      rw [deletes.2, undrafts.2]
      apply Licensed.cons
      · apply Licensed.cons
          (licensed_of_quiet fun event member => (still.2 event member).1)
        exact fun _ _ => verified
      · rintro tag ⟨⟩

/-! ## A published release and its deletion -/

/-- Nothing which is done to a published release deletes it or its tag. -/
def Kept (history : History) : Prop :=
  ∀ event ∈ history, event.before.release = .published →
    event.after.release ≠ .deleted ∧
      (event.before.tagged = true → event.after.tagged = true)

/-- The release is published, and an exception reports that it is not. -/
def ReplyLost : Step → Prop
  | ⟨_, .run (.undraft _), answer, _, after⟩ =>
      after.release = .published ∧
        ∃ failure, failure ≠ .interrupt ∧
          (answer : Except Failure Unit) = .error failure
  | _ => False

/-- The release or its tag is deleted. -/
def DeletionApplies : Step → Prop
  | ⟨_, .run (.delete _), _, before, after⟩ =>
      after.release = .deleted ∨
        (before.tagged = true ∧ after.tagged = false)
  | _ => False

theorem not_replyLost_of_quiet
    {event : Step} (quiet : event.op.Quiet) : ¬ ReplyLost event := by
  rcases event with ⟨actor, op, answer, before, after⟩
  cases op with
  | run command =>
      cases command with
      | upload tag path => exact not_false
      | undraft tag => exact quiet.elim
      | delete tag => exact quiet.elim
  | _ => exact not_false

theorem not_deletionApplies_of_quiet
    {event : Step} (quiet : event.op.Quiet) : ¬ DeletionApplies event := by
  rcases event with ⟨actor, op, answer, before, after⟩
  cases op with
  | run command =>
      cases command with
      | upload tag path => exact not_false
      | undraft tag => exact quiet.elim
      | delete tag => exact quiet.elim
  | _ => exact not_false

/-- What was done to a draft deletes nothing which is public. -/
theorem kept_of_drafts
    {history : History}
    (drafts : ∀ event ∈ history, event.before.release = .draft) :
    Kept history := by
  intro event member published
  rw [drafts event member] at published
  cases published

/-- A deletion of what was published keeps it when it does not apply. -/
theorem kept_cons_iff
    {event : Step} {history : History}
    (published : event.before.release = .published)
    (drafts : ∀ event ∈ history, event.before.release = .draft) :
    Kept (event :: history) ↔
      event.after.release ≠ .deleted ∧
        (event.before.tagged = true → event.after.tagged = true) := by
  constructor
  · intro kept
    exact kept event List.mem_cons_self published
  · intro spared other member isPublished
    rcases List.mem_cons.mp member with rfl | member
    · exact spared
    · exact kept_of_drafts drafts other member isPublished

/-- Whether a deletion applies, when nothing before it does. -/
theorem deletion_applies_iff
    {tag : Text} {answer : Except Failure Unit} {before after : World}
    {history : History}
    (quiet : ∀ event ∈ history, ¬ DeletionApplies event) :
    (∃ event ∈
        (⟨(), .run (.delete tag), answer, before, after⟩ :: history :
          History),
      DeletionApplies event) ↔
      after.release = .deleted ∨
        (before.tagged = true ∧ after.tagged = false) := by
  constructor
  · rintro ⟨event, member, applies⟩
    rcases List.mem_cons.mp member with rfl | member
    · exact applies
    · exact absurd applies (quiet event member)
  · intro applies
    exact ⟨_, List.mem_cons_self, applies⟩

/-- Without a lost reply nothing which is public is deleted. -/
theorem kept_iff_of_replied
    {history : History}
    (drafts : ∀ event ∈ history, event.before.release = .draft)
    (replied : ∀ event ∈ history, ¬ ReplyLost event) :
    Kept history ↔
      ¬ ((∃ event ∈ history, ReplyLost event) ∧
        ∃ event ∈ history, DeletionApplies event) := by
  apply iff_of_true (kept_of_drafts drafts)
  rintro ⟨⟨event, member, lost⟩, _⟩
  exact replied event member lost

/-- After a lost reply it depends on the deletion. -/
theorem kept_iff_of_lost
    {tag : Text} {answer : Except Failure Unit} {before after : World}
    {history : History}
    (published : before.release = .published)
    (drafts : ∀ event ∈ history, event.before.release = .draft)
    (replyLost : ∃ event ∈ history, ReplyLost event)
    (quiet : ∀ event ∈ history, ¬ DeletionApplies event) :
    let deletion : Step := ⟨(), .run (.delete tag), answer, before, after⟩
    Kept (deletion :: history) ↔
      ¬ ((∃ event ∈ deletion :: history, ReplyLost event) ∧
        ∃ event ∈ deletion :: history, DeletionApplies event) := by
  intro deletion
  rw [kept_cons_iff published drafts, deletion_applies_iff quiet, not_and,
    not_or]
  constructor
  · rintro ⟨notDeleted, keepsTag⟩ _
    refine ⟨notDeleted, ?_⟩
    rintro ⟨isTagged, untagged⟩
    rw [keepsTag isTagged] at untagged
    cases untagged
  · intro notApplied
    rcases replyLost with ⟨event, member, lost⟩
    rcases notApplied ⟨event, List.mem_cons_of_mem _ member, lost⟩
      with ⟨notDeleted, keepsTag⟩
    refine ⟨notDeleted, ?_⟩
    intro isTagged
    by_contra untagged
    exact keepsTag ⟨isTagged, Bool.eq_false_iff.mpr untagged⟩

/--
A release which has become public is kept, with its tag, exactly unless the
reply of the publication is lost and the deletion which follows applies.
-/
theorem published_kept_iff
    (tools : Tools) (repoRoot : Path) (targets : List (Text × Text))
    (version : Text) (files : Path → Option Bytes) (tagged : Bool) :
    Ensures (calls tools) (uploadAndVerify repoRoot targets version).run
      (fun _ after =>
        Kept after.2 ↔
          ¬ ((∃ event ∈ after.2, ReplyLost event) ∧
            ∃ event ∈ after.2, DeletionApplies event))
      ({ files, release := .draft, tagged }, []) := by
  apply (ensures_uploadAndVerify targets version files .draft tagged).mono
  intro result after ends
  cases ends with
  | stopped raised _ still =>
      apply kept_iff_of_replied
      · exact fun event member => (still.2 event member).2
      · exact fun event member =>
          not_replyLost_of_quiet (still.2 event member).1
  | deleted _ before _ answer still deletes other =>
      rw [deletes.2]
      apply kept_iff_of_replied
      · rw [List.forall_mem_cons]
        exact ⟨still.1, fun event member => (still.2 event member).2⟩
      · rw [List.forall_mem_cons]
        exact ⟨not_false, fun event member =>
          not_replyLost_of_quiet (still.2 event member).1⟩
  | undrafted before _ answer still verified undrafts reported =>
      rw [undrafts.2]
      apply kept_iff_of_replied
      · rw [List.forall_mem_cons]
        exact ⟨still.1, fun event member => (still.2 event member).2⟩
      · rw [List.forall_mem_cons]
        refine ⟨?_, fun event member =>
          not_replyLost_of_quiet (still.2 event member).1⟩
        rintro ⟨_, failure, notInterrupt, failed⟩
        rcases reported with rfl | rfl
        · cases failed
        · cases failed
          exact notInterrupt rfl
  | lost _ before middle _ failure answer still verified undrafts reported
      deletes other =>
      have drafts :
          ∀ event ∈ middle.2, event.before.release = .draft := by
        rw [undrafts.2, List.forall_mem_cons]
        exact ⟨still.1, fun event member => (still.2 event member).2⟩
      rw [deletes.2]
      rcases undrafts.1 with unapplied | applied
      · apply kept_iff_of_replied
        · rw [List.forall_mem_cons]
          refine ⟨?_, drafts⟩
          rw [unapplied]
          exact still.1
        · rw [List.forall_mem_cons, undrafts.2, List.forall_mem_cons]
          refine ⟨not_false, ?_, fun event member =>
            not_replyLost_of_quiet (still.2 event member).1⟩
          rintro ⟨published, _⟩
          rw [unapplied, still.1] at published
          cases published
      · have published : middle.1.release = .published := by
          rw [applied]
        have replyLost : ∃ event ∈ middle.2, ReplyLost event := by
          rw [undrafts.2]
          exact ⟨_, List.mem_cons_self, published, failure, reported, rfl⟩
        have quiet : ∀ event ∈ middle.2, ¬ DeletionApplies event := by
          rw [undrafts.2, List.forall_mem_cons]
          exact ⟨not_false, fun event member =>
            not_deletionApplies_of_quiet (still.2 event member).1⟩
        exact kept_iff_of_lost published drafts replyLost quiet

/-! ## A run which deletes what it published -/

/-- Tools which accept whatever they are given. -/
def smallTools : Tools where
  sha256Hex _ := "e3b0".toList
  verifies _ _ _ := true

/-- A path for a temporary file, by number. -/
def tmp (number : Nat) : Path :=
  { absolute := true
    components := [.normal "tmp".toList, .normal (decimal number)] }

/-- The platforms which are released. -/
def releasedTargets : List (Text × Text) :=
  [("aarch64-apple-darwin".toList, "darwin-arm64".toList),
    ("x86_64-apple-darwin".toList, "darwin-x64".toList),
    ("aarch64-unknown-linux-musl".toList, "linux-arm64".toList),
    ("x86_64-unknown-linux-musl".toList, "linux-x64".toList)]

/--
Every operation succeeds, but the reply of the publication, which is applied,
is lost.
-/
def losingReply : Handler github World :=
  fun call world =>
    match call with
    | .readChecksums =>
        (.ok (releasedTargets.map fun target =>
          (target.2, "sha256:e3b0".toList)), world)
    | .pathExists _ => (.ok true, world)
    | .print _ => (.ok (), world)
    | .run (.upload _ _) => (.ok (), world)
    | .run (.undraft _) =>
        (.error (.exception "gh: connection reset".toList),
          { world with release := .published })
    | .run (.delete _) =>
        (.ok (), { world with release := .deleted, tagged := false })
    | .temporaryFile =>
        if world.files (tmp 0) = none then
          (.ok (tmp 0), world.place (tmp 0) (some []))
        else if world.files (tmp 1) = none then
          (.ok (tmp 1), world.place (tmp 1) (some []))
        else
          (.error (.osError "no temporary file".toList), world)
    | .ghDownload _ _ output =>
        (.ok { returncode := 0, stderr := [] },
          world.place output (some []))
    | .computeSha256 path =>
        match world.files path with
        | some bytes => (.ok (smallTools.sha256Hex bytes), world)
        | none => (.error (.osError "no such file".toList), world)
    | .minisignVerify target signature _ =>
        if (world.files target).isSome && (world.files signature).isSome then
          (.ok { returncode := 0, stderr := [] }, world)
        else
          (.ok { returncode := 1, stderr := [] }, world)
    | .unlink path => (.ok (), world.place path none)

theorem losingReply_admissible (call : Call) (world : World) :
    answers smallTools call world (losingReply call world).1
      (losingReply call world).2 := by
  cases call with
  | readChecksums => rfl
  | pathExists path => rfl
  | print line => rfl
  | run command =>
      cases command with
      | upload tag path => rfl
      | undraft tag => exact Or.inr rfl
      | delete tag => exact ⟨rfl, Or.inr rfl, Or.inr rfl⟩
  | temporaryFile =>
      by_cases first : world.files (tmp 0) = none
      · simp only [losingReply, first]
        exact ⟨first, rfl⟩
      · by_cases second : world.files (tmp 1) = none
        · simp only [losingReply, first, second]
          exact ⟨second, rfl⟩
        · simp only [losingReply, first, second]
          rfl
  | ghDownload tag assetName output =>
      exact ⟨some [], rfl, fun _ _ _ => rfl⟩
  | computeSha256 path =>
      simp only [losingReply]
      cases present : world.files path with
      | none => exact ⟨rfl, fun digest answered => by cases answered⟩
      | some bytes =>
          refine ⟨rfl, ?_⟩
          rintro digest ⟨⟩
          exact ⟨bytes, present, rfl⟩
  | minisignVerify target signature publicKey =>
      simp only [losingReply]
      split_ifs with both
      · rw [Bool.and_eq_true] at both
        rcases Option.isSome_iff_exists.mp both.1 with ⟨bytes, present⟩
        rcases Option.isSome_iff_exists.mp both.2 with ⟨others, found⟩
        exact ⟨rfl, fun _ _ _ => ⟨bytes, others, present, found, rfl⟩⟩
      · refine ⟨rfl, ?_⟩
        rintro finished ⟨⟩ succeeded
        cases succeeded
  | unlink path => exact Or.inr rfl

/-- The handler, recorded. -/
def recordedReply : Handler github Log :=
  fun call log =>
    let (answer, after) := losingReply call log.1
    (answer, after, ⟨(), call, answer, log.1, after⟩ :: log.2)

/-- The root of a repository. -/
def smallRoot : Path :=
  { absolute := true, components := [.normal "repository".toList] }

/-- A release which became public is deleted, since its reply was lost. -/
theorem published_release_deleted :
    ∃ result after,
      Runs (calls smallTools)
          (uploadAndVerify smallRoot releasedTargets "0.1.0".toList).run
          ({ files := fun _ => none, release := .draft, tagged := true }, [])
          result after ∧
        ¬ Kept after.2 := by
  have admissible : ∀ call log,
      calls smallTools call log (recordedReply call log).1
        (recordedReply call log).2 := by
    intro call log
    exact ⟨losingReply_admissible call log.1, rfl⟩
  refine ⟨_, _, runs_execute admissible _ _, ?_⟩
  intro kept
  have last :
      ((uploadAndVerify smallRoot releasedTargets
        "0.1.0".toList).run.execute recordedReply
          ({ files := fun _ => none, release := .draft, tagged := true },
            [])).2.2.head?.map
              (fun event => (event.before.release, event.after.release)) =
        some (.published, .deleted) := by
    decide +kernel
  rcases Option.map_eq_some_iff.mp last with ⟨event, isLast, states⟩
  rw [Prod.mk.injEq] at states
  exact (kept event (List.mem_of_mem_head? isLast) states.1).1 states.2

end Luminosity.Tasks.Publication
