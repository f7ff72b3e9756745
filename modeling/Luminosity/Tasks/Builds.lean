import Luminosity.Tasks.LinkGate
import Luminosity.Tasks.VersionFiles

/-!
# The release builds

A release build compiles the launcher for each target, checks what the tools
report of the binary, and only then copies it next to the manifests.  The
digests are recorded when every target is there.

So the recorded digests are those of binaries which passed their checks, and
until all of them have, the checksums file is as it was.
-/

namespace Luminosity.Tasks.Builds

open Luminosity.Foundation.TextSegments
open Luminosity.Foundation.LineBreaks (occursIn)
open Luminosity.Foundation.EffectPrograms
open Luminosity.Foundation.Exceptions
open Luminosity.Foundation.Interruptions
open Luminosity.Foundation.JsonValues
open Luminosity.Host.Paths
open Luminosity.Tasks.Github (binDir binaryPath debugArchivePath)
open Luminosity.Tasks.LinkGate (linksOnlySystemLibraries)
open Luminosity.Tasks.Workspace
open Luminosity.Tasks.VersionFiles

/-! ## Targets -/

/-- The release triples, each with its platform. -/
def targets : List (Text × Text) :=
  [("aarch64-apple-darwin".toList, "darwin-arm64".toList),
    ("x86_64-apple-darwin".toList, "darwin-x64".toList),
    ("aarch64-unknown-linux-musl".toList, "linux-arm64".toList),
    ("x86_64-unknown-linux-musl".toList, "linux-x64".toList)]

def macosDeploymentTarget : Text := "11.0".toList

def launcherCrate : Text := "luminosity".toList

def shimCrate : Text := "luminosity-verify".toList

/-- The part of a triple which names the operating system. -/
def hostOsMarkers : List (Text × Text) :=
  [("Darwin".toList, "apple-darwin".toList),
    ("Linux".toList, "unknown-linux".toList)]

/-- The part of a triple which names the architecture. -/
def hostArchMarkers : List (Text × Text) :=
  [("arm64".toList, "aarch64".toList), ("aarch64".toList, "aarch64".toList),
    ("x86_64".toList, "x86_64".toList), ("AMD64".toList, "x86_64".toList)]

/-- A text between quotes. -/
def quoted (text : Text) : Text :=
  '\'' :: text ++ ['\'']

/-- The names of a table, in one text. -/
def supported (markers : List (Text × Text)) : Text :=
  ", ".toList.intercalate (markers.map Prod.fst)

/-- `host_targets`. -/
def hostTargets (system : Text) : Except Raised (List Text) :=
  match hostOsMarkers.lookup system with
  | none =>
      .error (.exit
        ("build:launcher: unsupported host OS ".toList ++ quoted system ++
          "; supported: ".toList ++ supported hostOsMarkers) 1)
  | some marker =>
      .ok ((targets.map Prod.fst).filter fun triple => occursIn marker triple)

/-- `host_triple`. -/
def hostTriple (system machine : Text) : Except Raised Text :=
  match hostArchMarkers.lookup machine with
  | none =>
      .error (.exit
        ("unsupported host architecture ".toList ++ quoted machine ++
          "; supported: ".toList ++ supported hostArchMarkers) 1)
  | some arch => do
      let triples ← hostTargets system
      match triples.find? fun triple => arch.isPrefixOf triple with
      | some triple => return triple
      | none =>
          throw (.exit
            ("no release triple for host ".toList ++ quoted system ++
              "/".toList ++ quoted machine) 1)

/-! ## What the tools print -/

/-- `is_statically_linked`. -/
def isStaticallyLinked (fileOutput : Text) (lddOutput : Option Text) : Bool :=
  if occursIn "statically linked".toList fileOutput ||
      occursIn "static-pie linked".toList fileOutput then
    true
  else
    match lddOutput with
    | none => false
    | some output =>
        occursIn "not a dynamic executable".toList output ||
          occursIn "statically linked".toList output

/-- `arch_output.replace("x86-64", "x86_64")`. -/
def normalisedArch : Text → Text
  | 'x' :: '8' :: '6' :: '-' :: '6' :: '4' :: rest =>
      "x86_64".toList ++ normalisedArch rest
  | character :: rest => character :: normalisedArch rest
  | [] => []

/-- `has_expected_arch`. -/
def hasExpectedArch (triple archOutput : Text) : Bool :=
  let normalised := normalisedArch archOutput
  let expected :=
    if occursIn "x86_64".toList triple then "x86_64".toList
    else "arm64".toList
  let other :=
    if expected = "arm64".toList then "x86_64".toList else "arm64".toList
  occursIn expected normalised && !occursIn other normalised

/-! ## Checks -/

/-- How a binary is checked. -/
inductive Strategy
  | muslWithLdd
  | muslWithFile
  | darwinWithLipoOtool
  | darwinWithObjdump
deriving DecidableEq, Repr

/-- `_target_family`. -/
def targetFamily (triple : Text) : Text :=
  if occursIn "unknown-linux".toList triple then "musl".toList
  else "darwin".toList

/-- `_VERIFY_STRATEGIES`. -/
def verifyStrategies : List ((Text × Text) × Strategy) :=
  [(("Darwin".toList, "darwin".toList), .darwinWithLipoOtool),
    (("Darwin".toList, "musl".toList), .muslWithFile),
    (("Linux".toList, "darwin".toList), .darwinWithObjdump),
    (("Linux".toList, "musl".toList), .muslWithLdd)]

def notStatic (triple : Text) : Raised :=
  .exit ("release binary is not statically linked: ".toList ++ triple) 1

def wrongArch (triple : Text) : Raised :=
  .exit ("release binary has the wrong arch: ".toList ++ triple) 1

def nonSystemLibraries (triple : Text) : Raised :=
  .exit ("release binary links non-system libraries: ".toList ++ triple) 1

/-- Go on if the check passes. -/
def require (passes : Bool) (raised : Raised) : WorkspaceTask Unit :=
  if passes then pure () else throw raised

/-- What a tool prints of a binary. -/
def inspect (inspector : Inspector) (binary : Path) : WorkspaceTask Result :=
  issue (.run (.inspect inspector binary))

/-- `_verify_musl_with_ldd`. -/
def verifyMuslWithLdd (binary : Path) (triple : Text) :
    WorkspaceTask Unit := do
  let file ← inspect .file binary
  let ldd ← inspect .ldd binary
  let lddOutput := ldd.stdout ++ '\n' :: ldd.stderr
  require (isStaticallyLinked file.stdout (some lddOutput)) (notStatic triple)

/-- `_verify_musl_with_file`. -/
def verifyMuslWithFile (binary : Path) (triple : Text) :
    WorkspaceTask Unit := do
  let file ← inspect .file binary
  require (isStaticallyLinked file.stdout none) (notStatic triple)

/-- Both checks of a darwin binary, each with its tool. -/
def verifyDarwin (arch link : Inspector) (binary : Path) (triple : Text) :
    WorkspaceTask Unit := do
  let archResult ← inspect arch binary
  require (hasExpectedArch triple archResult.stdout) (wrongArch triple)
  let linkResult ← inspect link binary
  require (linksOnlySystemLibraries linkResult.stdout)
    (nonSystemLibraries triple)

/-- `_verify_darwin_with_lipo_otool`. -/
def verifyDarwinWithLipoOtool : Path → Text → WorkspaceTask Unit :=
  verifyDarwin .lipo .otool

/-- `_verify_darwin_with_objdump`. -/
def verifyDarwinWithObjdump : Path → Text → WorkspaceTask Unit :=
  verifyDarwin .objdump .dylibsUsed

def Strategy.verify : Strategy → Path → Text → WorkspaceTask Unit
  | .muslWithLdd => verifyMuslWithLdd
  | .muslWithFile => verifyMuslWithFile
  | .darwinWithLipoOtool => verifyDarwinWithLipoOtool
  | .darwinWithObjdump => verifyDarwinWithObjdump

section Tasks

variable (formats : Formats) (sha256Hex : Bytes → Text) (repoRoot : Path)

/-- `_verify_output`. -/
def verifyOutput (triple hostSystem : Text) : WorkspaceTask Unit :=
  match verifyStrategies.lookup (hostSystem, targetFamily triple) with
  | none =>
      throw (.exit
        ("no verification strategy for host ".toList ++ quoted hostSystem ++
          " building ".toList ++ triple) 1)
  | some strategy =>
      strategy.verify (builtPath repoRoot launcherCrate triple) triple

/-! ## Builds -/

/-- A build, and what is raised when it fails. -/
def compile (command : Command) (raised : Raised) : WorkspaceTask Unit := do
  let result ← issue (.run command)
  require ((result : Result).exited == 0) raised

def buildFailed (triple : Text) : Raised :=
  .exit ("release build failed: ".toList ++ triple) 1

def shimFailed (triple : Text) : Raised :=
  .exit ("shim build failed: ".toList ++ triple) 1

/-- `_release_build_triple`. -/
def releaseBuildTriple (triple hostSystem : Text) : WorkspaceTask Unit := do
  compile (.build launcherCrate triple) (buildFailed triple)
  verifyOutput repoRoot triple hostSystem

/-- `build.launcher`. -/
def launcher : WorkspaceTask Unit := do
  let hostSystem ← issue .system
  let triples ← liftM (hostTargets hostSystem)
  forEach (fun triple => releaseBuildTriple repoRoot triple hostSystem)
    triples

/-- `build.launcher_host`. -/
def launcherHost : WorkspaceTask Unit := do
  let hostSystem ← issue .system
  let machine ← issue .machine
  let triple ← liftM (hostTriple hostSystem machine)
  releaseBuildTriple repoRoot triple hostSystem

/-- `_release_build_env`. -/
def releaseBuildEnv (triple : Text) : List (Text × Text) :=
  if occursIn "apple-darwin".toList triple then
    [("MACOSX_DEPLOYMENT_TARGET".toList, macosDeploymentTarget)]
  else
    []

/-- `compute_sha256`. -/
def computeSha256 (path : Path) : WorkspaceTask Text := do
  let bytes ← issue (.readBytes path)
  return sha256Hex bytes

/-- `_stage_artifacts`. -/
def stageArtifacts (triple platform : Text) : WorkspaceTask Text := do
  let destination := binaryPath repoRoot platform
  issue (.makeDirectories (binDir repoRoot))
  runChecked (.copy (builtPath repoRoot launcherCrate triple) destination)
  runChecked (.archive (debugArchivePath repoRoot platform) (binDir repoRoot)
    ("luminosity-".toList ++ platform))
  computeSha256 sha256Hex destination

/-- `_build_and_stage_shim`. -/
def buildAndStageShim (triple platform : Text) : WorkspaceTask Unit := do
  compile (.zigbuild shimCrate triple (releaseBuildEnv triple))
    (shimFailed triple)
  issue (.makeDirectories (repoRoot.join "bin".toList))
  runChecked (.copy (builtPath repoRoot shimCrate triple)
    (shimPath repoRoot platform))

/-- What the release does for one target. -/
def releaseTarget (hostSystem : Text) (target : Text × Text) :
    WorkspaceTask Text := do
  compile (.zigbuild launcherCrate target.1 (releaseBuildEnv target.1))
    (buildFailed target.1)
  verifyOutput repoRoot target.1 hostSystem
  let digest ← stageArtifacts sha256Hex repoRoot target.1 target.2
  buildAndStageShim repoRoot target.1 target.2
  return digest

/-- The loop over the targets, with the digests so far. -/
def releaseTargets (hostSystem : Text) :
    List (Text × Text) → List (Text × Text) →
      WorkspaceTask (List (Text × Text))
  | [], digests => return digests
  | target :: later, digests => do
      let digest ← releaseTarget sha256Hex repoRoot hostSystem target
      releaseTargets hostSystem later (setItem target.2 digest digests)

/-- The digests, as the checksums file has them. -/
def digestFields (digests : List (Text × Text)) : Json :=
  .object (digests.map fun digest =>
    (digest.1, .string ("sha256:".toList ++ digest.2)))

/-- `_write_checksums`. -/
def writeChecksums (digests : List (Text × Text)) : WorkspaceTask Unit := do
  let text ← issue (.readText (checksums repoRoot))
  let data ← liftM (loads formats text)
  let data ← liftM (assignItem "binaries".toList (digestFields digests) data)
  let written ← liftM (dumps formats data)
  atomicWriteText (checksums repoRoot) (written ++ ['\n'])

/-- `build.release`. -/
def release : WorkspaceTask Unit := do
  let hostSystem ← issue .system
  let digests ← releaseTargets sha256Hex repoRoot hostSystem targets []
  writeChecksums formats repoRoot digests

end Tasks

/-! ## What a binary passed -/

section Passed

variable (tools : Tools)

/-- The tools report of the bytes what the strategy asks for. -/
def Strategy.Passed (triple : Text) (bytes : Bytes) : Strategy → Prop
  | .muslWithLdd =>
      ∃ file ldd : Result, tools.reports .file bytes file ∧
        tools.reports .ldd bytes ldd ∧
          isStaticallyLinked file.stdout
            (some (ldd.stdout ++ '\n' :: ldd.stderr)) = true
  | .muslWithFile =>
      ∃ file : Result, tools.reports .file bytes file ∧
        isStaticallyLinked file.stdout none = true
  | .darwinWithLipoOtool =>
      ∃ arch link : Result, tools.reports .lipo bytes arch ∧
        hasExpectedArch triple arch.stdout = true ∧
          tools.reports .otool bytes link ∧
            linksOnlySystemLibraries link.stdout = true
  | .darwinWithObjdump =>
      ∃ arch link : Result, tools.reports .objdump bytes arch ∧
        hasExpectedArch triple arch.stdout = true ∧
          tools.reports .dylibsUsed bytes link ∧
            linksOnlySystemLibraries link.stdout = true

/-- The bytes passed the checks of a host for a triple. -/
def Passed (hostSystem triple : Text) (bytes : Bytes) : Prop :=
  ∃ strategy,
    verifyStrategies.lookup (hostSystem, targetFamily triple) =
        some strategy ∧
      strategy.Passed tools triple bytes

end Passed

section Checks

variable {repoRoot : Path} {tools : Tools} {before : World}

theorem ensures_require
    (passes : Bool) (raised : Raised) :
    Ensures (answers repoRoot tools) (require passes raised).run
      (WhenOk fun _ after => after = before ∧ passes = true) before := by
  cases passes with
  | true => exact ⟨rfl, rfl⟩
  | false => trivial

/-- The command succeeds from one world to another one. -/
def Succeeds (repoRoot : Path) (tools : Tools) (command : Command)
    (before after : World) : Prop :=
  ∃ result : Result,
    answers repoRoot tools (.run command) before (.ok result) after ∧
      result.exited = 0

theorem ensures_compile (command : Command) (raised : Raised) :
    Ensures (answers repoRoot tools) (compile command raised).run
      (WhenOk fun _ after => Succeeds repoRoot tools command before after)
      before := by
  rw [compile, ensures_run_bind, ensures_issue]
  intro answer after step
  cases answer with
  | error failure => trivial
  | ok result =>
      apply (ensures_require _ _).mono
      intro passed last holds
      cases passed with
      | error raised => trivial
      | ok _ =>
          rcases holds with ⟨rfl, success⟩
          exact ⟨result, step, beq_iff_eq.mp success⟩

/-- What a tool prints is what it reports of the bytes. -/
theorem ensures_inspect (inspector : Inspector) (binary : Path) :
    Ensures (answers repoRoot tools) (inspect inspector binary).run
      (WhenOk fun result after => after = before ∧
        ∀ bytes, before binary = some bytes →
          tools.reports inspector bytes result)
      before := by
  rw [inspect, ensures_issue]
  rintro answer _ ⟨rfl, reports⟩
  cases answer with
  | ok result => exact ⟨rfl, reports result rfl⟩
  | error failure => trivial

theorem ensures_verifyDarwin
    (arch link : Inspector) (binary : Path) (triple : Text) :
    Ensures (answers repoRoot tools) (verifyDarwin arch link binary triple).run
      (WhenOk fun _ after => after = before ∧
        ∀ bytes, before binary = some bytes →
          ∃ archResult linkResult : Result,
            tools.reports arch bytes archResult ∧
              hasExpectedArch triple archResult.stdout = true ∧
                tools.reports link bytes linkResult ∧
                  linksOnlySystemLibraries linkResult.stdout = true)
      before := by
  apply Ensures.succeeds (ensures_inspect arch binary)
  rintro archResult _ ⟨rfl, archReports⟩
  apply Ensures.succeeds (ensures_require _ _)
  rintro _ _ ⟨rfl, expected⟩
  apply Ensures.succeeds (ensures_inspect link binary)
  rintro linkResult _ ⟨rfl, linkReports⟩
  apply (ensures_require _ _).mono
  intro result after holds
  cases result with
  | error raised => trivial
  | ok _ =>
      rcases holds with ⟨rfl, system⟩
      refine ⟨rfl, ?_⟩
      intro bytes present
      exact ⟨archResult, linkResult, archReports bytes present, expected,
        linkReports bytes present, system⟩

theorem ensures_verify
    (strategy : Strategy) (binary : Path) (triple : Text) :
    Ensures (answers repoRoot tools) (strategy.verify binary triple).run
      (WhenOk fun _ after => after = before ∧
        ∀ bytes, before binary = some bytes →
          strategy.Passed tools triple bytes)
      before := by
  cases strategy with
  | muslWithLdd =>
      apply Ensures.succeeds (ensures_inspect .file binary)
      rintro file _ ⟨rfl, fileReports⟩
      apply Ensures.succeeds (ensures_inspect .ldd binary)
      rintro ldd _ ⟨rfl, lddReports⟩
      apply (ensures_require _ _).mono
      intro result after holds
      cases result with
      | error raised => trivial
      | ok _ =>
          rcases holds with ⟨rfl, static⟩
          refine ⟨rfl, ?_⟩
          intro bytes present
          exact ⟨file, ldd, fileReports bytes present,
            lddReports bytes present, static⟩
  | muslWithFile =>
      apply Ensures.succeeds (ensures_inspect .file binary)
      rintro file _ ⟨rfl, fileReports⟩
      apply (ensures_require _ _).mono
      intro result after holds
      cases result with
      | error raised => trivial
      | ok _ =>
          rcases holds with ⟨rfl, static⟩
          refine ⟨rfl, ?_⟩
          intro bytes present
          exact ⟨file, fileReports bytes present, static⟩
  | darwinWithLipoOtool => exact ensures_verifyDarwin _ _ binary triple
  | darwinWithObjdump => exact ensures_verifyDarwin _ _ binary triple

theorem ensures_verifyOutput (triple hostSystem : Text) :
    Ensures (answers repoRoot tools)
      (verifyOutput repoRoot triple hostSystem).run
      (WhenOk fun _ after => after = before ∧
        ∀ bytes,
          before (builtPath repoRoot launcherCrate triple) = some bytes →
            Passed tools hostSystem triple bytes)
      before := by
  rw [verifyOutput]
  cases found :
      verifyStrategies.lookup (hostSystem, targetFamily triple) with
  | none => trivial
  | some strategy =>
      apply (ensures_verify strategy _ triple).mono
      intro result after holds
      cases result with
      | error raised => trivial
      | ok _ =>
          refine ⟨holds.1, ?_⟩
          intro bytes present
          exact ⟨strategy, found, holds.2 bytes present⟩

/-! ### Builds for the host -/

/-- The binary of the triple passed its checks in a world which was reached. -/
def CheckedOnce (repoRoot : Path) (tools : Tools) (reached : World → Prop)
    (triple : Text) : Prop :=
  ∃ moment, reached moment ∧
    ∀ bytes,
      moment (builtPath repoRoot launcherCrate triple) = some bytes →
        Passed tools tools.hostSystem triple bytes

theorem ensures_releaseBuildTriple (triple : Text) :
    Ensures (answers repoRoot tools)
      (releaseBuildTriple repoRoot triple tools.hostSystem).run
      (WhenOk fun _ after => ∀ bytes,
        after (builtPath repoRoot launcherCrate triple) = some bytes →
          Passed tools tools.hostSystem triple bytes)
      before := by
  apply Ensures.succeeds (ensures_compile _ _)
  intro _ built _
  apply (ensures_verifyOutput triple tools.hostSystem).mono
  intro result after holds
  cases result with
  | error raised => trivial
  | ok _ =>
      rcases holds with ⟨rfl, passed⟩
      exact passed

/-- Every triple of a host is a target which the host can check. -/
theorem hostTargets_checked
    {system : Text} {triples : List Text}
    (found : hostTargets system = .ok triples) {triple : Text}
    (member : triple ∈ triples) :
    triple ∈ targets.map Prod.fst ∧
      ∃ strategy,
        verifyStrategies.lookup (system, targetFamily triple) =
          some strategy := by
  have known :
      ∀ marker ∈ hostOsMarkers, ∀ triple ∈ targets.map Prod.fst,
        occursIn marker.2 triple = true →
          (verifyStrategies.lookup
            (marker.1, targetFamily triple)).isSome = true := by
    decide
  rw [hostTargets] at found
  cases marked : hostOsMarkers.lookup system with
  | none =>
      rw [marked] at found
      cases found
  | some marker =>
      rw [marked] at found
      cases found
      rcases List.mem_filter.mp member with ⟨isTarget, occurs⟩
      rcases List.lookup_eq_some_iff.mp marked with ⟨earlier, later, split, _⟩
      have entry : (system, marker) ∈ hostOsMarkers := by
        rw [split]
        simp
      exact ⟨isTarget,
        Option.isSome_iff_exists.mp (known _ entry triple isTarget occurs)⟩

/-- The triple of a host is among its targets. -/
theorem hostTriple_mem
    {system machine triple : Text}
    (found : hostTriple system machine = .ok triple) :
    ∃ triples, hostTargets system = .ok triples ∧ triple ∈ triples := by
  rw [hostTriple] at found
  cases known : hostArchMarkers.lookup machine with
  | none =>
      rw [known] at found
      cases found
  | some arch =>
      rw [known] at found
      rcases except_bind_ok.mp found with ⟨triples, listed, chosen⟩
      refine ⟨triples, listed, ?_⟩
      cases first : triples.find? (fun triple => arch.isPrefixOf triple) with
      | none =>
          rw [first] at chosen
          cases chosen
      | some other =>
          rw [first] at chosen
          cases chosen
          exact List.mem_of_find?_eq_some first

/-- The binary built for the host passed the checks of its triple. -/
theorem ensures_launcherHost :
    Ensures (answers repoRoot tools) (launcherHost repoRoot).run
      (WhenOk fun _ after => ∃ triple,
        hostTriple tools.hostSystem tools.hostMachine = .ok triple ∧
          ∀ bytes,
            after (builtPath repoRoot launcherCrate triple) = some bytes →
              Passed tools tools.hostSystem triple bytes)
      before := by
  rw [launcherHost, ensures_run_bind, ensures_issue]
  rintro answer _ ⟨rfl, isSystem⟩
  cases answer with
  | error failure => trivial
  | ok system =>
      cases isSystem system rfl
      rw [onOk_ok, onOk_ok, ensures_run_bind, ensures_issue]
      rintro answer _ ⟨rfl, isMachine⟩
      cases answer with
      | error failure => trivial
      | ok machine =>
          cases isMachine machine rfl
          rw [onOk_ok, onOk_ok, ensures_run_bind, ensures_run_except]
          cases found : hostTriple tools.hostSystem tools.hostMachine with
          | error raised => trivial
          | ok triple =>
              apply (ensures_releaseBuildTriple triple).mono
              intro result after passed
              cases result with
              | error raised => trivial
              | ok _ => exact ⟨triple, rfl, passed⟩

section Reaching

variable {reached : World → Prop} {post : Except Raised Unit → World → Prop}

theorem ensures_hostBuilds
    {triples : List Text}
    (reaching : Sustains (answers repoRoot tools) reached
      (forEach
        (fun triple => releaseBuildTriple repoRoot triple tools.hostSystem)
        triples).run
      post before) :
    Ensures (answers repoRoot tools)
      (forEach
        (fun triple => releaseBuildTriple repoRoot triple tools.hostSystem)
        triples).run
      (WhenOk fun _ _ =>
        ∀ triple ∈ triples, CheckedOnce repoRoot tools reached triple)
      before := by
  induction triples generalizing before with
  | nil =>
      intro triple member
      cases member
  | cons triple later induction =>
      rw [forEach, sustains_run_bind] at reaching
      rw [forEach, ensures_run_bind]
      apply ((ensures_releaseBuildTriple triple).and reaching.ensures).mono
      rintro result middle ⟨passed, goesOn⟩
      cases result with
      | error raised => trivial
      | ok _ =>
          apply (induction goesOn).mono
          intro ended after others
          cases ended with
          | error raised => trivial
          | ok _ =>
              intro other member
              rcases List.mem_cons.mp member with rfl | member
              · exact ⟨middle, Sustains.now goesOn, passed⟩
              · exact others other member

/-- Every binary built on a host for its system passed its checks. -/
theorem ensures_launcher
    (reaching : Sustains (answers repoRoot tools) reached
      (launcher repoRoot).run post before) :
    Ensures (answers repoRoot tools) (launcher repoRoot).run
      (WhenOk fun _ _ => ∃ triples,
        hostTargets tools.hostSystem = .ok triples ∧
          ∀ triple ∈ triples, CheckedOnce repoRoot tools reached triple)
      before := by
  rw [launcher, sustains_run_bind, sustains_issue] at reaching
  rw [launcher, ensures_run_bind, ensures_issue]
  intro answer after step
  have goesOn := (reaching.2 answer after step).2
  cases answer with
  | error failure => trivial
  | ok system =>
      cases step.2 system rfl
      rw [onOk_ok, onOk_ok, sustains_run_bind, sustains_run_except] at goesOn
      rw [onOk_ok, onOk_ok, ensures_run_bind, ensures_run_except]
      cases found : hostTargets tools.hostSystem with
      | error raised => trivial
      | ok triples =>
          rw [found] at goesOn
          apply (ensures_hostBuilds goesOn.2).mono
          intro result last checked
          cases result with
          | error raised => trivial
          | ok _ => exact ⟨triples, rfl, checked⟩

end Reaching

end Checks

/-! ## What a target touches -/

section Frames

variable (repoRoot : Path)

/-- The paths at which the release of a target may leave something else. -/
def Touched (target : Text × Text) (path : Path) : Prop :=
  path.startsWith ((workspaceRoot repoRoot).join "target".toList) = true ∨
    path = binaryPath repoRoot target.2 ∨
      path = debugArchivePath repoRoot target.2 ∨
        path = shimPath repoRoot target.2

/-- The paths at which the shim of a platform may leave something else. -/
def TouchedByShim (platform : Text) (path : Path) : Prop :=
  path.startsWith ((workspaceRoot repoRoot).join "target".toList) = true ∨
    path = shimPath repoRoot platform

/-- What any of the targets touches. -/
def TouchedByAny (path : Path) : Prop :=
  ∃ target ∈ targets, Touched repoRoot target path

variable {repoRoot} {tools : Tools} {paths : Path → Prop}

theorem touches_zigbuild
    (within : ∀ path : Path,
      path.startsWith ((workspaceRoot repoRoot).join "target".toList) =
          true → paths path)
    (crate triple : Text) (environment : List (Text × Text)) :
    Touches repoRoot tools paths
      (.run (.zigbuild crate triple environment)) := by
  intro before answer after step
  exact SameOff.widen step within

theorem touches_copy
    {destination : Path} (touched : paths destination) (source : Path) :
    Touches repoRoot tools paths (.run (.copy source destination)) := by
  rintro before answer _ ⟨left, rfl, _⟩
  apply (sameOff_update before destination left).widen
  rintro path rfl
  exact touched

theorem touches_archive
    {archive : Path} (touched : paths archive) (directory : Path)
    (name : Text) :
    Touches repoRoot tools paths
      (.run (.archive archive directory name)) := by
  rintro before answer _ ⟨left, rfl⟩
  apply (sameOff_update before archive left).widen
  rintro path rfl
  exact touched

theorem touches_makeDirectories (directory : Path) :
    Touches repoRoot tools paths (.makeDirectories directory) := by
  rintro before answer _ rfl
  exact SameOff.refl paths _

theorem touches_system : Touches repoRoot tools paths .system := by
  rintro before answer _ ⟨rfl, _⟩
  exact SameOff.refl paths _

theorem touches_readBytes (path : Path) :
    Touches repoRoot tools paths (.readBytes path) := by
  rintro before answer _ ⟨rfl, _⟩
  exact SameOff.refl paths _

theorem asks_require
    {allowed : Call → Prop} (passes : Bool) (raised : Raised) :
    Asks allowed (require passes raised).run := by
  cases passes <;> trivial

theorem asks_inspect (inspector : Inspector) (binary : Path) :
    Asks (Touches repoRoot tools paths) (inspect inspector binary).run := by
  apply asks_issue.mpr
  rintro before answer _ ⟨rfl, _⟩
  exact SameOff.refl paths _

theorem asks_verifyDarwin
    (arch link : Inspector) (binary : Path) (triple : Text) :
    Asks (Touches repoRoot tools paths)
      (verifyDarwin arch link binary triple).run := by
  apply Asks.run_bind (asks_inspect arch binary)
  intro archResult
  apply Asks.run_bind (asks_require _ _)
  intro _
  apply Asks.run_bind (asks_inspect link binary)
  intro linkResult
  exact asks_require _ _

theorem asks_verifyOutput (triple hostSystem : Text) :
    Asks (Touches repoRoot tools paths)
      (verifyOutput repoRoot triple hostSystem).run := by
  rw [verifyOutput]
  cases verifyStrategies.lookup (hostSystem, targetFamily triple) with
  | none => trivial
  | some strategy =>
      cases strategy with
      | muslWithLdd =>
          apply Asks.run_bind (asks_inspect .file _)
          intro file
          apply Asks.run_bind (asks_inspect .ldd _)
          intro ldd
          exact asks_require _ _
      | muslWithFile =>
          apply Asks.run_bind (asks_inspect .file _)
          intro file
          exact asks_require _ _
      | darwinWithLipoOtool => exact asks_verifyDarwin _ _ _ triple
      | darwinWithObjdump => exact asks_verifyDarwin _ _ _ triple

theorem asks_runChecked
    {allowed : Call → Prop} {command : Command}
    (holds : allowed (.run command)) :
    Asks allowed (runChecked command).run := by
  apply Asks.run_bind (asks_issue.mpr holds)
  intro result
  split_ifs <;> trivial

theorem asks_compile
    {allowed : Call → Prop} {command : Command} (raised : Raised)
    (holds : allowed (.run command)) :
    Asks allowed (compile command raised).run := by
  apply Asks.run_bind (asks_issue.mpr holds)
  intro result
  exact asks_require _ _

variable (sha256Hex : Bytes → Text)

theorem asks_stageArtifacts (triple platform : Text) :
    Asks (Touches repoRoot tools (Touched repoRoot (triple, platform)))
      (stageArtifacts sha256Hex repoRoot triple platform).run := by
  apply Asks.run_bind (asks_issue.mpr (touches_makeDirectories _))
  intro _
  apply Asks.run_bind (asks_runChecked (touches_copy (Or.inr (Or.inl rfl)) _))
  intro _
  apply Asks.run_bind
    (asks_runChecked (touches_archive (Or.inr (Or.inr (Or.inl rfl))) _ _))
  intro _
  apply Asks.run_bind (asks_issue.mpr (touches_readBytes _))
  intro bytes
  trivial

theorem asks_buildAndStageShim (triple platform : Text) :
    Asks (Touches repoRoot tools (TouchedByShim repoRoot platform))
      (buildAndStageShim repoRoot triple platform).run := by
  apply Asks.run_bind
    (asks_compile _ (touches_zigbuild (fun _ => Or.inl) _ _ _))
  intro _
  apply Asks.run_bind (asks_issue.mpr (touches_makeDirectories _))
  intro _
  exact asks_runChecked (touches_copy (Or.inr rfl) _)

/-- The release of a target touches what belongs to the target. -/
theorem asks_releaseTarget (hostSystem : Text) (target : Text × Text) :
    Asks (Touches repoRoot tools (Touched repoRoot target))
      (releaseTarget sha256Hex repoRoot hostSystem target).run := by
  apply Asks.run_bind
    (asks_compile _ (touches_zigbuild (fun _ => Or.inl) _ _ _))
  intro _
  apply Asks.run_bind (asks_verifyOutput _ _)
  intro _
  apply Asks.run_bind (asks_stageArtifacts sha256Hex target.1 target.2)
  intro digest
  have shim :
      Asks (Touches repoRoot tools (Touched repoRoot target))
        (buildAndStageShim repoRoot target.1 target.2).run := by
    apply (asks_buildAndStageShim target.1 target.2).mono
    intro call touches before answer after step
    apply (touches before answer after step).widen
    rintro path (inside | shim)
    · exact Or.inl inside
    · exact Or.inr (Or.inr (Or.inr shim))
  apply Asks.run_bind shim
  intro _
  trivial

theorem asks_releaseTargets
    (hostSystem : Text) (list digests : List (Text × Text))
    (known : ∀ target ∈ list, target ∈ targets) :
    Asks (Touches repoRoot tools (TouchedByAny repoRoot))
      (releaseTargets sha256Hex repoRoot hostSystem list digests).run := by
  induction list generalizing digests with
  | nil => trivial
  | cons target later induction =>
      have own :
          Asks (Touches repoRoot tools (TouchedByAny repoRoot))
            (releaseTarget sha256Hex repoRoot hostSystem target).run := by
        apply (asks_releaseTarget sha256Hex hostSystem target).mono
        intro call touches before answer after step
        apply (touches before answer after step).widen
        intro path touched
        exact ⟨target, known target List.mem_cons_self, touched⟩
      apply Asks.run_bind own
      intro digest
      exact induction _ fun other member =>
        known other (List.mem_cons_of_mem _ member)

end Frames

/-! ## Where things are -/

section Places

variable (repoRoot : Path)

/-- The names of a target's files are names. -/
theorem plain_of_target
    {target : Text × Text} (member : target ∈ targets) :
    Plain ("luminosity-".toList ++ target.2) ∧
      Plain ("luminosity-".toList ++ target.2 ++ ".debug.tar.gz".toList) ∧
        Plain ("luminosity-verify-".toList ++ target.2) := by
  have plain :
      ∀ target ∈ targets,
        Plain ("luminosity-".toList ++ target.2) ∧
          Plain
              ("luminosity-".toList ++ target.2 ++
                ".debug.tar.gz".toList) ∧
            Plain ("luminosity-verify-".toList ++ target.2) := by decide
  exact plain target member

theorem binaryPath_eq {target : Text × Text} (member : target ∈ targets) :
    binaryPath repoRoot target.2 =
      (binDir repoRoot).child ("luminosity-".toList ++ target.2) :=
  join_plain _ (plain_of_target member).1

theorem debugArchivePath_eq
    {target : Text × Text} (member : target ∈ targets) :
    debugArchivePath repoRoot target.2 =
      (binDir repoRoot).child
        ("luminosity-".toList ++ target.2 ++ ".debug.tar.gz".toList) :=
  join_plain _ (plain_of_target member).2.1

theorem shimPath_eq {target : Text × Text} (member : target ∈ targets) :
    shimPath repoRoot target.2 =
      (repoRoot.child "bin".toList).child
        ("luminosity-verify-".toList ++ target.2) := by
  rw [shimPath, join_plain _ (plain_of_target member).2.2,
    join_plain _ (by decide)]

/-- A file next to the manifests is touched under its own name only. -/
theorem not_touched
    {target : Text × Text} (member : target ∈ targets) {name : Text}
    (notBinary : name ≠ "luminosity-".toList ++ target.2)
    (notArchive :
      name ≠ "luminosity-".toList ++ target.2 ++ ".debug.tar.gz".toList) :
    ¬ Touched repoRoot target ((binDir repoRoot).child name) := by
  rintro (inside | binary | archive | shim)
  · exact outside_target repoRoot name inside
  · rw [binaryPath_eq repoRoot member] at binary
    exact notBinary (child_injective binary).2
  · rw [debugArchivePath_eq repoRoot member] at archive
    exact notArchive (child_injective archive).2
  · rw [shimPath_eq repoRoot member] at shim
    exact binDir_child_ne_package repoRoot _ _ shim

theorem binary_not_touched
    {target other : Text × Text} (member : target ∈ targets)
    (otherMember : other ∈ targets) (different : other.2 ≠ target.2) :
    ¬ Touched repoRoot target (binaryPath repoRoot other.2) := by
  rw [binaryPath_eq repoRoot otherMember]
  apply not_touched repoRoot member
  · intro same
    exact different (List.append_cancel_left same)
  · have distinct :
        ∀ first ∈ targets, ∀ second ∈ targets,
          "luminosity-".toList ++ first.2 ≠
            "luminosity-".toList ++ second.2 ++
              ".debug.tar.gz".toList := by decide
    exact distinct other otherMember target member

theorem checksums_not_touched :
    ¬ TouchedByAny repoRoot (checksums repoRoot) := by
  rintro ⟨target, member, touched⟩
  rw [checksums_eq] at touched
  have distinct :
      ∀ target ∈ targets,
        "checksums.json".toList ≠ "luminosity-".toList ++ target.2 ∧
          "checksums.json".toList ≠
            "luminosity-".toList ++ target.2 ++
              ".debug.tar.gz".toList := by decide
  exact not_touched repoRoot member (distinct target member).1
    (distinct target member).2 touched

theorem binary_ne_archive
    {target : Text × Text} (member : target ∈ targets) :
    binaryPath repoRoot target.2 ≠ debugArchivePath repoRoot target.2 := by
  rw [binaryPath_eq repoRoot member, debugArchivePath_eq repoRoot member]
  intro same
  exact absurd (List.append_right_eq_self.mp (child_injective same).2.symm)
    (by decide)

theorem binary_not_touchedByShim
    {target : Text × Text} (member : target ∈ targets) :
    ¬ TouchedByShim repoRoot target.2 (binaryPath repoRoot target.2) := by
  rw [TouchedByShim, binaryPath_eq repoRoot member,
    shimPath_eq repoRoot member]
  rintro (inside | shim)
  · exact outside_target repoRoot _ inside
  · exact binDir_child_ne_package repoRoot _ _ shim

end Places

/-! ## What is staged -/

section Staging

variable {sha256Hex : Bytes → Text} {repoRoot : Path} {tools : Tools}
variable {before : World} {reached : World → Prop}

/--
The bytes are those which a build of the triple left when it succeeded; the
build was started in a world which was reached.
-/
def Built (repoRoot : Path) (tools : Tools) (reached : World → Prop)
    (triple : Text) (bytes : Bytes) : Prop :=
  ∃ before after, reached before ∧ Succeeds repoRoot tools
      (.zigbuild launcherCrate triple (releaseBuildEnv triple)) before after ∧
    after (builtPath repoRoot launcherCrate triple) = some bytes

/--
The binary of the target is there, has the bytes which were built, passed, and
has this digest.
-/
def Staged (sha256Hex : Bytes → Text) (repoRoot : Path) (tools : Tools)
    (reached : World → Prop) (target : Text × Text) (digest : Text)
    (world : World) : Prop :=
  ∃ bytes, Built repoRoot tools reached target.1 bytes ∧
    world (binaryPath repoRoot target.2) = some bytes ∧
      Passed tools tools.hostSystem target.1 bytes ∧
        digest = sha256Hex bytes

/-- The copy has the bytes which were built, and the digest is of them. -/
theorem ensures_stageArtifacts
    {target : Text × Text} (member : target ∈ targets) :
    Ensures (answers repoRoot tools)
      (stageArtifacts sha256Hex repoRoot target.1 target.2).run
      (WhenOk fun digest after => ∃ bytes,
        before (builtPath repoRoot launcherCrate target.1) = some bytes ∧
          after (binaryPath repoRoot target.2) = some bytes ∧
            digest = sha256Hex bytes)
      before := by
  rw [stageArtifacts, ensures_run_bind, ensures_issue]
  rintro answer _ rfl
  cases answer with
  | error failure => trivial
  | ok _ =>
      rw [onOk_ok, onOk_ok]
      apply Ensures.succeeds (ensures_runChecked _)
      rintro _ _ ⟨copied, success, left, rfl, kept⟩
      rcases kept copied rfl success with ⟨present, same⟩
      apply Ensures.succeeds (ensures_runChecked _)
      rintro _ _ ⟨archived, _, other, rfl⟩
      rw [computeSha256, ensures_run_bind, ensures_issue]
      rintro answer _ ⟨rfl, reads⟩
      cases answer with
      | error failure => trivial
      | ok bytes =>
          have found := reads bytes rfl
          have staged := found
          rw [Function.update_of_ne (binary_ne_archive repoRoot member),
            Function.update_self] at staged
          exact ⟨bytes, same.symm.trans staged, found, rfl⟩

/-- What is staged for a target is what was built and checked. -/
theorem ensures_releaseTarget
    {target : Text × Text} (member : target ∈ targets)
    (now : reached before) :
    Ensures (answers repoRoot tools)
      (releaseTarget sha256Hex repoRoot tools.hostSystem target).run
      (WhenOk fun digest after =>
        Staged sha256Hex repoRoot tools reached target digest after)
      before := by
  rw [releaseTarget]
  apply Ensures.succeeds (ensures_compile _ _)
  intro _ built succeeds
  apply Ensures.succeeds (ensures_verifyOutput target.1 tools.hostSystem)
  rintro _ _ ⟨rfl, passed⟩
  apply Ensures.succeeds (ensures_stageArtifacts member)
  rintro digest staged ⟨bytes, source, present, digestOf⟩
  have kept :
      Ensures (answers repoRoot tools)
        (buildAndStageShim repoRoot target.1 target.2).run
        (fun _ after =>
          SameOff (TouchedByShim repoRoot target.2) staged after)
        staged :=
    (sustains_touching
      (asks_buildAndStageShim target.1 target.2)).ensures
  rw [ensures_run_bind]
  apply kept.mono
  intro shim after same
  cases shim with
  | error raised => trivial
  | ok _ =>
      refine ⟨bytes, ⟨before, _, now, succeeds, source⟩, ?_,
        passed bytes source, digestOf⟩
      rw [same _ (binary_not_touchedByShim repoRoot member), present]

/-- The binaries of these targets are staged, and their digests noted. -/
def Noted (sha256Hex : Bytes → Text) (repoRoot : Path) (tools : Tools)
    (reached : World → Prop) (done digests : List (Text × Text))
    (world : World) : Prop :=
  digests.map Prod.fst = done.map Prod.snd ∧
    ∀ target ∈ done, ∃ digest, digests.lookup target.2 = some digest ∧
      Staged sha256Hex repoRoot tools reached target digest world

/-- What is staged stays while other targets are released. -/
theorem Staged.kept
    {target other : Text × Text} (member : target ∈ targets)
    (otherMember : other ∈ targets) (different : other.2 ≠ target.2)
    {digest : Text} {after : World}
    (staged : Staged sha256Hex repoRoot tools reached other digest before)
    (same : SameOff (Touched repoRoot target) before after) :
    Staged sha256Hex repoRoot tools reached other digest after := by
  rcases staged with ⟨bytes, built, present, passed, digestOf⟩
  refine ⟨bytes, built, ?_, passed, digestOf⟩
  rw [same _ (binary_not_touched repoRoot member otherMember different),
    present]

theorem Noted.next
    {done digests : List (Text × Text)} {target : Text × Text}
    {digest : Text} {after : World}
    (known : ∀ other ∈ done, other ∈ targets) (member : target ∈ targets)
    (fresh : target.2 ∉ done.map Prod.snd)
    (noted : Noted sha256Hex repoRoot tools reached done digests before)
    (same : SameOff (Touched repoRoot target) before after)
    (staged :
      Staged sha256Hex repoRoot tools reached target digest after) :
    Noted sha256Hex repoRoot tools reached (done ++ [target])
      (setItem target.2 digest digests) after := by
  rcases noted with ⟨names, each⟩
  constructor
  · rw [setItem_of_notMem digest (names.symm ▸ fresh), List.map_append,
      List.map_append, names]
    rfl
  · intro other present
    rcases List.mem_append.mp present with earlier | last
    · have different : other.2 ≠ target.2 := by
        intro equal
        exact fresh (equal ▸ List.mem_map_of_mem earlier)
      rcases each other earlier with ⟨held, found, stagedOther⟩
      refine ⟨held, ?_,
        stagedOther.kept member (known other earlier) different same⟩
      rw [lookup_setItem_of_ne digest different, found]
    · rw [List.mem_singleton.mp last]
      exact ⟨digest, lookup_setItem_self _ _ _, staged⟩

/-- The loop stages every target, and notes its digest. -/
theorem ensures_releaseTargets
    {done list digests : List (Text × Text)}
    (known : ∀ target ∈ done ++ list, target ∈ targets)
    (nodup : ((done ++ list).map Prod.snd).Nodup)
    (noted : Noted sha256Hex repoRoot tools reached done digests before)
    {post : Except Raised (List (Text × Text)) → World → Prop}
    (reaching : Sustains (answers repoRoot tools) reached
      (releaseTargets sha256Hex repoRoot tools.hostSystem list digests).run
      post before) :
    Ensures (answers repoRoot tools)
      (releaseTargets sha256Hex repoRoot tools.hostSystem list digests).run
      (WhenOk fun final after =>
        Noted sha256Hex repoRoot tools reached (done ++ list) final after)
      before := by
  induction list generalizing done digests before with
  | nil =>
      rw [List.append_nil]
      exact noted
  | cons target later induction =>
      have member : target ∈ targets := known target (by simp)
      have fresh : target.2 ∉ done.map Prod.snd := by
        rw [List.map_append, List.map_cons] at nodup
        intro earlier
        exact List.disjoint_of_nodup_append nodup earlier
          List.mem_cons_self
      have regrouped :
          done ++ target :: later = (done ++ [target]) ++ later := by simp
      have frame :
          Ensures (answers repoRoot tools)
            (releaseTarget sha256Hex repoRoot tools.hostSystem target).run
            (fun _ after => SameOff (Touched repoRoot target) before after)
            before :=
        (sustains_touching
          (asks_releaseTarget sha256Hex tools.hostSystem target)).ensures
      rw [releaseTargets, sustains_run_bind] at reaching
      rw [releaseTargets, ensures_run_bind]
      apply (((ensures_releaseTarget member reaching.now).and frame).and
        reaching.ensures).mono
      rintro result after ⟨⟨staged, same⟩, goesOn⟩
      cases result with
      | error raised => trivial
      | ok digest =>
          rw [regrouped] at known nodup ⊢
          refine induction known nodup ?_ goesOn
          apply noted.next _ member fresh same staged
          intro other earlier
          exact known other (by simp [earlier])

end Staging

/-! ## What is recorded -/

section Recording

variable {formats : Formats} {sha256Hex : Bytes → Text} {repoRoot : Path}
variable {tools : Tools} {before : World} {reached : World → Prop}

/-- The checksums file has these digests, and the other fields it had. -/
def Checksums (formats : Formats) (repoRoot : Path)
    (digests : List (Text × Text)) (before world : World) : Prop :=
  ∃ source text fields, Reads before (checksums repoRoot) source ∧
    formats.json.loads source = .ok (.object fields) ∧
      Reads world (checksums repoRoot) text ∧
        formats.json.loads text =
          .ok (.object
            (setItem "binaries".toList (digestFields digests) fields))

/-- Every target is staged, and the checksums file has the digests. -/
def Released (formats : Formats) (sha256Hex : Bytes → Text) (repoRoot : Path)
    (tools : Tools) (reached : World → Prop) (before world : World) : Prop :=
  ∃ digests,
    Checksums formats repoRoot digests before world ∧
      Noted sha256Hex repoRoot tools reached targets digests world

theorem checksums_staging :
    temporaryPath (checksums repoRoot) =
      (binDir repoRoot).child "checksums.json.tmp".toList := by
  rw [checksums_eq, temporaryPath_child]
  rfl

/-- The binaries are elsewhere than the checksums and their staging file. -/
theorem binary_ne_checksums
    {target : Text × Text} (member : target ∈ targets) :
    binaryPath repoRoot target.2 ≠ checksums repoRoot ∧
      binaryPath repoRoot target.2 ≠ temporaryPath (checksums repoRoot) := by
  have distinct :
      ∀ target ∈ targets,
        "luminosity-".toList ++ target.2 ≠ "checksums.json".toList ∧
          "luminosity-".toList ++ target.2 ≠
            "checksums.json.tmp".toList := by decide
  rw [binaryPath_eq repoRoot member, checksums_staging, checksums_eq]
  constructor
  · intro same
    exact (distinct target member).1 (child_injective same).2
  · intro same
    exact (distinct target member).2 (child_injective same).2

/-- What is staged stays while the checksums are rewritten. -/
theorem Noted.kept
    {digests : List (Text × Text)} {after : World} {left : Option Bytes}
    (noted : Noted sha256Hex repoRoot tools reached targets digests before)
    (same : SameOff (· = temporaryPath (checksums repoRoot))
      (Function.update before (checksums repoRoot) left) after) :
    Noted sha256Hex repoRoot tools reached targets digests after := by
  refine ⟨noted.1, ?_⟩
  intro target member
  rcases noted.2 target member with
    ⟨digest, found, bytes, built, present, rest⟩
  refine ⟨digest, found, bytes, built, ?_, rest⟩
  rw [same _ (binary_ne_checksums member).2,
    Function.update_of_ne (binary_ne_checksums member).1, present]

theorem distinct_digestFields
    {digests : List (Text × Text)}
    (nodup : (digests.map Prod.fst).Nodup) :
    (digestFields digests).Distinct := by
  apply Json.Distinct.object
  · rw [List.map_map]
    exact nodup
  · intro field member
    rcases List.mem_map.mp member with ⟨digest, _, rfl⟩
    exact .string _

theorem checksums_ne_staging :
    checksums repoRoot ≠ temporaryPath (checksums repoRoot) := by
  rw [checksums_staging, checksums_eq]
  intro same
  exact absurd (child_injective same).2 (by decide)

/-- Once the checksums are rewritten, all is released. -/
theorem Noted.released
    (lawful : formats.json.Lawful)
    {digests : List (Text × Text)} {fields : List (Text × Json)}
    {source written : Text} {start after : World}
    (noted : Noted sha256Hex repoRoot tools reached targets digests before)
    (reads : Reads start (checksums repoRoot) source)
    (loaded : formats.json.loads source = .ok (.object fields))
    (dumped :
      formats.json.dumps
          (.object
            (setItem "binaries".toList (digestFields digests) fields)) =
        .ok written)
    (same : SameOff (· = temporaryPath (checksums repoRoot))
      (Function.update before (checksums repoRoot)
        (some (encode (written ++ ['\n'])))) after) :
    Released formats sha256Hex repoRoot tools reached start after := by
  have nodup : (digests.map Prod.fst).Nodup := by
    rw [noted.1]
    decide
  have distinct :=
    (lawful.distinct source _ loaded).setItem "binaries".toList
      (distinct_digestFields nodup)
  refine ⟨digests, ⟨source, _, fields, reads, loaded, ?_,
    lawful.loads_line _ written distinct dumped⟩, noted.kept same⟩
  apply reads_encoded
  · rw [List.mem_append, not_or]
    exact ⟨lawful.unreturned _ written dumped, by decide⟩
  · rw [same _ checksums_ne_staging, Function.update_self]

/-- The digests are recorded at once, after the targets are all staged. -/
theorem sustains_writeChecksums
    (lawful : formats.json.Lawful) {always : World → Prop}
    {digests : List (Text × Text)} {start : World}
    (unchanged :
      before (checksums repoRoot) = start (checksums repoRoot))
    (noted : Noted sha256Hex repoRoot tools reached targets digests before)
    (old : ∀ seen,
      seen (checksums repoRoot) = start (checksums repoRoot) → always seen)
    (new : ∀ seen,
      Released formats sha256Hex repoRoot tools reached start seen →
        always seen) :
    Sustains (answers repoRoot tools) always
      (writeChecksums formats repoRoot digests).run
      (WhenOk fun _ after =>
        Released formats sha256Hex repoRoot tools reached start after)
      before := by
  have now : always before := old before unchanged
  rw [writeChecksums, sustains_run_bind, sustains_issue]
  refine ⟨now, ?_⟩
  rintro answer _ ⟨rfl, reads⟩
  refine ⟨now, ?_⟩
  cases answer with
  | error failure => trivial
  | ok source =>
      rw [onOk_ok, onOk_ok, sustains_run_bind, sustains_run_except]
      refine ⟨now, ?_⟩
      cases loaded : loads formats source with
      | error raised => trivial
      | ok data =>
          rw [onOk_ok, sustains_run_bind, sustains_run_except]
          refine ⟨now, ?_⟩
          cases assigned :
              assignItem "binaries".toList (digestFields digests) data with
          | error raised => trivial
          | ok updated =>
              rcases assignItem_ok.mp assigned with ⟨fields, rfl, rfl⟩
              rw [onOk_ok, sustains_run_bind, sustains_run_except]
              refine ⟨now, ?_⟩
              cases dumped : dumps formats
                  (.object (setItem "binaries".toList
                    (digestFields digests) fields)) with
              | error raised => trivial
              | ok written =>
                  have released (seen : World)
                      (same : SameOff
                        (· = temporaryPath (checksums repoRoot))
                        (Function.update _ (checksums repoRoot)
                          (some (encode (written ++ ['\n'])))) seen) :
                      Released formats sha256Hex repoRoot tools reached
                        start seen :=
                    noted.released lawful
                      ((reads source rfl).congr unchanged.symm)
                      (loads_ok.mp loaded) (dumps_ok.mp dumped) same
                  apply (sustains_atomicWriteText checksums_ne_staging.symm
                    (fun seen same => old seen
                      ((same _ checksums_ne_staging).trans unchanged))
                    (fun seen same => new seen (released seen same))).mono
                  intro result after _ holds
                  cases result with
                  | error raised => trivial
                  | ok _ => exact released after holds.1

/--
What holds while the release is built, and how it ends, when the worlds it
visits are reached.
-/
theorem sustains_release
    (lawful : formats.json.Lawful)
    {post : Except Raised Unit → World → Prop}
    (reaching : Sustains (answers repoRoot tools) reached
      (release formats sha256Hex repoRoot).run post before) :
    Sustains (answers repoRoot tools)
      (fun seen => seen (checksums repoRoot) = before (checksums repoRoot) ∨
        Released formats sha256Hex repoRoot tools reached before seen)
      (release formats sha256Hex repoRoot).run
      (WhenOk fun _ after =>
        Released formats sha256Hex repoRoot tools reached before after)
      before := by
  rw [release, sustains_run_bind, sustains_issue] at reaching
  rw [release, sustains_run_bind, sustains_issue]
  refine ⟨Or.inl rfl, ?_⟩
  intro answer after step
  have goesOn := (reaching.2 answer after step).2
  rcases step with ⟨rfl, isHost⟩
  refine ⟨Or.inl rfl, ?_⟩
  cases answer with
  | error failure => trivial
  | ok hostSystem =>
      cases isHost hostSystem rfl
      rw [onOk_ok, onOk_ok, sustains_run_bind] at goesOn
      have touching :
          Sustains (answers repoRoot tools)
            (SameOff (TouchedByAny repoRoot) after)
            (releaseTargets sha256Hex repoRoot tools.hostSystem targets
              []).run
            (fun _ later => SameOff (TouchedByAny repoRoot) after later)
            after :=
        sustains_touching
          (asks_releaseTargets sha256Hex tools.hostSystem targets []
            fun _ => id)
      have nothing :
          Noted sha256Hex repoRoot tools reached [] [] after :=
        ⟨rfl, fun _ member => nomatch member⟩
      have noting :
          Ensures (answers repoRoot tools)
            (releaseTargets sha256Hex repoRoot tools.hostSystem targets
              []).run
            (WhenOk fun digests later =>
              Noted sha256Hex repoRoot tools reached targets digests later)
            after :=
        ensures_releaseTargets (fun _ => id) (by decide) nothing goesOn
      have staging :
          Sustains (answers repoRoot tools)
            (fun seen =>
              seen (checksums repoRoot) = after (checksums repoRoot) ∨
                Released formats sha256Hex repoRoot tools reached after
                  seen)
            (releaseTargets sha256Hex repoRoot tools.hostSystem targets
              []).run
            (fun result later =>
              WhenOk (fun digests later =>
                  Noted sha256Hex repoRoot tools reached targets digests
                    later) result later ∧
                SameOff (TouchedByAny repoRoot) after later)
            after := by
        apply (sustains_iff _ _ _).mpr
        refine ⟨?_, noting.and touching.ensures⟩
        intro seen visits
        exact Or.inl
          (touching.visited visits _ (checksums_not_touched repoRoot))
      rw [onOk_ok, onOk_ok, sustains_run_bind]
      apply staging.mono
      rintro result staged _ ⟨noted, same⟩
      cases result with
      | error raised => trivial
      | ok digests =>
          exact sustains_writeChecksums lawful
            (same _ (checksums_not_touched repoRoot)) noted
            (fun _ => Or.inl) fun _ => Or.inr

/-- A program reaches what it visits. -/
theorem sustains_visits (program : WorkspaceTask Unit) (before : World) :
    Sustains (answers repoRoot tools)
      (Visits (answers repoRoot tools) program.run before) program.run
      (Runs (answers repoRoot tools) program.run before) before :=
  (sustains_iff _ _ _).mpr ⟨fun _ => id, ensures_runs _ _⟩

/-- The paths which a release touches. -/
def TouchedByRelease (repoRoot path : Path) : Prop :=
  TouchedByAny repoRoot path ∨ path = checksums repoRoot ∨
    path = temporaryPath (checksums repoRoot)

theorem asks_release :
    Asks (Touches repoRoot tools (TouchedByRelease repoRoot))
      (release formats sha256Hex repoRoot).run := by
  apply Asks.run_bind (asks_issue.mpr touches_system)
  intro hostSystem
  apply Asks.run_bind
  · apply (asks_releaseTargets sha256Hex hostSystem targets [] fun _ => id).mono
    intro call touches before answer after step
    exact (touches before answer after step).widen fun _ => Or.inl
  · intro digests
    apply Asks.run_bind (asks_issue.mpr (touches_readText _))
    intro text
    apply Asks.run_bind (asks_run_except _)
    intro data
    apply Asks.run_bind (asks_run_except _)
    intro updated
    apply Asks.run_bind (asks_run_except _)
    intro written
    exact asks_atomicWriteText (Or.inr (Or.inr rfl)) (Or.inr (Or.inl rfl)) _

/-! ### A small release -/

def emptyChecksums : Text := "\x7b\x7d".toList

def fullChecksums : Text := "\x7b\"binaries\": \x7b...\x7d\x7d".toList

/-- The digests of a library for which all bytes are alike. -/
def smallDigests : List (Text × Text) :=
  targets.map fun target => (target.2, "00".toList)

def recordedJson : Json :=
  .object [("binaries".toList, digestFields smallDigests)]

def recordLoads (text : Text) : Except Text Json :=
  if text = fullChecksums ∨ text = fullChecksums ++ ['\n'] then
    .ok recordedJson
  else if text = emptyChecksums then
    .ok (.object [])
  else
    .error "unsupported".toList

def recordDumps : Json → Except Text Text
  | .object [(name, .object
      [(first, .string firstDigest), (second, .string secondDigest),
        (third, .string thirdDigest), (fourth, .string fourthDigest)])] =>
      if name = "binaries".toList ∧
          [(first, firstDigest), (second, secondDigest),
              (third, thirdDigest), (fourth, fourthDigest)] =
            targets.map fun target => (target.2, "sha256:00".toList) then
        .ok fullChecksums
      else
        .error "unsupported".toList
  | _ => .error "unsupported".toList

/-- Libraries which know the checksums before and after a release. -/
def recordFormats : Formats :=
  { smallFormats with
    json :=
      { loads := recordLoads
        dumps := recordDumps } }

theorem recordDumps_ok
    {value : Json} {text : Text} (dumped : recordDumps value = .ok text) :
    value = recordedJson ∧ text = fullChecksums := by
  unfold recordDumps at dumped
  split at dumped
  · split_ifs at dumped with known
    rcases known with ⟨rfl, same⟩
    simp only [targets, List.map_cons, List.map_nil, List.cons.injEq,
      Prod.mk.injEq, and_true] at same
    rcases same with ⟨⟨rfl, rfl⟩, ⟨rfl, rfl⟩, ⟨rfl, rfl⟩, rfl, rfl⟩
    cases dumped
    exact ⟨rfl, rfl⟩
  · cases dumped

theorem distinct_recordedJson : recordedJson.Distinct := by
  apply Json.Distinct.object
  · exact List.nodup_singleton _
  · intro field member
    rw [List.mem_singleton.mp member]
    exact distinct_digestFields (by decide)

theorem recordLoads_full
    {text : Text}
    (known : text = fullChecksums ∨ text = fullChecksums ++ ['\n']) :
    recordLoads text = .ok recordedJson :=
  if_pos known

theorem recordFormats_lawful : recordFormats.json.Lawful where
  distinct text value loaded := by
    change recordLoads text = .ok value at loaded
    unfold recordLoads at loaded
    split_ifs at loaded
    · cases loaded
      exact distinct_recordedJson
    · cases loaded
      exact .object List.nodup_nil fun _ member => nomatch member
  loads_dumps value text _ dumped := by
    rcases recordDumps_ok dumped with ⟨rfl, rfl⟩
    exact recordLoads_full (Or.inl rfl)
  loads_line value text _ dumped := by
    rcases recordDumps_ok dumped with ⟨rfl, rfl⟩
    exact recordLoads_full (Or.inr rfl)
  unreturned value text dumped := by
    rcases recordDumps_ok dumped with ⟨rfl, rfl⟩
    decide

/-- Tools which report of a binary what its triple is checked for. -/
def smallMachinery : Machinery :=
  { idleMachinery with
    built := fun _ triple => encode triple
    report := fun inspector bytes =>
      match inspector with
      | .file => { succeeded with stdout := "statically linked".toList }
      | .objdump =>
          if bytes = encode "aarch64-apple-darwin".toList then
            { succeeded with stdout := "arm64".toList }
          else
            { succeeded with stdout := "x86_64".toList }
      | _ => succeeded }

/-- Reports are those of the machinery alone. -/
def reportingTools : Tools where
  signs _ _ _ := True
  reports inspector bytes result :=
    result = smallMachinery.report inspector bytes
  environment _ _ := True
  hostSystem := smallMachinery.system
  hostMachine := smallMachinery.machine

theorem smallMachinery_truthful :
    smallMachinery.Truthful reportingTools where
  report _ _ := rfl
  sign _ _ := trivial
  environment _ := trivial
  system := rfl
  machine := rfl
  temporary := ⟨smallRoot, [], rfl⟩

/-- A repository whose checksums file records nothing. -/
def unrecorded : Files :=
  .ofTexts [(checksums smallRoot, emptyChecksums)]

end Recording

end Luminosity.Tasks.Builds
