import Luminosity.Bootstrap.VerifyShim
import Luminosity.Foundation.Interleaving

/-!
# The bootstrap

The bootstrap stages the verify shim in the cache directory, and then executes
the launcher which is cached there, once the shim has verified it.  Otherwise
it removes what is cached, fetches the launcher and its signature, verifies
them in temporary files, and moves both into place.

The script runs on when a command fails, unless it checks the command.  So the
model is the sequence of its commands, each of which may fail, over the entries
of the cache directory.
-/

namespace Luminosity.Bootstrap.Entrypoint

open Luminosity.Foundation.TextSegments
open Luminosity.Foundation.EffectPrograms
open Luminosity.Foundation.Interleaving
open Luminosity.Bootstrap.VerifyShim

/-! ## Variables -/

inductive OsAlias
  | darwin
  | linux
deriving DecidableEq, Repr

inductive ArchAlias
  | arm64
  | x64
deriving DecidableEq, Repr

def OsAlias.display : OsAlias → Text
  | .darwin => "darwin".toList
  | .linux => "linux".toList

def ArchAlias.display : ArchAlias → Text
  | .arm64 => "arm64".toList
  | .x64 => "x64".toList

/-- What the script has determined when its cache directory is resolved. -/
structure Script where
  claudePluginRoot : Text
  cacheDir : Text
  version : Text
  osAlias : OsAlias
  archAlias : ArchAlias
  /-- `$$` -/
  process : Nat
  luminosityReleaseBaseUrl : Option Text
deriving DecidableEq, Repr

namespace Script

variable (script : Script)

def platform : Text :=
  script.osAlias.display ++ "-".toList ++ script.archAlias.display

def shimSource : Text :=
  script.claudePluginRoot ++ "/bin/luminosity-verify-".toList ++
    script.platform

def publicKey : Text :=
  script.claudePluginRoot ++ "/keys/luminosity-release.pub".toList

def shim : Text :=
  script.cacheDir ++ "/luminosity-verify".toList

def launcher : Text :=
  script.cacheDir ++ "/luminosity-launcher-".toList ++ script.version ++
    "-".toList ++ script.platform

def launcherSig : Text :=
  script.launcher ++ ".minisig".toList

/-- An empty variable is replaced as an unset one is. -/
def baseUrl : Text :=
  let chosen := script.luminosityReleaseBaseUrl.getD []
  if chosen = [] then
    "https://github.com/atomicinnovation/luminosity/releases/download/v".toList
      ++ script.version
  else
    chosen

def tmpBin : Text :=
  script.cacheDir ++ "/.tmp-launcher-".toList ++ decimal script.process

def tmpSig : Text :=
  script.tmpBin ++ ".minisig".toList

def binaryUrl : Text :=
  script.baseUrl ++ "/luminosity-".toList ++ script.platform

def signatureUrl : Text :=
  script.binaryUrl ++ ".minisig".toList

/-! The paths which the script uses are different. -/

theorem tmpBin_ne_shim : script.tmpBin ≠ script.shim := by
  intro same
  simp only [tmpBin, shim, List.append_assoc] at same
  simpa using List.append_cancel_left same

theorem tmpSig_ne_shim : script.tmpSig ≠ script.shim := by
  intro same
  simp only [tmpSig, tmpBin, shim, List.append_assoc] at same
  simpa using List.append_cancel_left same

theorem launcher_ne_tmpBin : script.launcher ≠ script.tmpBin := by
  intro same
  simp only [launcher, tmpBin, List.append_assoc] at same
  simpa using List.append_cancel_left same

theorem launcher_ne_tmpSig : script.launcher ≠ script.tmpSig := by
  intro same
  simp only [launcher, tmpSig, tmpBin, List.append_assoc] at same
  simpa using List.append_cancel_left same

theorem launcherSig_ne_tmpBin : script.launcherSig ≠ script.tmpBin := by
  intro same
  simp only [launcherSig, launcher, tmpBin, List.append_assoc] at same
  simpa using List.append_cancel_left same

theorem launcherSig_ne_tmpSig : script.launcherSig ≠ script.tmpSig := by
  intro same
  simp only [launcherSig, launcher, tmpSig, tmpBin, List.append_assoc] at same
  simpa using List.append_cancel_left same

theorem tmpSig_ne_tmpBin : script.tmpSig ≠ script.tmpBin := by
  simp [tmpSig]

/-- No other path ends as that of the public key does. -/
theorem publicKey_ne
    {path : Text} (last : path.getLast? ≠ some 'b') :
    script.publicKey ≠ path := by
  rintro rfl
  simp [publicKey] at last

theorem publicKey_ne_tmpBin : script.publicKey ≠ script.tmpBin := by
  apply publicKey_ne
  rw [tmpBin, List.getLast?_append]
  intro last
  cases digit : (decimal script.process).getLast? with
  | none => simp [digit] at last
  | some character =>
      rw [digit, Option.some_or, Option.some.injEq] at last
      subst last
      exact notMem_decimal rfl _ (List.mem_of_getLast? digit)

theorem publicKey_ne_tmpSig : script.publicKey ≠ script.tmpSig := by
  apply publicKey_ne
  simp [tmpSig]

end Script

/-! ## Commands -/

inductive Command
  | cp (source target : Text)
  | chmod (path : Text)
  /-- `[[ -x … ]]` -/
  | isExecutable (path : Text)
  /-- `[[ -f … ]]` -/
  | isFile (path : Text)
  | verify (shim : Text) (args : List Text)
  | fetch (url output : Text)
  | rm (paths : List Text)
  | mv (source target : Text)
deriving DecidableEq, Repr

/-- Every command succeeds or fails. -/
def bash : Interface where
  Op := Command
  Answer := fun _ => Bool

/-- How the script ends: `fail` exits with status 1. -/
inductive Ending
  | exec (path : Text)
  | fail (message : Text)
deriving DecidableEq, Repr

/-- Whether a command succeeds. -/
def succeeds (command : Command) : Program bash Bool :=
  Program.perform (show bash.Op from command)

section Commands

variable (script : Script)

/-- `verify_launcher`. -/
def verifyLauncher : Program bash Bool :=
  succeeds (.verify script.shim
    [script.publicKey, script.launcherSig, script.launcher])

/-- The cached launcher is executable, has a signature, and is verified. -/
def cached : Program bash Bool := do
  let executable ← succeeds (.isExecutable script.launcher)
  if executable then
    let signed ← succeeds (.isFile script.launcherSig)
    if signed then verifyLauncher script else return false
  else
    return false

/-- Remove temporary files, and fail. -/
def giveUp (paths : List Text) : Program bash Bool := do
  let _ ← succeeds (.rm paths)
  return false

/-- Verify what was fetched, and move it into place. -/
def verifyAndMove : Program bash Bool := do
  let _ ← succeeds (.chmod script.tmpBin)
  let verified ←
    succeeds (.verify script.shim
      [script.publicKey, script.tmpSig, script.tmpBin])
  if verified then
    let moved ← succeeds (.mv script.tmpSig script.launcherSig)
    if moved then
      succeeds (.mv script.tmpBin script.launcher)
    else
      return false
  else
    giveUp [script.tmpBin, script.tmpSig]

/-- `fetch_and_verify`. -/
def fetchAndVerify : Program bash Bool := do
  let fetchedBin ← succeeds (.fetch script.binaryUrl script.tmpBin)
  if fetchedBin then
    let fetchedSig ← succeeds (.fetch script.signatureUrl script.tmpSig)
    if fetchedSig then
      verifyAndMove script
    else
      giveUp [script.tmpBin, script.tmpSig]
  else
    giveUp [script.tmpBin]

/-- The launcher is cached, or it is fetched. -/
def obtain : Program bash Bool := do
  let hit ← cached script
  if hit then
    return true
  else
    let _ ← succeeds (.rm [script.launcher, script.launcherSig])
    fetchAndVerify script

/-- The script, from the staging of the shim on. -/
def bootstrap : Program bash Ending := do
  let copied ← succeeds (.cp script.shimSource script.shim)
  if copied then
    let executable ← succeeds (.chmod script.shim)
    if executable then
      let obtained ← obtain script
      if obtained then
        return .exec script.launcher
      else
        return .fail
          ("could not fetch and verify the luminosity launcher for ".toList
            ++ script.platform)
    else
      return .fail "could not make the verify shim executable".toList
  else
    return .fail
      ("could not stage the verify shim into ".toList ++ script.cacheDir)

end Commands

end Luminosity.Bootstrap.Entrypoint
