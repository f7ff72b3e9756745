import Luminosity.Foundation.SumPrograms
import Luminosity.Adapters.Discovery
import Luminosity.Commands.Instructions
import Luminosity.Commands.Context
import Luminosity.Launch.CacheRoot
import Luminosity.Launch.KeyFiles
import Luminosity.Launch.Resolver

/-!
# The launcher process

The launcher routes a parsed command to a built-in handler, or resolves an
external one to a binary and replaces its own process by it.  The store and
the resolver are built only when a handler first needs them.

Beside the calls on files and the network a process asks for its working
directory, runs a child, replaces itself and prints.
-/

namespace Luminosity.Launch.Process

open Luminosity.Foundation.TextSegments
open Luminosity.Foundation.EffectPrograms
open Luminosity.Foundation.SumPrograms
open Luminosity.Host.Paths
open Luminosity.Host.Calls
open Luminosity.Config.Domain
open Luminosity.Config.Service
open Luminosity.Config.Messages
open Luminosity.Config.FragmentAssembler
open Luminosity.Adapters.Document
open Luminosity.Adapters.Store
open Luminosity.Adapters.Discovery
open Luminosity.Commands.Support
open Luminosity.Launch.Core
open Luminosity.Launch.CacheRoot
open Luminosity.Launch.Verifier
open Luminosity.Launch.KeyFiles
open Luminosity.Launch.Resolver

/-! ## Calls -/

inductive ProcessCall where
  | installCryptoProvider
  | buildClient
  | currentDir
  | status (program : Path)
  | exec (program : Path) (args : List OsText)
  | stdout (text : Text)
  | stderr (text : Text)
deriving DecidableEq

/-- The answer to `exec` is an error, or none when the process is replaced. -/
@[reducible]
def ProcessCall.Answer : ProcessCall → Type
  | .installCryptoProvider => Except Text Unit
  | .buildClient => Except Text Unit
  | .currentDir => Except IoError Path
  | .status _ => Except IoError Bool
  | .exec _ _ => Option IoError
  | .stdout _ => Unit
  | .stderr _ => Unit

abbrev processCalls : Interface := ⟨ProcessCall, ProcessCall.Answer⟩

abbrev ProcessProgram := Program (both host processCalls)

abbrev ProcessExcept (ε : Type) := ExceptT ε ProcessProgram

/-- Ask for one call of the process. -/
def request (call : ProcessCall) : ProcessProgram call.Answer :=
  @onRight processCalls host call

/-- What a process does on its files and the network. -/
abbrev onHost {α : Type} : HostProgram α → ProcessProgram α :=
  onLeft processCalls

abbrev onHostExcept {ε α : Type} : HostExcept ε α → ProcessExcept ε α :=
  onLeftExcept processCalls

def printLine (line : Text) : ProcessProgram Unit :=
  request (.stdout (line ++ "\n".toList))

def printErrorLine (line : Text) : ProcessProgram Unit :=
  request (.stderr (line ++ "\n".toList))

/-! ## What a launcher is built with and started with -/

/-- The facts which are compiled into a launcher. -/
structure Build where
  version : Text
  commitSha : Text
  buildDate : Text
  targetTriple : Text
  platform : Text
  hostOs : HostOs

/-- The environment which a launcher reads. -/
structure Variables where
  directories : CacheRoot.Environment
  releaseBaseUrl : Option Bytes
  resolveFixture : Option Bytes

/-- The fixture path, where one is set. -/
def Variables.fixture (environment : Variables) : Option Path :=
  (environment.resolveFixture.filter fun path => !path.isEmpty).map
    Path.ofBytes

inductive ConfigAction where
  | get (key : Text) (level : Option Level)
  | set (key value : Text) (level : Option Level)

inductive Command where
  | version
  | config (action : ConfigAction)
  | context (skill : Option Text) (explain failSafe : Bool)
  | instructions (skill : Option Text) (explain failSafe : Bool)
  | external (raw : List OsText)

/-- The shared boundary error: a diagnostic which is ready to print. -/
inductive Error where
  | failed (message : Text)

def Error.ofResolution (error : ResolutionError) : Error :=
  .failed (displayResolution error)

def Error.ofConfig (error : ConfigError) : Error :=
  .failed (displayError error)

/-- A finished process has a status; a replaced one has none any more. -/
inductive Ending where
  | exited (success : Bool)
  | replaced
deriving DecidableEq

/-! ## The cache directory -/

def probeScript : Bytes :=
  encode "#!/bin/sh\nexit 0\n".toList

def probeName (process : UInt32) : Text :=
  ".luminosity-probe-".toList ++ decimal process.toNat

def writeProbe (probe : Path) : HostProgram Bool := do
  match ← writeFile probe probeScript with
  | .error _ => return false
  | .ok () =>
      match ← issue (.setPermissions probe 0o755) with
      | .error _ => return false
      | .ok () => return true

def runProbe (probe : Path) : Bool → ProcessProgram Bool
  | false => return false
  | true => do
      match ← request (.status probe) with
      | .error _ => return false
      | .ok success => return success

/-- Write a script to the directory and execute it. -/
def probeWritableAndExecutable (dir : Path) : ProcessProgram Bool := do
  match ← onHost (createDirAll dir) with
  | .error _ => return false
  | .ok () => do
      let process ← onHost (issue .processId)
      let probe := dir.join (probeName process)
      let written ← onHost (writeProbe probe)
      let executable ← runProbe probe written
      let _ ← onHost (issue (.removeFile probe))
      return executable

def resolveCacheRoot (hostOs : HostOs) (config : CacheRootConfig) :
    ProcessExcept ResolutionError Path :=
  match config.cacheDirOverride with
  | some overrideDir => do
      match ←
          ExceptT.lift
            (probeWritableAndExecutable (Path.ofBytes overrideDir)) with
      | true => return Path.ofBytes overrideDir
      | false =>
          throw (.cacheRootUnavailable
            ("LUMINOSITY_CACHE_DIR ".toList ++ decodeLossy overrideDir ++
              " is not writable+exec-capable".toList))
  | none =>
      match config.pluginRoot with
      | none =>
          throw (.cacheRootUnavailable
            "CLAUDE_PLUGIN_ROOT is not set".toList)
      | some pluginRoot => do
          let primary := (Path.ofBytes pluginRoot).join "bin".toList
          match ← ExceptT.lift (probeWritableAndExecutable primary) with
          | true => return primary
          | false =>
              match config.xdgFallback hostOs with
              | none =>
                  throw (.cacheRootUnavailable
                    ("plugin root is not writable+exec and ".toList ++
                      "no XDG/HOME is set".toList))
              | some fallback => do
                  match ←
                      ExceptT.lift
                        (probeWritableAndExecutable
                          (Path.ofBytes fallback)) with
                  | true => return Path.ofBytes fallback
                  | false =>
                      throw (.cacheRootUnavailable
                        ("neither the plugin root nor ".toList ++
                          decodeLossy fallback ++
                          " is writable+exec-capable".toList))

/-! ## The lazy ports -/

section Launcher

variable {libraries : Libraries}
variable (fromBase64 : Text → Except Text libraries.PublicKey)

-- The text of the embedded release key.
variable (releaseKey : Text)
variable (saphyr : Saphyr)

-- How the standard library displays a float.
variable (displayFloat : UInt64 → Text)
variable (build : Build) (environment : Variables)

def releaseBaseUrl : Text :=
  match environment.releaseBaseUrl with
  | some overrideUrl => decodeLossy overrideUrl
  | none =>
      "https://github.com/atomicinnovation/luminosity/".toList ++
        "releases/download/v".toList ++ build.version

/-- `TrustedKeys::embedded`. -/
def embedded : Except ResolutionError (TrustedKeys libraries) :=
  fromPublicKeyFiles fromBase64 [releaseKey]

/-- `ResolverConfig::production`. -/
def productionConfig (cacheRoot : Path) : ResolverConfig where
  expectedVersion := build.version
  platform := build.platform
  baseUrl := releaseBaseUrl build environment
  cacheRoot
  retainedVersions := 3

/-- The resolver of a release, built on the first command it resolves. -/
def lazyProductionResolver (command : ExternalCommand) :
    ProcessExcept ResolutionError Path := do
  let cache ←
    resolveCacheRoot build.hostOs
      (CacheRootConfig.fromEnv environment.directories)
  let keys ← embedded fromBase64 releaseKey
  match ← ExceptT.lift (request .buildClient) with
  | .error detail => throw (.cacheRootUnavailable detail)
  | .ok () =>
      onHostExcept
        (FetchVerifyCacheResolver.resolve
          { config := productionConfig build environment cache, keys } command)

/-- Every command resolves to the fixture. -/
def fixtureResolver (command : ExternalCommand) :
    ProcessExcept ResolutionError Path :=
  match environment.fixture with
  | some path => return path
  | none => throw (.unresolved command.name)

def discoverStore : ProcessExcept ConfigError FileConfigStore := do
  match ← ExceptT.lift (request .currentDir) with
  | .error error => throw (.io ".".toList error.detail)
  | .ok start => ExceptT.lift (onHost (discover start))

def lazyGet (key : Key) (level : Option Level) :
    ProcessExcept ConfigError Resolved := do
  let store ← discoverStore
  onHostExcept ((store.service saphyr).get key level)

def lazySet (key : Key) (value : Text) (level : Level) :
    ProcessExcept ConfigError Unit := do
  let store ← discoverStore
  onHostExcept ((store.service saphyr).set key value level)

def lazyReadBody (source : FragmentSource) (level : Level) :
    ProcessExcept ConfigError LevelBody := do
  let store ← discoverStore
  onHostExcept (store.readBody saphyr source level)

def lazyLocate (source : FragmentSource) :
    ProcessExcept ConfigError SourceLocation := do
  let store ← discoverStore
  return store.locate source

/-! ## The built-in handlers -/

/-- The four lines of the version report. -/
def renderVersion : Text :=
  "luminosity ".toList ++ build.version ++ "\ncommit: ".toList ++
    build.commitSha ++ "\nbuilt:  ".toList ++ build.buildDate ++
      "\ntarget: ".toList ++ build.targetTriple

def displayInt : Int → Text
  | .ofNat value => decimal value
  | .negSucc value => '-' :: decimal (value + 1)

def renderScalar : Scalar → Text
  | .string value => value
  | .bool value => (toString value).toList
  | .int value => displayInt value.toInt
  | .float bits => displayFloat bits
  | .null => []

/-- A key which no level sets is an error here, not in the core. -/
def printValue (rawKey : Text) (level : Option Level) :
    ProcessExcept ConfigError Unit := do
  let key ← Key.parse rawKey
  match ← lazyGet saphyr key level with
  | .found scalar =>
      ExceptT.lift (printLine (renderScalar displayFloat scalar))
  | .absent => throw (.notFound key level)

def setValue (rawKey value : Text) (level : Option Level) :
    ProcessExcept ConfigError Unit := do
  let key ← Key.parse rawKey
  lazySet saphyr key value (level.getD .personal)

def runConfig : ConfigAction → ProcessExcept ConfigError Unit
  | .get key level => printValue saphyr displayFloat key level
  | .set key value level => setValue saphyr key value level

/-- What the ports answer for one source. -/
structure SourceAnswers where
  source : FragmentSource
  team : Except ConfigError LevelBody
  personal : Except ConfigError LevelBody
  location : Except ConfigError SourceLocation

/-- The personal level is read where the team's could be. -/
def readPersonal (source : FragmentSource) :
    Except ConfigError LevelBody →
      ProcessProgram (Except ConfigError LevelBody)
  | .error error => return .error error
  | .ok _ => (lazyReadBody saphyr source .personal).run

def answersFor (source : FragmentSource) :
    ProcessProgram SourceAnswers := do
  let team ← (lazyReadBody saphyr source .team).run
  let personal ← readPersonal saphyr source team
  let location ← (lazyLocate source).run
  return { source, team, personal, location }

def readerOf (answers : List SourceAnswers) : ReadFragmentBody where
  readBody source level :=
    match answers.find? fun answer => answer.source = source with
    | none => .error (.io [] [])
    | some answer =>
        match level with
        | .team => answer.team
        | .personal => answer.personal
  locate source :=
    match answers.find? fun answer => answer.source = source with
    | none => .error (.io [] [])
    | some answer => answer.location

/--
Run a command of the fragments.  It is given the answers for the sources it
may ask for, and what it wrote is printed.
-/
def runFragments (sources : List FragmentSource)
    (command : AssembleFragment → Commands.Support.Command Unit) :
    ProcessExcept ConfigError Unit := do
  let answers ← ExceptT.lift (sources.mapM (answersFor saphyr))
  let (result, output) :=
    execute (command (fragmentAssembler (readerOf answers)))
  ExceptT.lift (request (.stdout output.stdout))
  ExceptT.lift (request (.stderr output.stderr))
  monadLift result

def onFailure (failSafe : Bool) : OnFailure :=
  if failSafe then
    .degrade
  else
    .fail

/-- The document of a skill, where its name parses. -/
def skillSource (source : SkillName → FragmentSource)
    (skill : Option Text) : List FragmentSource :=
  match skill.map SkillName.parse with
  | some (.ok name) => [source name]
  | _ => []

def runContext (options : Commands.Context.Options) :
    ProcessExcept ConfigError Unit :=
  runFragments saphyr
    (.projectContext :: skillSource .skillContext options.skill)
    fun assembler => Commands.Context.run assembler options

def runInstructions (options : Commands.Instructions.Options) :
    ProcessExcept ConfigError Unit :=
  runFragments saphyr (skillSource .skillInstructions options.skill)
    fun assembler => Commands.Instructions.run assembler options

/-! ## Dispatch -/

abbrev ResolveBinary :=
  ExternalCommand → ProcessExcept ResolutionError Path

/-- `UnixExec::exec`. -/
def exec (program : Path) (args : List OsText) :
    ProcessProgram (Option ResolutionError) := do
  let failure ← request (.exec program args)
  return failure.map (.exec program)

/-- Only a process which is replaced has no error to return. -/
def runExternal (resolver : ResolveBinary) (command : ExternalCommand) :
    ProcessProgram (Option ResolutionError) := do
  match ← (resolver command).run with
  | .ok program => exec program command.args
  | .error error => return some error

/-- How the dispatch of an external command ends. -/
def dispatched : Option ResolutionError → ProcessExcept Error Ending
  | some error => throw (Error.ofResolution error)
  | none => return .replaced

/-- The handlers return when they are done, unless the process is replaced. -/
def dispatch (resolver : ResolveBinary) : Command → ProcessExcept Error Ending
  | .version => do
      ExceptT.lift (printLine (renderVersion build))
      return .exited true
  | .config action => do
      ExceptT.adapt Error.ofConfig (runConfig saphyr displayFloat action)
      return .exited true
  | .context skill explain failSafe => do
      ExceptT.adapt Error.ofConfig
        (runContext saphyr { skill, explain, onFailure := onFailure failSafe })
      return .exited true
  | .instructions skill explain failSafe => do
      ExceptT.adapt Error.ofConfig
        (runInstructions saphyr
          { skill, explain, onFailure := onFailure failSafe })
      return .exited true
  | .external raw => do
      let command ←
        (ExternalCommand.fromRaw raw).mapError Error.ofResolution
      dispatched (← ExceptT.lift (runExternal resolver command))

/-- The fixture takes the place of the release where it is set. -/
def run (command : Command) : ProcessExcept Error Ending :=
  match environment.fixture with
  | some _ =>
      dispatch saphyr displayFloat build (fixtureResolver environment) command
  | none =>
      dispatch saphyr displayFloat build
        (lazyProductionResolver fromBase64 releaseKey build environment) command

def main (command : Command) : ProcessProgram Ending := do
  match ← request .installCryptoProvider with
  | .error error => do
      printErrorLine ("luminosity: ".toList ++ error)
      return .exited false
  | .ok () =>
      match ←
          (run fromBase64 releaseKey saphyr displayFloat build environment
            command).run with
      | .ok ending => return ending
      | .error (.failed message) => do
          printErrorLine ("luminosity: ".toList ++ message)
          return .exited false

end Launcher

end Luminosity.Launch.Process
