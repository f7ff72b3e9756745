import Luminosity.Launch.LinkedCache
import Luminosity.Launch.Process
import Luminosity.Adapters.StoreCalls
import Luminosity.Adapters.StoreProse

/-!
# Commands which stay local

A built-in command neither downloads nor runs anything, whatever its calls
answer.  What it changes are the files of the configuration in the project
which it discovered, the scratch files of the configuration there and the
directories above these.  None of the files has a name that the cache of the
resolvers gives to a file.
-/

namespace Luminosity.Launch.LocalCommands

open Luminosity.Foundation.TextSegments
open Luminosity.Foundation.EffectPrograms
open Luminosity.Foundation.SumPrograms
open Luminosity.Foundation.Interleaving
open Luminosity.Host.Paths
open Luminosity.Host.Calls
open Luminosity.Config.Domain
open Luminosity.Config.Service
open Luminosity.Adapters.Document
open Luminosity.Adapters.Store
open Luminosity.Adapters.Store.FileConfigStore
open Luminosity.Adapters.StoreCalls
open Luminosity.Adapters.StoreProse
open Luminosity.Adapters.Discovery
open Luminosity.Commands.Support
open Luminosity.Launch.Core
open Luminosity.Launch.Verifier
open Luminosity.Launch.CacheRoot
open Luminosity.Launch.Cache
open Luminosity.Launch.LinkedCache
open Luminosity.Launch.Resolver
open Luminosity.Launch.Process

/-! ## Names which the cache gives to no file -/

/-- Every name of the cache ends with a dash and one of these texts. -/
theorem not_cacheNamed_of_endings
    {path : Path}
    (hex : ∀ sha256, isSha256Hex sha256 = true →
      ¬ Ends path sha256 ∧ ¬ Ends path (signatureName sha256))
    (number : ∀ value,
      ¬ Ends path (decimal value) ∧
        ¬ Ends path (signatureName (decimal value))) :
    ¬ CacheNamed path := by
  rintro (⟨sha256, isHex, ends⟩ | ⟨sha256, isHex, ends⟩ |
    ⟨unique, ends | ends⟩)
  · exact (hex sha256 isHex).1 ends
  · exact (hex sha256 isHex).2 ends
  · exact (number unique.toNat).1 ends
  · exact (number unique.toNat).2 ends

/-- A name without a dash is no name of the cache. -/
theorem not_cacheNamed_undashed {path : Path} {name : Text}
    (named : path.fileName = some name) (undashed : '-' ∉ name) :
    ¬ CacheNamed path := by
  have none (ending : Text) : ¬ Ends path ending := by
    rintro ⟨_, start, same⟩
    rw [named, Option.some.injEq] at same
    exact undashed (same ▸ by simp)
  exact not_cacheNamed_of_endings (fun _ _ => ⟨none _, none _⟩)
    fun _ => ⟨none _, none _⟩

/-- Neither is one with this extension. -/
theorem not_cacheNamed_tmp {path : Path} {front : Text}
    (ends : Ends path (front ++ ".tmp".toList)) : ¬ CacheNamed path := by
  have plain {ending : Text} (undotted : '.' ∉ ending) :
      ¬ Ends path ending := by
    intro other
    rw [← ends.unique other] at undotted
    simp at undotted
  have signed (stem : Text) : ¬ Ends path (signatureName stem) := by
    intro other
    have lasts := congrArg List.getLast? (ends.unique other)
    rw [signatureName, List.getLast?_append, List.getLast?_append] at lasts
    exact absurd lasts (by simp)
  apply not_cacheNamed_of_endings
  · intro sha256 isHex
    exact ⟨plain (notMem_sha256 isHex rfl), signed sha256⟩
  · intro value
    exact ⟨plain (notMem_decimal rfl value), signed (decimal value)⟩

theorem not_cacheNamed_configPath (store : FileConfigStore) (level : Level) :
    ¬ CacheNamed (store.configPath level) := by
  rw [configPath_eq]
  apply not_cacheNamed_undashed (fileName_child _ _)
  cases level <;> decide

theorem not_cacheNamed_tempPath (store : FileConfigStore)
    (process : UInt32) (count : UInt64) :
    ¬ CacheNamed (store.tempPath process count) := by
  have ending :
      FileConfigStore.tempName process count =
        ("config-".toList ++ decimal process.toNat) ++
          '-' :: (decimal count.toNat ++ ".tmp".toList) := by
    unfold FileConfigStore.tempName
    simp only [List.append_assoc]
    rfl
  apply @not_cacheNamed_tmp _ (decimal count.toNat)
  rw [tempPath, ending]
  apply ends_join
  · rw [List.mem_append, not_or]
    exact ⟨notMem_decimal rfl _, by decide⟩
  · rw [List.mem_append, not_or]
    exact ⟨notMem_decimal rfl _, by decide⟩

/-! ## Calls -/

/-- The calls which download nothing and change no file of a cache. -/
def Aloof (call : Call) : Prop :=
  Foreign call ∧ ∀ url, call ≠ .get url

/-- Beside these, the calls which run nothing. -/
def Local : (both host processCalls).Op → Prop
  | .inl call => Aloof call
  | .inr (.status _) | .inr (.exec _ _) | .inr .buildClient => False
  | .inr _ => True

/--
The calls on the files of one project: on its scratch files, on the directories
above them, and the rename of one onto a file of the configuration.
-/
def Within (store : FileConfigStore) : Call → Prop
  | .create path | .append path _ | .removeFile path =>
      ∃ process count, path = store.tempPath process count
  | .rename source target =>
      (∃ process count, source = store.tempPath process count) ∧
        ∃ level, target = store.configPath level
  | .createDir path => Call.Makes store.tempDir (.createDir path)
  | .fetchAdd => True
  | call => Looks call

theorem aloof_of_looks {call : Call} (looks : Looks call) :
    Aloof call := by
  cases call with
  | canonicalize path => exact ⟨trivial, fun _ => nofun⟩
  | symlinkMetadata path => exact ⟨trivial, fun _ => nofun⟩
  | isDir path => exact ⟨trivial, fun _ => nofun⟩
  | pathExists path => exact ⟨trivial, fun _ => nofun⟩
  | read path => exact ⟨trivial, fun _ => nofun⟩
  | processId => exact ⟨trivial, fun _ => nofun⟩
  | _ => exact looks.elim

theorem aloof_of_scaffolds {call : Call} (scaffolds : call.Scaffolds) :
    Aloof call := by
  cases call with
  | createDir path => exact ⟨trivial, fun _ => nofun⟩
  | isDir path => exact ⟨trivial, fun _ => nofun⟩
  | _ => exact scaffolds.elim

/-- What is within a project is apart from the cache. -/
theorem Within.aloof
    {store : FileConfigStore} {call : Call} (within : Within store call) :
    Aloof call := by
  cases call with
  | create path =>
      rcases within with ⟨process, count, rfl⟩
      exact ⟨not_cacheNamed_tempPath store process count, fun _ => nofun⟩
  | append path byte =>
      rcases within with ⟨process, count, rfl⟩
      exact ⟨not_cacheNamed_tempPath store process count, fun _ => nofun⟩
  | removeFile path =>
      rcases within with ⟨process, count, rfl⟩
      exact ⟨not_cacheNamed_tempPath store process count, fun _ => nofun⟩
  | rename source target =>
      rcases within with ⟨⟨process, count, rfl⟩, level, rfl⟩
      exact ⟨⟨not_cacheNamed_tempPath store process count,
        not_cacheNamed_configPath store level⟩, fun _ => nofun⟩
  | createDir path =>
      have makes : Call.Makes store.tempDir (.createDir path) := within
      exact aloof_of_scaffolds makes.scaffolds
  | fetchAdd => exact ⟨trivial, fun _ => nofun⟩
  | get url => exact within.elim
  | readDir path => exact within.elim
  | modified path => exact within.elim
  | setPermissions path mode => exact within.elim
  | canonicalize path => exact aloof_of_looks within
  | symlinkMetadata path => exact aloof_of_looks within
  | isDir path => exact aloof_of_looks within
  | pathExists path => exact aloof_of_looks within
  | read path => exact aloof_of_looks within
  | processId => exact aloof_of_looks within

theorem within_of_looks
    {store : FileConfigStore} {call : Call} (looks : Looks call) :
    Within store call := by
  cases call with
  | canonicalize path => exact looks
  | symlinkMetadata path => exact looks
  | isDir path => exact looks
  | pathExists path => exact looks
  | read path => exact looks
  | processId => exact looks
  | _ => exact looks.elim

/-- What a write of a level touches is within the project. -/
theorem within_allowsWrite (store : FileConfigStore) (level : Level) :
    AllowsWrite store level (Within store) where
  looks _ := within_of_looks
  makes call makes := by
    cases call with
    | createDir path => exact makes
    | isDir path => trivial
    | _ => exact makes.elim
  counts := trivial
  creates process count := ⟨process, count, rfl⟩
  appends process count _ := ⟨process, count, rfl⟩
  removes process count := ⟨process, count, rfl⟩
  renames process count := ⟨⟨process, count, rfl⟩, level, rfl⟩

variable (saphyr : Saphyr)

/-! ## Commands which read -/

/-- What a command asks for which looks around and prints. -/
structure AllowsReading (allowed : (both host processCalls).Op → Prop) :
    Prop where
  looks : ∀ call, Looks call → allowed (.inl call)
  currentDir : allowed (.inr .currentDir)
  stdout : ∀ text, allowed (.inr (.stdout text))
  stderr : ∀ text, allowed (.inr (.stderr text))
  installs : allowed (.inr .installCryptoProvider)

theorem local_reading : AllowsReading Local where
  looks _ := aloof_of_looks
  currentDir := trivial
  stdout _ := trivial
  stderr _ := trivial
  installs := trivial

theorem asks_request
    {allowed : (both host processCalls).Op → Prop} {call : ProcessCall}
    (permits : allowed (.inr call)) :
    Asks allowed (request call) :=
  (@asks_onRight host processCalls allowed call).mpr permits

section Reading

variable {allowed : (both host processCalls).Op → Prop}
variable (allows : AllowsReading allowed)
include allows

theorem asks_discoverStore : Asks allowed discoverStore.run := by
  apply Asks.run_bind (asks_request allows.currentDir).run_lift
  intro answer
  cases answer with
  | error error => trivial
  | ok start =>
      exact (Asks.onLeft (asks_discover (fun _ => id) start)
        allows.looks).run_lift

theorem asks_onStore {α : Type}
    {next : FileConfigStore → StoreProgram α}
    (looks : ∀ store, Asks Looks (next store).run) :
    Asks allowed (do
      let store ← discoverStore
      onHostExcept (next store)).run := by
  apply Asks.run_bind (asks_discoverStore allows)
  intro store
  exact Asks.onLeft (looks store) allows.looks

variable (displayFloat : UInt64 → Text)

theorem asks_printValue (rawKey : Text) (level : Option Level) :
    Asks allowed (printValue saphyr displayFloat rawKey level).run := by
  apply Asks.run_bind (asks_run_except _)
  intro key
  apply Asks.run_bind
    (asks_onStore allows fun store =>
      asks_get store saphyr (fun _ => id) key level)
  intro found
  cases found with
  | found scalar =>
      exact (asks_request (allows.stdout _)).run_lift
  | absent => trivial

theorem asks_answersFor (source : FragmentSource) :
    Asks allowed (answersFor saphyr source) := by
  have body (level : Level) :
      Asks allowed (lazyReadBody saphyr source level).run :=
    asks_onStore allows fun store =>
      asks_readBody store saphyr (fun _ => id) source level
  apply (body .team).bind
  intro team
  have next : Asks allowed (readPersonal saphyr source team) := by
    cases team with
    | error error => trivial
    | ok read => exact body .personal
  apply next.bind
  intro personal
  have located : Asks allowed (lazyLocate source).run := by
    apply Asks.run_bind (asks_discoverStore allows)
    intro store
    trivial
  apply located.bind
  intro location
  trivial

theorem asks_runFragments (sources : List FragmentSource)
    (command : Config.FragmentAssembler.AssembleFragment →
      Commands.Support.Command Unit) :
    Asks allowed (runFragments saphyr sources command).run := by
  have asked : Asks allowed (sources.mapM (answersFor saphyr)) := by
    induction sources with
    | nil => trivial
    | cons source rest induction =>
        rw [List.mapM_cons]
        apply (asks_answersFor saphyr allows source).bind
        intro answer
        apply induction.bind
        intro answers
        trivial
  apply Asks.run_bind asked.run_lift
  intro answers
  apply Asks.run_bind (asks_request (allows.stdout _)).run_lift
  intro _
  apply Asks.run_bind (asks_request (allows.stderr _)).run_lift
  intro _
  trivial

variable (build : Build)

/-- Dispatch asks for no more than the handler it chooses. -/
theorem asks_dispatch (resolver : ResolveBinary) {command : Command}
    (builtin : ∀ raw, command ≠ .external raw)
    (sets : ∀ rawKey value level,
      command = .config (.set rawKey value level) →
        Asks allowed (setValue saphyr rawKey value level).run) :
    Asks allowed
      (dispatch saphyr displayFloat build resolver command).run := by
  cases command with
  | version =>
      exact Asks.run_bind
        (asks_request (allows.stdout _)).run_lift
        fun _ => trivial
  | config action =>
      have ran : Asks allowed (runConfig saphyr displayFloat action).run := by
        cases action with
        | get rawKey level =>
            exact asks_printValue saphyr allows displayFloat rawKey level
        | set rawKey value level => exact sets rawKey value level rfl
      exact Asks.run_bind ran.run_adapt fun _ => trivial
  | context skill explain failSafe =>
      exact Asks.run_bind (asks_runFragments saphyr allows _ _).run_adapt
        fun _ => trivial
  | instructions skill explain failSafe =>
      exact Asks.run_bind (asks_runFragments saphyr allows _ _).run_adapt
        fun _ => trivial
  | external raw => exact absurd rfl (builtin raw)

end Reading

/-! ## Setting a key -/

theorem local_setValue (rawKey value : Text) (level : Option Level) :
    Asks Local (setValue saphyr rawKey value level).run := by
  apply Asks.run_bind (asks_run_except _)
  intro key
  apply Asks.run_bind (asks_discoverStore local_reading)
  intro store
  exact Asks.onLeft
    (asks_set store saphyr (within_allowsWrite store _) key value)
    fun _ => Within.aloof

theorem local_dispatch (displayFloat : UInt64 → Text) (build : Build)
    (resolver : ResolveBinary) {command : Command}
    (builtin : ∀ raw, command ≠ .external raw) :
    Asks Local (dispatch saphyr displayFloat build resolver command).run :=
  asks_dispatch saphyr local_reading displayFloat build resolver builtin
    fun rawKey value level _ => local_setValue saphyr rawKey value level

/-! ## What a run asks for -/

/-- The operations of a process, whatever they answer, newest first. -/
abbrev Trace :=
  Unit × List (Event (both host processCalls) Unit Unit)

/-- The operations are recorded, and answer anything. -/
abbrev traced : Semantics (both host processCalls) Trace :=
  recorded (fun _ _ _ _ _ => True) ()

/-- The process looked for the project and discovered this one. -/
def Discovered (store : FileConfigStore) (trace : Trace) : Prop :=
  ∃ before after,
    Runs traced discoverStore.run before (.ok store) after ∧
      after.2 <:+ trace.2

/-- An operation which looks around, or is within the discovered project. -/
def Confined (trace : Trace) (op : (both host processCalls).Op) : Prop :=
  Local op ∧
    ∀ call, op = .inl call →
      Looks call ∨ ∃ store, Discovered store trace ∧ Within store call

/-- So was every operation so far. -/
def Stays (trace : Trace) : Prop :=
  ∀ event ∈ trace.2, Confined trace event.op

theorem Confined.grow
    {trace longer : Trace} {op : (both host processCalls).Op}
    (confined : Confined trace op) (grows : trace.2 <:+ longer.2) :
    Confined longer op := by
  refine ⟨confined.1, ?_⟩
  intro call same
  rcases confined.2 call same with looks | ⟨store, discovered, within⟩
  · exact .inl looks
  · rcases discovered with ⟨before, after, runs, earlier⟩
    exact .inr ⟨store, ⟨before, after, runs, earlier.trans grows⟩, within⟩

/-- A program whose operations are confined goes on to stay. -/
theorem ensures_stays
    {α : Type} {program : ProcessProgram α}
    {allowed : (both host processCalls).Op → Prop}
    (asks : Asks allowed program) {trace : Trace}
    (permits : ∀ op, allowed op → Confined trace op) (stays : Stays trace) :
    Ensures traced program
      (fun _ after => Stays after ∧ trace.2 <:+ after.2) trace := by
  apply asks.ensures
  · rintro op before answer after isAllowed ⟨_, grows⟩ ⟨earlier, since⟩
    have further : before.2 <:+ after.2 := grows ▸ List.suffix_cons _ before.2
    refine ⟨?_, since.trans further⟩
    intro event member
    rw [grows] at member
    rcases List.mem_cons.mp member with rfl | old
    · exact (permits op isAllowed).grow (since.trans further)
    · exact (earlier event old).grow further
  · exact ⟨stays, List.suffix_rfl⟩

/-- The operations which are confined whatever was discovered. -/
def Quiet (op : (both host processCalls).Op) : Prop :=
  ∀ trace, Confined trace op

theorem quiet_reading : AllowsReading Quiet where
  looks call looks _ := by
    refine ⟨aloof_of_looks looks, ?_⟩
    rintro other ⟨⟩
    exact .inl looks
  currentDir _ := ⟨trivial, fun _ => nofun⟩
  stdout _ _ := ⟨trivial, fun _ => nofun⟩
  stderr _ _ := ⟨trivial, fun _ => nofun⟩
  installs _ := ⟨trivial, fun _ => nofun⟩

theorem ensures_quiet
    {α : Type} {program : ProcessProgram α} (asks : Asks Quiet program)
    {trace : Trace} (stays : Stays trace) :
    Ensures traced program (fun _ after => Stays after) trace :=
  (ensures_stays asks (fun _ quiet => quiet trace) stays).mono
    fun _ _ holds => holds.1

/-- A key is set within the project which was discovered for it. -/
theorem ensures_setValue
    (rawKey value : Text) (level : Option Level) {trace : Trace}
    (stays : Stays trace) :
    Ensures traced (setValue saphyr rawKey value level).run
      (fun _ after => Stays after) trace := by
  rw [setValue, ensures_run_bind, ensures_run_except]
  cases Key.parse rawKey with
  | error error => exact stays
  | ok key =>
      rw [onOk_ok, lazySet, ensures_run_bind]
      apply ((ensures_runs _ _).and
        (ensures_quiet (asks_discoverStore quiet_reading) stays)).mono
      rintro found now ⟨runs, still⟩
      cases found with
      | error error => exact still
      | ok store =>
          have written :
              Asks
                (fun op : (both host processCalls).Op =>
                  ∃ call, op = .inl call ∧ Within store call)
                (onHost ((store.service saphyr).set key value
                  (level.getD .personal)).run) :=
            Asks.onLeft
              (asks_set store saphyr (within_allowsWrite store _) key value)
              fun call within => ⟨call, rfl, within⟩
          apply (ensures_stays written _ still).mono
          · exact fun _ _ holds => holds.1
          · rintro op ⟨call, rfl, within⟩
            refine ⟨within.aloof, ?_⟩
            rintro other ⟨⟩
            exact .inr ⟨store, ⟨trace, now, runs, List.suffix_rfl⟩, within⟩

theorem ensures_dispatch
    (displayFloat : UInt64 → Text) (build : Build)
    (resolver : ResolveBinary) {command : Command}
    (builtin : ∀ raw, command ≠ .external raw) {trace : Trace}
    (stays : Stays trace) :
    Ensures traced
      (dispatch saphyr displayFloat build resolver command).run
      (fun _ after => Stays after) trace := by
  by_cases isSet :
      ∃ rawKey value level, command = .config (.set rawKey value level)
  · rcases isSet with ⟨rawKey, value, level, rfl⟩
    show Ensures traced
      (ExceptT.adapt Error.ofConfig (setValue saphyr rawKey value level) >>=
        _).run _ _
    rw [ensures_run_bind, ensures_run_adapt]
    apply (ensures_setValue saphyr rawKey value level stays).mono
    intro result after still
    cases result with
    | error error => exact still
    | ok _ => exact still
  · apply ensures_quiet _ stays
    apply asks_dispatch saphyr quiet_reading displayFloat build resolver
      builtin
    intro rawKey value level same
    exact absurd ⟨rawKey, value, level, same⟩ isSet

section Commands

variable {libraries : Libraries}
variable (fromBase64 : Text → Except Text libraries.PublicKey)
variable (releaseKey : Text) (displayFloat : UInt64 → Text)
variable (build : Build) (environment : Variables)

/--
Whatever its calls answer, a built-in command downloads nothing, starts nothing
and changes no file by a name of a cache; beside looking around it touches
nothing but the files of the project which it discovered.
-/
theorem builtin_stays_local {command : Command}
    (builtin : ∀ raw, command ≠ .external raw) :
    Ensures traced
      (main fromBase64 releaseKey saphyr displayFloat build environment
        command)
      (fun _ trace => Stays trace) ((), []) := by
  have nothing : Stays ((), []) := fun _ member => nomatch member
  have reported (text : Text) {trace : Trace} (stays : Stays trace) :
      Ensures traced (printErrorLine text) (fun _ after => Stays after)
        trace :=
    ensures_quiet (asks_request (quiet_reading.stderr _)) stays
  rw [main, ensures_bind]
  apply (ensures_quiet (asks_request quiet_reading.installs) nothing).mono
  intro answer installed stays
  cases answer with
  | error error =>
      rw [ensures_bind]
      exact (reported _ stays).mono fun _ _ still => still
  | ok _ =>
      have ran :
          Ensures traced
            (run fromBase64 releaseKey saphyr displayFloat build environment
              command).run
            (fun _ after => Stays after) installed := by
        rw [run]
        cases environment.fixture with
        | some path => exact ensures_dispatch _ _ _ _ builtin stays
        | none => exact ensures_dispatch _ _ _ _ builtin stays
      rw [ensures_bind]
      apply ran.mono
      intro result after still
      cases result with
      | ok ending => exact still
      | error error =>
          rw [ensures_bind]
          exact (reported _ still).mono fun _ _ last => last

end Commands

def sampleVariables : Variables where
  directories :=
    { luminosityCacheDir := some (encode "/cache".toList)
      claudePluginRoot := none
      xdgCacheHome := none
      home := none }
  releaseBaseUrl := some (encode "https://github.com".toList)
  resolveFixture := none

def sampleBuild : Build where
  version := "2.0.0".toList
  commitSha := "0badc0de".toList
  buildDate := "2000-01-01T00:00:00Z".toList
  targetTriple := "x86_64-unknown-linux-musl".toList
  platform := "linux-x64".toList
  hostOs := .linux

/-- Setting a key, in the library of a release of one binary. -/
theorem set_stays_local :
    Ensures traced
      (main (fun _ => .ok () : Text → Except Text smallLibraries.PublicKey)
        [] smallSaphyr (fun _ => []) sampleBuild sampleVariables
        (.config (.set "core.example".toList "value".toList none)))
      (fun _ trace => Stays trace) ((), []) :=
  builtin_stays_local _ _ _ _ _ _ fun _ => nofun

end Luminosity.Launch.LocalCommands
