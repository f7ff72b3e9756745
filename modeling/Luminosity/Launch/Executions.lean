import Luminosity.Launch.LocalCommands
import Luminosity.Launch.ResolverConcurrency
import Luminosity.Adapters.StoreProse

/-!
# What launchers execute

Any number of launchers run at once over one volume, whatever their commands
and their environments are.  Every program one of them starts, as a child or in
its own place, is recorded with the volume at that moment.

A launcher starts two things.  One is the script with which it probes a
directory of its cache, which it wrote itself to a scratch file of its own.
The other is what an external command resolved to: the file a test fixture
names, or else the binary of an entry of its cache, which is verified, whatever
the other launchers did to the volume since the resolver returned its path.

A name of the cache may be a link.  What a launcher opens, renames, replaces or
removes is then none that the other names of the cache lead to or come by.
-/

namespace Luminosity.Launch.Executions

open Luminosity.Foundation.TextSegments
open Luminosity.Foundation.EffectPrograms
open Luminosity.Foundation.SumPrograms
open Luminosity.Foundation.Interleaving
open Luminosity.Foundation.Chains
open Luminosity.Host.Paths
open Luminosity.Host.Calls
open Luminosity.Host.Volumes
open Luminosity.Adapters.Document
open Luminosity.Adapters.StoreProse
open Luminosity.Launch.Core
open Luminosity.Launch.CacheRoot
open Luminosity.Launch.Verifier
open Luminosity.Launch.Cache
open Luminosity.Launch.LinkedCache
open Luminosity.Launch.Resolver
open Luminosity.Launch.ResolverConcurrency
open Luminosity.Launch.Process
open Luminosity.Launch.LocalCommands

/-! ## Recorded executions -/

/-- One program which a launcher started, and the volume at that moment. -/
structure Execution (ι : Type) where
  actor : ι
  program : Path
  args : List OsText
  volume : Volume

/-- The volume, and what was executed so far, newest first. -/
abbrev Computer (ι : Type) := Volume × List (Execution ι)

variable {ι : Type}

/-- Start a program from the volume. -/
def started (actor : ι) (program : Path) (args : List OsText)
    (before : Computer ι) : Computer ι :=
  (before.1, { actor, program, args, volume := before.1 } :: before.2)

/-- The calls of a process which are not on the volume or the network. -/
def running (actor : ι) : Semantics processCalls (Computer ι)
  | .status program, before, _, after =>
      after = started actor program [] before
  | .exec program args, before, _, after =>
      after = started actor program args before
  | _, before, _, after => after = before

/-- The directories in which a launcher may keep its cache. -/
def cacheDirectories (hostOs : HostOs) (config : CacheRootConfig) :
    List Path :=
  match config.cacheDirOverride, config.pluginRoot with
  | some overrideDir, _ => [Path.ofBytes overrideDir]
  | none, none => []
  | none, some pluginRoot =>
      (Path.ofBytes pluginRoot).join "bin".toList ::
        ((config.xdgFallback hostOs).map Path.ofBytes).toList

/-- Launchers in different processes, and the volume they start from. -/
structure Launchers (ι : Type) (libraries : Libraries) where
  fromBase64 : Text → Except Text libraries.PublicKey
  releaseKey : Text
  saphyr : Saphyr
  displayFloat : UInt64 → Text
  build : ι → Build
  environment : ι → Variables
  command : ι → Command
  process : ι → UInt32
  distinct : Function.Injective process
  surroundings : Surroundings
  initial : Volume
  unopened : ∀ actor, initial.opened (process actor) = none

variable {libraries : Libraries}

namespace Launchers

variable (launchers : Launchers ι libraries)

/-- The program of one launcher. -/
def program (actor : ι) : ProcessProgram Ending :=
  main launchers.fromBase64 launchers.releaseKey launchers.saphyr
    launchers.displayFloat (launchers.build actor)
    (launchers.environment actor) (launchers.command actor)

/-- The calls which spare the other names of the cache, and their links. -/
abbrev calls (actor : ι) : Semantics (both host processCalls) (Computer ι) :=
  combined (cautious launchers.surroundings (launchers.process actor))
    (running actor)

/-- All launchers before their first call. -/
def start : Machine (both host processCalls) ι (Computer ι) Ending where
  state := (launchers.initial, [])
  thread actor := some (launchers.program actor)

/-- The keys which a launcher trusts; without any it resolves nothing. -/
def keys : TrustedKeys libraries :=
  match embedded launchers.fromBase64 launchers.releaseKey with
  | .ok keys => keys
  | .error _ => { keys := [] }

/-- The directories in which the launcher may keep its cache. -/
def directories (actor : ι) : List Path :=
  cacheDirectories (launchers.build actor).hostOs
    (CacheRootConfig.fromEnv (launchers.environment actor).directories)

/-- The script of the launcher, at its own name in a cache directory. -/
def IsProbe (execution : Execution ι) : Prop :=
  execution.args = [] ∧
    ∃ dir ∈ launchers.directories execution.actor,
      execution.program =
          dir.join (probeName (launchers.process execution.actor)) ∧
        execution.volume.Holds execution.program probeScript

/--
The binary of an entry of the command, in a cache directory.  It is absent, or
has the digest in its name and is signed.
-/
def IsVerified (name : OsText) (execution : Execution ι) : Prop :=
  ∃ root ∈ launchers.directories execution.actor, ∃ text cached,
    name = .unicode text ∧
      EntryOf root text (launchers.build execution.actor).version cached ∧
        execution.program = cached.path ∧
          ∀ bytes, execution.volume.Holds execution.program bytes →
            sha256Hex libraries bytes = cached.sha256 ∧
              ∃ signature, launchers.keys.verifies bytes signature = true

/-- The probe of a directory, or the binary of an external command. -/
def Authorised (execution : Execution ι) : Prop :=
  launchers.IsProbe execution ∨
    ∃ name,
      launchers.command execution.actor =
          .external (name :: execution.args) ∧
        ((launchers.environment execution.actor).fixture =
            some execution.program ∨
          (launchers.environment execution.actor).fixture = none ∧
            launchers.IsVerified name execution)

end Launchers

/-! ## The rules of one launcher -/

section Rules

variable (launchers : Launchers ι libraries) (actor : ι)

abbrev volumeRules : Rules Volume :=
  rules launchers.keys (launchers.process actor)

def launcherRules : Rules (Computer ι) where
  invariant state :=
    ∀ execution ∈ state.2, launchers.Authorised execution
  rely before after := (volumeRules launchers actor).rely before.1 after.1
  guarantee before after :=
    (volumeRules launchers actor).guarantee before.1 after.1 ∧
      ∀ execution ∈ after.2,
        execution ∈ before.2 ∨ launchers.Authorised execution

variable {launchers actor}

theorem launcherRules_extends :
    Extends (launcherRules launchers actor) (volumeRules launchers actor) where
  invariant _ _ := trivial
  rely _ _ moves := moves
  guarantee _ _ guaranteed same :=
    ⟨guaranteed, fun _ member => Or.inl (same ▸ member)⟩

theorem launcherGuarantee_refl (state : Computer ι) :
    (launcherRules launchers actor).guarantee state state :=
  ⟨guarantee_refl state.1, fun _ member => Or.inl member⟩

/-- Starting a program keeps the rules when it may be started. -/
theorem guarantee_started
    {program : Path} {args : List OsText} {state : Computer ι}
    (authorised : launchers.Authorised
      { actor, program, args, volume := state.1 }) :
    (launcherRules launchers actor).guarantee state
      (started actor program args state) := by
  apply And.intro (guarantee_refl state.1)
  intro execution member
  rcases List.mem_cons.mp member with rfl | earlier
  · exact Or.inr authorised
  · exact Or.inl earlier

/-- Nothing is known of the computer. -/
abbrev Whatever : Computer ι → Prop := fun _ => True

abbrev Keeps {α : Type} (launchers : Launchers ι libraries) (actor : ι)
    (pre : Computer ι → Prop) (program : ProcessProgram α)
    (post : α → Computer ι → Prop) : Prop :=
  Abides (launchers.calls actor) (launcherRules launchers actor) pre program
    post

theorem stable_whatever :
    (launcherRules launchers actor).Stable Whatever :=
  Rules.Stable.const True

/-- A call which starts nothing. -/
theorem keeps_request (call : ProcessCall)
    (calm : ∀ before answer after,
      running actor call before answer after → after = before)
    {assertion : Computer ι → Prop}
    (stable : (launcherRules launchers actor).Stable assertion) :
    Keeps launchers actor assertion (request call) fun _ => assertion := by
  apply @Abides.onRight host processCalls _ _ _ _ _ _ call _ stable
  · exact fun _ => stable
  · intro before answer after _ holds step
    rw [calm before answer after step]
    exact ⟨launcherGuarantee_refl before, fun _ => holds⟩

/-- What the rules of the volume allow. -/
theorem keeps_onHost {α : Type} {program : HostProgram α}
    {pre : Volume → Prop} {post : α → Volume → Prop}
    (abides : Abides
      (careful launchers.surroundings (launchers.process actor))
      (volumeRules launchers actor) pre program post) :
    Keeps launchers actor (fun state => pre state.1) (onHost program)
      fun value state => post value state.1 :=
  Abides.onLeft launcherRules_extends (abides.stricter careful_of_cautious)

/-! ### Local programs -/

/-- What the launcher writes has no name of the cache. -/
abbrev Away (launchers : Launchers ι libraries) (actor : ι)
    (state : Computer ι) : Prop :=
  Aside (launchers.process actor) state.1

theorem stable_away :
    (launcherRules launchers actor).Stable (Away launchers actor) := by
  intro before after _ _ moves aside
  exact moves.2.aside aside

theorem Distant.guarantee
    {keys : TrustedKeys libraries} {unique : UInt32} {before after : Volume}
    (distant : Distant unique before after) :
    (rules keys unique).guarantee before after :=
  ⟨fun path bytes named holds =>
    Or.inl (distant.holds path bytes (Or.inl named) holds), distant.leaves⟩

theorem keeps_local {α : Type} {program : ProcessProgram α}
    (isLocal : Asks Local program) :
    Keeps launchers actor (Away launchers actor) program
      fun _ => Away launchers actor := by
  apply Abides.frame isLocal stable_away
  intro op before answer after allowed _ away step
  cases op with
  | inl call =>
      rcases step with ⟨step, same⟩
      have distant := distant_of_foreign away allowed.1 step
      exact ⟨⟨Distant.guarantee distant,
        fun execution member => Or.inl (same ▸ member)⟩,
        fun _ => distant.aside⟩
  | inr call =>
      have calm : after = before := by
        cases call with
        | status program => exact allowed.elim
        | exec program args => exact allowed.elim
        | _ => exact step
      rw [calm]
      exact ⟨launcherGuarantee_refl before, fun _ => away⟩

/-! ### The probe of a directory -/

theorem scratchOf_probe (dir : Path) (unique : UInt32) :
    ScratchOf unique (dir.join (probeName unique)) := by
  apply Or.inl
  exact ends_join dir ".luminosity-probe".toList (notMem_decimal rfl _)
    (notMem_decimal rfl _)

/-- The probe holds the script when it was written. -/
def Written (unique : UInt32) (probe : Path) (written : Bool)
    (volume : Volume) : Prop :=
  written = true → Writes CacheNamed unique probe probeScript volume

theorem stable_written
    {keys : TrustedKeys libraries} {unique : UInt32} {probe : Path}
    (scratch : ScratchOf unique probe) (written : Bool) :
    (rules keys unique).Stable (Written unique probe written) :=
  Rules.Stable.imp fun _ => stable_writes scratch probeScript

theorem abides_writeProbe
    {surroundings : Surroundings} {keys : TrustedKeys libraries}
    {unique : UInt32} {probe : Path} (scratch : ScratchOf unique probe) :
    Abides (careful surroundings unique) (rules keys unique) Anything
      (writeProbe probe) (Written unique probe) := by
  have unwritten :
      Abides (careful surroundings unique) (rules keys unique) Anything
        (pure false : HostProgram Bool) (Written unique probe) :=
    Abides.pure (stable_written scratch false) fun _ _ _ holds =>
      absurd holds (by decide)
  apply Abides.bind (abides_writeFile_scratch scratch probeScript)
  intro answer
  cases answer with
  | error error => exact unwritten
  | ok _ =>
      have marked :
          Abides (careful surroundings unique) (rules keys unique)
            (Writes CacheNamed unique probe probeScript)
            (issue (.setPermissions probe 0o755))
            fun _ => Writes CacheNamed unique probe probeScript := by
        apply Abides.perform (stable_writes scratch probeScript)
        · exact fun _ => stable_writes scratch probeScript
        · rintro before answer after _ writes ⟨step, _⟩
          cases step
          exact ⟨guarantee_refl before, fun _ => writes⟩
      apply marked.bind
      intro answer
      cases answer with
      | error error =>
          exact unwritten.weaken (fun _ _ _ => trivial) fun _ _ _ holds => holds
      | ok _ =>
          exact Abides.pure (stable_written scratch true)
            fun _ _ writes _ => writes

theorem keeps_done {α : Type} {pre : Computer ι → Prop} (value : α) :
    Keeps launchers actor pre (pure value : ProcessProgram α)
      fun _ => Whatever :=
  Abides.pure stable_whatever fun _ _ _ => trivial

/-- The probe is executed only while it holds the script. -/
theorem keeps_runProbe {dir : Path}
    (listed : dir ∈ launchers.directories actor) (written : Bool) :
    Keeps launchers actor
      (fun state =>
        Written (launchers.process actor)
          (dir.join (probeName (launchers.process actor))) written state.1)
      (runProbe (dir.join (probeName (launchers.process actor))) written)
      fun _ => Whatever := by
  have scratch := scratchOf_probe dir (launchers.process actor)
  cases written with
  | false => exact keeps_done false
  | true =>
      have ran :
          Keeps launchers actor
            (fun state =>
              Written (launchers.process actor)
                (dir.join (probeName (launchers.process actor))) true state.1)
            (request
              (.status (dir.join (probeName (launchers.process actor)))))
            fun _ => Whatever := by
        apply @Abides.onRight host processCalls
        · exact launcherRules_extends.stable (stable_written scratch true)
        · exact fun _ => stable_whatever
        · rintro before answer after _ written rfl
          refine ⟨guarantee_started (Or.inl ⟨rfl, dir, listed, rfl, ?_⟩),
            fun _ => trivial⟩
          exact (written rfl).holds
      apply ran.bind
      intro answer
      cases answer with
      | error error => exact keeps_done false
      | ok success => exact keeps_done success

theorem keeps_removeProbe {probe : Path}
    (scratch : ScratchOf (launchers.process actor) probe) :
    Keeps launchers actor Whatever (onHost (issue (.removeFile probe)))
      fun _ => Whatever := by
  have anything :
      (volumeRules launchers actor).Stable Anything :=
    Rules.Stable.const True
  have removed :
      Abides (careful launchers.surroundings (launchers.process actor))
        (volumeRules launchers actor) Anything (issue (.removeFile probe))
        fun _ => Anything := by
    apply Abides.perform anything fun _ => anything
    rintro before answer after _ _ ⟨step, _⟩
    exact ⟨guarantee_removeScratch scratch step, fun _ => trivial⟩
  exact keeps_onHost removed

theorem keeps_processId :
    Keeps launchers actor Whatever (onHost (issue .processId))
      fun answer _ => answer = launchers.process actor := by
  have known :
      Abides (careful launchers.surroundings (launchers.process actor))
        (volumeRules launchers actor) Anything (issue .processId)
        fun answer _ => answer = launchers.process actor := by
    apply Abides.perform (Rules.Stable.const True)
    · exact fun _ => Rules.Stable.const _
    · rintro before answer after _ _ ⟨⟨rfl, answered⟩, _⟩
      exact ⟨guarantee_refl _, fun _ => answered⟩
  exact keeps_onHost known

theorem keeps_probe {dir : Path}
    (listed : dir ∈ launchers.directories actor) :
    Keeps launchers actor Whatever (probeWritableAndExecutable dir)
      fun _ => Whatever := by
  have made :
      Abides (careful launchers.surroundings (launchers.process actor))
        (volumeRules launchers actor) Anything (createDirAll dir)
        fun _ => Anything :=
    abides_calm (asks_createDirAll dir)
      (fun _ _ _ _ scaffolds step => linked_scaffolds scaffolds step.1)
      (Rules.Stable.const True)
  apply (keeps_onHost made).bind
  intro answer
  cases answer with
  | error error => exact keeps_done false
  | ok _ =>
      apply keeps_processId.bind
      intro number
      apply Abides.assume
      rintro rfl
      have scratch := scratchOf_probe dir (launchers.process actor)
      apply (keeps_onHost (abides_writeProbe scratch)).bind
      intro written
      apply (keeps_runProbe listed written).bind
      intro executable
      apply (keeps_removeProbe scratch).bind
      intro _
      exact keeps_done executable

/-! ### Resolving -/

/-- What a computation which may fail promises of its value. -/
abbrev Promises {α ε : Type} (promise : α → Computer ι → Prop) :
    Except ε α → Computer ι → Prop :=
  onOk promise fun _ => Whatever

theorem keeps_throw {α ε : Type} {pre : Computer ι → Prop}
    {promise : α → Computer ι → Prop} (error : ε) :
    Keeps launchers actor pre (throw error : ProcessExcept ε α).run
      (Promises promise) :=
  Abides.run_throw stable_whatever fun _ _ _ => trivial

theorem keeps_resolveCacheRoot {hostOs : HostOs} {config : CacheRootConfig}
    (directories :
      launchers.directories actor = cacheDirectories hostOs config) :
    Keeps launchers actor Whatever (resolveCacheRoot hostOs config).run
      (Promises fun root _ => root ∈ launchers.directories actor) := by
  have probed {dir : Path} (listed : dir ∈ launchers.directories actor) :
      Keeps launchers actor Whatever
        (ExceptT.lift (probeWritableAndExecutable dir) :
          ProcessExcept ResolutionError Bool).run
        (Promises fun _ => Whatever) :=
    Abides.run_lift (keeps_probe listed)
  have returned {dir : Path} (listed : dir ∈ launchers.directories actor) :
      Keeps launchers actor Whatever
        (pure dir : ProcessExcept ResolutionError Path).run
        (Promises fun root _ => root ∈ launchers.directories actor) :=
    Abides.run_pure (Rules.Stable.const _) fun _ _ _ => listed
  rw [resolveCacheRoot]
  cases override : config.cacheDirOverride with
  | some overrideDir =>
      have listed :
          Path.ofBytes overrideDir ∈ launchers.directories actor := by
        simp [directories, cacheDirectories, override]
      apply Abides.run_bind (probed listed)
      intro usable
      cases usable with
      | true => exact returned listed
      | false => exact keeps_throw _
  | none =>
      cases plugin : config.pluginRoot with
      | none => exact keeps_throw _
      | some pluginRoot =>
          have listed :
              (Path.ofBytes pluginRoot).join "bin".toList ∈
                launchers.directories actor := by
            simp [directories, cacheDirectories, override, plugin]
          apply Abides.run_bind (probed listed)
          intro usable
          cases usable with
          | true => exact returned listed
          | false =>
              simp only
              cases xdg : config.xdgFallback hostOs with
              | none => exact keeps_throw _
              | some fallback =>
                  have listed :
                      Path.ofBytes fallback ∈
                        launchers.directories actor := by
                    simp [directories, cacheDirectories, override, plugin,
                      xdg]
                  apply Abides.run_bind (probed listed)
                  intro usable
                  cases usable with
                  | true => exact returned listed
                  | false => exact keeps_throw _

/--
The path is of an entry of the command in a cache directory, and what is there
is verified.
-/
def Ready (launchers : Launchers ι libraries) (actor : ι) (name : OsText)
    (path : Path) (state : Computer ι) : Prop :=
  (∃ root ∈ launchers.directories actor, ∃ text cached,
    name = .unicode text ∧
      EntryOf root text (launchers.build actor).version cached ∧
        path = cached.path) ∧
    Settled launchers.keys path state.1

theorem stable_ready (name : OsText) (path : Path) :
    (launcherRules launchers actor).Stable
      (Ready launchers actor name path) := by
  rintro before after _ _ moves ⟨isEntry, settled⟩
  refine ⟨isEntry, ?_⟩
  rcases isEntry with ⟨_, _, _, _, _, entry, rfl⟩
  exact moves.1.settled entry.binaryNamed settled

/-- The resolver of the launcher returns an entry of its cache. -/
theorem keeps_resolve {root : Path} (command : ExternalCommand)
    (listed : root ∈ launchers.directories actor) :
    Keeps launchers actor Whatever
      (onHostExcept
        (FetchVerifyCacheResolver.resolve
          { config :=
              productionConfig (launchers.build actor)
                (launchers.environment actor) root
            keys := launchers.keys } command)).run
      (Promises (Ready launchers actor command.name)) := by
  let resolver : FetchVerifyCacheResolver libraries :=
    { config :=
        productionConfig (launchers.build actor)
          (launchers.environment actor) root
      keys := launchers.keys }
  have resolved :
      Abides (careful launchers.surroundings (launchers.process actor))
        (volumeRules launchers actor) Anything
        (resolver.resolve command).run
        fun result volume =>
          (∀ path, result = .ok path → resolver.IsEntry command path) ∧
            Outcome launchers.keys result volume :=
    (abides_resolve resolver command).returning
      (resolver.returns_resolve command)
  apply (keeps_onHost resolved).weaken
  · exact fun _ _ _ => trivial
  · rintro result state _ ⟨entries, outcome⟩
    cases result with
    | error error => trivial
    | ok path =>
        rcases entries path rfl with ⟨text, cached, named, entry, same⟩
        exact ⟨⟨root, listed, text, cached, named, entry, same⟩, outcome.2⟩

theorem keeps_lazyProductionResolver (command : ExternalCommand) :
    Keeps launchers actor Whatever
      (lazyProductionResolver launchers.fromBase64 launchers.releaseKey
        (launchers.build actor) (launchers.environment actor) command).run
      (Promises (Ready launchers actor command.name)) := by
  have trusted :
      Keeps launchers actor Whatever
        (monadLift (embedded launchers.fromBase64 launchers.releaseKey) :
          ProcessExcept ResolutionError (TrustedKeys libraries)).run
        (Promises fun keys _ => keys = launchers.keys) := by
    apply Abides.run_except
    · cases embedded launchers.fromBase64 launchers.releaseKey with
      | error error => exact stable_whatever
      | ok keys => exact Rules.Stable.const _
    · intro state _ _
      rw [Launchers.keys]
      cases embedded launchers.fromBase64 launchers.releaseKey with
      | error error => trivial
      | ok keys => rfl
  have built :
      Keeps launchers actor Whatever
        (ExceptT.lift (request .buildClient) :
          ProcessExcept ResolutionError (Except Text Unit)).run
        (Promises fun _ => Whatever) :=
    Abides.run_lift
      (keeps_request .buildClient (fun _ _ _ step => step) stable_whatever)
  apply Abides.run_bind (keeps_resolveCacheRoot rfl)
  intro root
  apply Abides.assume
  intro listed
  apply Abides.run_bind trusted
  intro keys
  apply Abides.assume
  rintro rfl
  apply Abides.run_bind built
  intro answer
  cases answer with
  | error detail => exact keeps_throw _
  | ok _ => exact keeps_resolve command listed

/-! ### Running what was resolved -/

/-- Now the program may be started with these arguments. -/
def MayStart (launchers : Launchers ι libraries) (actor : ι)
    (args : List OsText) (program : Path) (state : Computer ι) : Prop :=
  launchers.Authorised
    { actor, program, args, volume := state.1 }

/-- A resolver which promises what may be started. -/
structure Permits (launchers : Launchers ι libraries) (actor : ι)
    (args : List OsText) (promise : Path → Computer ι → Prop) : Prop where
  stable : ∀ path, (launcherRules launchers actor).Stable (promise path)
  permits : ∀ path state, promise path state →
    MayStart launchers actor args path state

theorem permits_ready {name : OsText} {args : List OsText}
    (command : launchers.command actor = .external (name :: args))
    (unset : (launchers.environment actor).fixture = none) :
    Permits launchers actor args (Ready launchers actor name) where
  stable := stable_ready name
  permits := by
    rintro _ state ⟨⟨root, listed, text, cached, named, entry, rfl⟩, settled⟩
    refine .inr ⟨name, command, .inr ⟨unset, root, listed, text, cached, named,
      entry, rfl, ?_⟩⟩
    intro bytes holds
    rcases settled bytes holds with ⟨digestEnds, signed⟩
    exact ⟨digestEnds.unique entry.ends, signed⟩

theorem permits_fixture {name : OsText} {args : List OsText}
    (command : launchers.command actor = .external (name :: args)) :
    Permits launchers actor args
      fun path _ => (launchers.environment actor).fixture = some path where
  stable _ := Rules.Stable.const _
  permits _ _ fixture := Or.inr ⟨name, command, Or.inl fixture⟩

theorem keeps_runExternal {resolver : ResolveBinary}
    {command : ExternalCommand} {promise : Path → Computer ι → Prop}
    (permits : Permits launchers actor command.args promise)
    (resolves : Keeps launchers actor Whatever (resolver command).run
      (Promises promise)) :
    Keeps launchers actor Whatever (runExternal resolver command)
      fun _ => Whatever := by
  apply resolves.bind
  intro result
  cases result with
  | error error => exact keeps_done _
  | ok path =>
      have executed :
          Keeps launchers actor (promise path)
            (request (.exec path command.args)) fun _ => Whatever := by
        apply @Abides.onRight host processCalls _ _ _ _ _ _
          (.exec path command.args) _ (permits.stable path)
        · exact fun _ => stable_whatever
        · rintro before answer after _ holds rfl
          refine ⟨guarantee_started ?_, fun _ => trivial⟩
          exact permits.permits path before holds
      apply executed.bind
      intro failure
      exact keeps_done _

theorem keeps_dispatch_external {resolver : ResolveBinary}
    {raw : List OsText}
    (external : ∀ name args, raw = name :: args →
      ∃ promise, Permits launchers actor args promise ∧
        Keeps launchers actor Whatever (resolver { name, args }).run
          (Promises promise)) :
    Keeps launchers actor Whatever
      (dispatch launchers.saphyr launchers.displayFloat
        (launchers.build actor) resolver (.external raw)).run
      fun _ => Whatever := by
  cases raw with
  | nil => exact keeps_done _
  | cons name args =>
      rcases external name args rfl with ⟨promise, permits, resolves⟩
      have ran :
          Keeps launchers actor Whatever
            (ExceptT.lift (runExternal resolver { name, args }) :
              ProcessExcept Error (Option ResolutionError)).run
            (Promises fun _ => Whatever) :=
        Abides.run_lift (keeps_runExternal permits resolves)
      show Keeps launchers actor Whatever
        (ExceptT.lift (runExternal resolver { name, args }) >>=
          dispatched).run _
      apply Abides.run_bind ran
      intro failure
      cases failure with
      | none => exact keeps_done _
      | some error => exact keeps_done _

/-! ### The whole process -/

theorem keeps_run :
    Keeps launchers actor (Away launchers actor)
      (run launchers.fromBase64 launchers.releaseKey launchers.saphyr
        launchers.displayFloat (launchers.build actor)
        (launchers.environment actor) (launchers.command actor)).run
      fun _ => Whatever := by
  by_cases external : ∃ raw, launchers.command actor = .external raw
  · rcases external with ⟨raw, isExternal⟩
    have ran :
        Keeps launchers actor Whatever
          (run launchers.fromBase64 launchers.releaseKey launchers.saphyr
            launchers.displayFloat (launchers.build actor)
            (launchers.environment actor) (launchers.command actor)).run
          fun _ => Whatever := by
      rw [run, isExternal]
      cases fixture : (launchers.environment actor).fixture with
      | some path =>
          apply keeps_dispatch_external
          rintro name args rfl
          refine ⟨_, permits_fixture isExternal, ?_⟩
          rw [fixtureResolver, fixture]
          exact Abides.run_pure (Rules.Stable.const _) fun _ _ _ => rfl
      | none =>
          apply keeps_dispatch_external
          rintro name args rfl
          exact ⟨_, permits_ready isExternal fixture,
            keeps_lazyProductionResolver _⟩
    exact ran.weaken (fun _ _ _ => trivial) fun _ _ _ holds => holds
  · have builtin (raw : List OsText) :
        launchers.command actor ≠ .external raw :=
      fun same => external ⟨raw, same⟩
    have isLocal :
        Asks Local
          (run launchers.fromBase64 launchers.releaseKey launchers.saphyr
            launchers.displayFloat (launchers.build actor)
            (launchers.environment actor) (launchers.command actor)).run := by
      rw [run]
      cases (launchers.environment actor).fixture with
      | some path => exact local_dispatch _ _ _ _ builtin
      | none => exact local_dispatch _ _ _ _ builtin
    exact (keeps_local isLocal).weaken (fun _ _ away => away)
      fun _ _ _ _ => trivial

theorem keeps_program :
    Keeps launchers actor (Away launchers actor) (launchers.program actor)
      fun _ => Whatever := by
  have installed :
      Keeps launchers actor (Away launchers actor)
        (request .installCryptoProvider)
        fun _ => Away launchers actor :=
    keeps_request .installCryptoProvider (fun _ _ _ step => step) stable_away
  have reported {pre : Computer ι → Prop} (text : Text) :
      Keeps launchers actor pre (request (.stderr text))
        fun _ => Whatever :=
    (keeps_request (.stderr text) (fun _ _ _ step => step)
      stable_whatever).weaken (fun _ _ _ => trivial) fun _ _ _ holds => holds
  apply installed.bind
  intro answer
  cases answer with
  | error error =>
      apply (reported _).bind
      intro _
      exact keeps_done _
  | ok _ =>
      apply keeps_run.bind
      intro result
      cases result with
      | ok ending => exact keeps_done _
      | error error =>
          apply (reported _).bind
          intro _
          exact keeps_done _

end Rules

/-! ## All launchers together -/

namespace Launchers

variable (launchers : Launchers ι libraries)

theorem compatible :
    Compatible launchers.calls (launcherRules launchers)
      (fun state => ∀ execution ∈ state.2,
        launchers.Authorised execution) where
  shared _ := rfl
  preserved actor op before answer after holds _ guaranteed := by
    intro execution member
    rcases guaranteed.2 execution member with earlier | authorised
    · exact holds execution earlier
    · exact authorised
  tolerated actor other before after different _ _ guaranteed := by
    apply And.intro guaranteed.1.1
    apply guaranteed.1.2
    intro same
    exact different (launchers.distinct same)

theorem verified_start :
    Verified launchers.calls (launcherRules launchers)
      (fun state => ∀ execution ∈ state.2, launchers.Authorised execution)
      (fun _ _ => Whatever) launchers.start := by
  have nothing :
      ∀ execution ∈ launchers.start.state.2,
        launchers.Authorised execution :=
    fun _ member => nomatch member
  apply And.intro nothing
  rintro actor _ ⟨⟩
  apply keeps_program launchers.start.state nothing
  intro inode position opened
  cases (launchers.unopened actor).symm.trans opened

end Launchers

/--
In a run whose steps spare the other names of the cache, and their links:
whatever a launcher has ever started, it was authorised to start.
-/
theorem executions_authorised [DecidableEq ι]
    (launchers : Launchers ι libraries)
    {machine : Machine (both host processCalls) ι (Computer ι) Ending}
    (reaches : Reaches launchers.calls launchers.start machine) :
    ∀ execution ∈ machine.state.2, launchers.Authorised execution :=
  (reaches.verified launchers.compatible launchers.verified_start).1

/-! ## A command beside a change of the configuration -/

/--
A launcher of a cached command, and one which sets a key.  Another process left
a link in the cache.
-/
def pair : Launchers (Fin 2) smallLibraries where
  fromBase64 _ := .ok ()
  releaseKey := "untrusted comment: key\nRWQ".toList
  saphyr := smallSaphyr
  displayFloat _ := []
  build _ := sampleBuild
  environment _ := sampleVariables
  command
    | 0 => .external [.unicode "foo".toList, .unicode "--flag".toList]
    | 1 => .config (.set "core.example".toList "value".toList none)
  process actor := UInt32.ofNat actor.val
  distinct := processes_distinct
  surroundings := smallSurroundings
  initial := plantedVolume 2
  unopened _ := rfl

theorem cacheRoot_eq :
    Path.ofBytes (encode "/cache".toList) =
      smallResolver.config.cacheRoot := by
  rw [Path.ofBytes, decodeLossy_encode]
  decide

theorem productionConfig_eq :
    productionConfig sampleBuild sampleVariables
        smallResolver.config.cacheRoot =
      smallResolver.config := by
  have url :
      releaseBaseUrl sampleBuild sampleVariables =
        "https://github.com".toList :=
    decodeLossy_encode _
  rw [productionConfig, url]
  rfl

section Probing

variable {volume : Volume} {probe : Path} {inode : Nat}
variable (absent : volume.entry probe = none)
variable (unused : volume.Unused inode)

/-- The volume with a file which a process writes its probe to. -/
def probing (volume : Volume) (unique : UInt32) (probe : Path) (inode : Nat)
    (written : Bytes) : Volume :=
  (volume.enter probe inode).filled unique inode written

theorem probing_entry_self {unique : UInt32} (written : Bytes) :
    (probing volume unique probe inode written).entry probe = some inode :=
  Function.update_self ..

theorem probing_node_self {unique : UInt32} (written : Bytes) :
    (probing volume unique probe inode written).node inode = .file written :=
  Function.update_self ..

include absent unused

theorem probing_opens (unique : UInt32) :
    volume.Opens unique probe inode (probing volume unique probe inode []) :=
  .fresh absent unused

theorem probing_target (unique : UInt32) (written : Bytes) :
    (probing volume unique probe inode written).target = volume.target := by
  have opens := probing_opens absent unused unique
  have whole :
      probing volume unique probe inode written =
        (probing volume unique probe inode []).filled unique inode written :=
    (Volume.filled_filled [] written).symm
  rw [whole, Volume.filled_target opens.node_self, opens.target]

variable (unlinked : Unlinked volume probe)

include unlinked

/-- What another name of the cache holds stays when the probe is removed. -/
theorem holds_probing
    {unique : UInt32} {written bytes : Bytes} {path : Path}
    (named : CacheNamed path) (different : path ≠ probe)
    (holds : volume.Holds path bytes) :
    ((probing volume unique probe inode written).remove probe).Holds path
      bytes := by
  have target := probing_target absent unused unique written
  rcases holds with ⟨found, ⟨last, arrives, present⟩, isFile⟩
  have elsewhere : found ≠ inode := by
    rintro rfl
    exact unused.1 last present
  have notProbe : last ≠ probe := by
    rintro rfl
    rw [absent] at present
    cases present
  refine ⟨found, Volume.finds_remove ?_ ⟨last, ?_, ?_⟩, ?_⟩
  · rw [target]
    exact unlinked path named different
  · rw [target]
    exact arrives
  · exact (Volume.enter_entry_of_ne notProbe).trans present
  · rw [← isFile]
    exact @Volume.filled_node_of_ne (volume.enter probe inode) unique inode
      found elsewhere written

/-- Where nothing fails the probe succeeds, and is removed. -/
theorem runs_probe
    (surroundings : Surroundings) (unique : UInt32) (actor : ι) {dir : Path}
    (same : probe = dir.join (probeName unique))
    (log : List (Execution ι)) :
    ∃ longer,
      Runs (combined (cautious surroundings unique) (running actor))
        (probeWritableAndExecutable dir) (volume, log) true
        ((probing volume unique probe inode probeScript).remove probe,
          longer) := by
  subst same
  let probe := dir.join (probeName unique)
  let state := probing volume unique probe inode
  have stops : volume.target probe = none :=
    Volume.target_eq_none_of_absent absent
  have created :
      Runs (cautious surroundings unique) (createDirAll dir) volume (.ok ())
        volume :=
    runs_createDirAll (fun _ => ⟨rfl, trivial⟩) dir
  have spares : Careful (.create probe) volume := by
    rintro other named different ⟨last, otherLast, here, there, meets⟩
    cases here.unique (arrives_self stops)
    rcases meets with rfl | ⟨_, present, _⟩
    · exact unlinked other named different there.passes
    · rw [absent] at present
      cases present
  have written :
      Runs (cautious surroundings unique) (writeFile probe probeScript) volume
        (.ok ()) (state probeScript) := by
    apply @runs_writeFile _ _ probe state
    · exact fun bytes byte _ =>
        ⟨Volume.appends_filled probe bytes byte, trivial⟩
    · exact ⟨⟨probe, inode, arrives_self stops,
        probing_opens absent unused unique⟩, spares⟩
  have wrote :
      Runs (cautious surroundings unique) (writeProbe probe) volume true
        (state probeScript) := by
    apply written.bind
    have marked :
        Runs (cautious surroundings unique)
          (issue (.setPermissions probe 0o755)) (state probeScript) (.ok ())
          (state probeScript) :=
      Runs.perform ⟨rfl, trivial⟩
    exact marked.bind (.done _ _)
  have ran :
      Runs (combined (cautious surroundings unique) (running actor))
        (runProbe probe true) (state probeScript, log) true
        (started actor probe [] (state probeScript, log)) := by
    have child :
        Runs (combined (cautious surroundings unique) (running actor))
          (request (.status probe)) (state probeScript, log) (.ok true)
          (started actor probe [] (state probeScript, log)) :=
      Runs.perform rfl
    exact child.bind (.done _ _)
  have removed :
      Runs (cautious surroundings unique) (issue (.removeFile probe))
        (state probeScript) (.ok ()) ((state probeScript).remove probe) := by
    refine Runs.perform ⟨⟨?_, ?_, rfl⟩, ?_⟩
    · rw [probing_entry_self]
      exact Option.some_ne_none _
    · rintro ⟨found, present, isDirectory⟩
      cases (probing_entry_self _).symm.trans present
      cases (probing_node_self probeScript).symm.trans isDirectory
    · intro other named different
      rw [probing_target absent unused]
      exact unlinked other named different
  have number :
      Runs (cautious surroundings unique) (issue .processId) volume unique
        volume :=
    Runs.perform ⟨⟨rfl, rfl⟩, trivial⟩
  refine ⟨(started actor probe [] (state probeScript, log)).2, ?_⟩
  apply (Runs.onLeft created log).bind
  apply (Runs.onLeft number log).bind
  apply (Runs.onLeft wrote log).bind
  apply ran.bind
  apply (Runs.onLeft removed _).bind
  exact .done _ _

end Probing

/-! ### The run of the first launcher -/

/-- The path at which the first launcher probes its cache. -/
def probePath : Path :=
  smallResolver.config.cacheRoot.join (probeName (UInt32.ofNat 0))

theorem scratchOf_probePath : ScratchOf (pair.process 0) probePath :=
  scratchOf_probe _ _

/-- No file of the cache has the name of the probe. -/
theorem planted_ne_probePath {path : Path} {inode : Nat}
    (present : (plantedVolume 2).entry path = some inode) :
    path ≠ probePath := by
  have scratch := scratchOf_probePath
  have entry := smallEntry_of currentBinary
  rintro rfl
  change plantedEntry 2 probePath = some inode at present
  rw [plantedEntry] at present
  split_ifs at present with binary signature planted
  · exact entry.binaryNamed.not_scratchOf _ (binary ▸ scratch)
  · exact entry.signatureNamed.not_scratchOf _ (signature ▸ scratch)
  · have other : ScratchOf 2 probePath :=
      planted ▸ scratchOf_tempName _ _ _
    exact absurd (scratch.unique other) (by decide)

theorem planted_probePath : (plantedVolume 2).entry probePath = none := by
  cases present : (plantedVolume 2).entry probePath with
  | none => rfl
  | some inode => exact absurd rfl (planted_ne_probePath present)

theorem planted_unused : (plantedVolume 2).Unused 3 := by
  constructor
  · intro path present
    exact Nat.lt_irrefl 3 (plantedEntry_lt 2 path 3 present)
  · rintro process position ⟨⟩

/-- The link in the cache leads to the binary. -/
theorem planted_unlinked : Unlinked (plantedVolume 2) probePath := by
  intro other _ different passes
  rcases Relation.ReflTransGen.cases_tail passes with same | ⟨_, _, sends⟩
  · exact different same.symm
  · rcases Volume.target_eq_some_iff.mp sends with ⟨inode, _, isLink⟩
    have binary : probePath = (smallEntry currentBinary).path := by
      rcases inode with _ | _ | inode
      · cases isLink
      · cases isLink
      · exact (Node.link.inj isLink).symm
    exact planted_ne_probePath planted_binary binary.symm

/-- What the first launcher is asked to run. -/
def pairCommand : ExternalCommand where
  name := .unicode "foo".toList
  args := [.unicode "--flag".toList]

/-- The first launcher finds its command in the cache. -/
theorem runs_resolved :
    ∃ computer,
      Runs (pair.calls 0)
        (lazyProductionResolver pair.fromBase64 pair.releaseKey
          sampleBuild sampleVariables pairCommand).run
        (pair.initial, []) (.ok (smallEntry currentBinary).path)
        computer := by
  let entry := smallEntry currentBinary
  have named := smallEntry_of currentBinary
  rcases runs_probe planted_probePath planted_unused planted_unlinked
      pair.surroundings (pair.process 0) (0 : Fin 2) rfl [] with
    ⟨log, probed⟩
  let after :=
    (probing (plantedVolume 2) (pair.process 0) probePath 3
      probeScript).remove probePath
  have binary : after.Holds entry.path currentBinary :=
    holds_probing planted_probePath planted_unused planted_unlinked
      (.inl named.binaryNamed) (planted_ne_probePath planted_binary)
      planted_holds
  have signature :
      after.Holds entry.signaturePath (encode "current".toList) :=
    holds_probing planted_probePath planted_unused planted_unlinked
      (.inr (.inl named.signatureNamed))
      (planted_ne_probePath planted_signature) planted_holds_signature
  have rooted :
      Runs (pair.calls 0)
        (resolveCacheRoot .linux
          (CacheRootConfig.fromEnv sampleVariables.directories)).run
        (pair.initial, []) (.ok smallResolver.config.cacheRoot)
        (after, log) := by
    have fromEnv :
        (CacheRootConfig.fromEnv sampleVariables.directories).cacheDirOverride
          = some (encode "/cache".toList) := by
      decide
    rw [resolveCacheRoot, fromEnv]
    simp only [cacheRoot_eq]
    apply probed.run_lift.run_bind
    exact .done _ _
  have hit :
      Runs (pair.calls 0)
        (onHostExcept (smallResolver.resolve pairCommand)).run (after, log)
        (.ok entry.path) (after, log) := by
    apply Runs.onLeft
    apply smallResolver.runs_cached named ⟨⟨rfl, rfl⟩, trivial⟩ _
      ⟨⟨rfl, binary⟩, trivial⟩ ⟨⟨rfl, signature⟩, trivial⟩
      (decode_encode "current".toList)
    · apply verifyBinary_ok_iff.mpr
      exact ⟨rfl, (smallKeys_verifies_iff _ _).mpr (by decide)⟩
    · rcases signature with ⟨inode, finds, _⟩
      exact ⟨⟨rfl, fun _ => ⟨inode, finds⟩⟩, trivial⟩
  have client :
      Runs (pair.calls 0) (request .buildClient) (after, log)
        (.ok ()) (after, log) :=
    Runs.perform rfl
  refine ⟨(after, log), ?_⟩
  apply rooted.run_bind
  apply client.run_lift.run_bind
  rw [productionConfig_eq]
  exact hit

/-- The first launcher replaces itself by what the cache holds. -/
theorem exists_replaced :
    ∃ computer execution,
      Runs (pair.calls 0) (pair.program 0) (pair.initial, []) .replaced
          computer ∧
        execution ∈ computer.2 ∧
          execution.program = (smallEntry currentBinary).path ∧
            execution.args = [.unicode "--flag".toList] := by
  let path := (smallEntry currentBinary).path
  rcases runs_resolved with ⟨computer, resolved⟩
  have replaced :
      Runs (pair.calls 0)
        (runExternal
          (lazyProductionResolver pair.fromBase64 pair.releaseKey
            sampleBuild sampleVariables) pairCommand)
        (pair.initial, []) none
        (started 0 path pairCommand.args computer) := by
    have executed :
        Runs (pair.calls 0) (request (.exec path pairCommand.args))
          computer none (started 0 path pairCommand.args computer) :=
      Runs.perform rfl
    apply resolved.bind
    apply executed.bind
    exact .done _ _
  have installed :
      Runs (pair.calls 0) (request .installCryptoProvider)
        (pair.initial, []) (.ok ()) (pair.initial, []) :=
    Runs.perform rfl
  have ran :
      Runs (pair.calls 0)
        (run pair.fromBase64 pair.releaseKey pair.saphyr
          pair.displayFloat sampleBuild sampleVariables
          (pair.command 0)).run
        (pair.initial, []) (.ok .replaced)
        (started 0 path pairCommand.args computer) := by
    apply replaced.run_lift.run_bind
    exact .done _ _
  refine ⟨started 0 path pairCommand.args computer, _, ?_,
    List.mem_cons_self, rfl, rfl⟩
  apply installed.bind
  apply ran.bind
  exact .done _ _

/-- What the first launcher has become passed the checks. -/
theorem executions_authorised_pair :
    ∃ machine execution,
      Reaches pair.calls pair.start machine ∧
        execution ∈ machine.state.2 ∧
          execution.args = [.unicode "--flag".toList] ∧
            pair.Authorised execution := by
  rcases exists_replaced with
    ⟨computer, execution, runs, member, _, args⟩
  have reaches :
      Reaches pair.calls pair.start
        { state := computer
          thread :=
            Function.update pair.start.thread 0 (some (.done .replaced)) } :=
    Reaches.alone (Runs.advances runs) rfl rfl
  exact ⟨_, execution, reaches, member, args,
    executions_authorised pair reaches execution member⟩

end Luminosity.Launch.Executions
