import Luminosity.Launch.Histories
import Luminosity.Launch.ResolverConcurrency

/-!
# What reaches the cache

A resolver runs alone over a volume with arbitrary contents, against a network
which answers anything, and every call may fail.  Its calls are recorded.

A file of the cache gets the name of a binary by a rename only, and what is
renamed was verified against a manifest which was served in the run.  A run
which fails before it begins to write has at most removed an entry which failed
to verify.

A scratch file is written before its contents have a name of their own.  So all
this holds as long as no binary is found through the name of a scratch file, or
through the name of a signature which is replaced.
-/

namespace Luminosity.Launch.CacheWrites

open Luminosity.Foundation.TextSegments
open Luminosity.Foundation.EffectPrograms
open Luminosity.Foundation.Interleaving
open Luminosity.Foundation.Chains
open Luminosity.Host.Paths
open Luminosity.Host.Calls
open Luminosity.Host.Volumes
open Luminosity.Launch.Core
open Luminosity.Launch.Verifier
open Luminosity.Launch.Cache
open Luminosity.Launch.LinkedCache
open Luminosity.Launch.Resolver
open Luminosity.Launch.Histories
open Luminosity.Launch.ResolverConcurrency
open Luminosity.Launch.Resolver.FetchVerifyCacheResolver

/-- The calls which spare the binaries. -/
abbrev gentle : Surroundings → UInt32 → Semantics host Volume :=
  sparing BinaryNamed SignatureNamed

theorem gentle_calm (surroundings : Surroundings) (unique : UInt32) :
    Calm (gentle surroundings unique) where
  reads _ _ _ _ reads step := linked_reads reads step.1
  scaffolds _ _ _ _ scaffolds step := linked_scaffolds scaffolds step.1

/-! ## What the binaries hold -/

/-- What a binary holds it held before, or it is permitted. -/
def Adds (permitted : Bytes → Prop) (before after : Volume) : Prop :=
  ∀ path bytes, BinaryNamed path → after.Holds path bytes →
    before.Holds path bytes ∨ permitted bytes

section Adding

variable {permitted : Bytes → Prop} {before middle after : Volume}

theorem Adds.refl (volume : Volume) : Adds permitted volume volume :=
  fun _ _ _ holds => .inl holds

theorem Adds.trans
    (first : Adds permitted before middle)
    (second : Adds permitted middle after) :
    Adds permitted before after := by
  intro path bytes binary holds
  rcases second path bytes binary holds with earlier | isPermitted
  · exact first path bytes binary earlier
  · exact .inr isPermitted

theorem Adds.mono
    {wider : Bytes → Prop} (widens : ∀ bytes, permitted bytes → wider bytes)
    (adds : Adds permitted before after) :
    Adds wider before after :=
  fun path bytes binary holds =>
    (adds path bytes binary holds).imp_right (widens bytes)

theorem adds_remove (path : Path) :
    Adds permitted before (before.remove path) :=
  fun _ _ _ holds => .inl (Volume.holds_of_remove holds)

variable {surroundings : Surroundings} {unique : UInt32}

theorem adds_removes
    {among : Path → Prop} {call : Call} (removes : Removes among call)
    {answer : call.Answer}
    (step : gentle surroundings unique call before answer after) :
    Adds permitted before after := by
  rcases removes.reads_or_removes with reads | ⟨path, rfl, _⟩
  · rw [linked_reads reads step.1]
    exact .refl before
  · cases linked_effect step.1 with
    | idle call => exact .refl before
    | removeFile path => exact adds_remove path

/-- Opening a scratch file which shares nothing with a binary. -/
theorem adds_opens
    {temp last : Path} {inode : Nat} (scratch : ScratchOf unique temp)
    (spares : Spares BinaryNamed SignatureNamed (.create temp) before)
    (arrives : Arrives before.target temp last)
    (opens : before.Opens unique last inode after) :
    Adds permitted before after := by
  intro path bytes binary holds
  have different : path ≠ temp := by
    rintro rfl
    exact binary.not_scratchOf unique scratch
  exact .inl (opens.holds_of_not_meets arrives
    (spares path binary different) holds)

/-- Writing to it. -/
theorem adds_write
    {temp : Path} {inode position : Nat} (scratch : ScratchOf unique temp)
    (sole : Sole BinaryNamed before temp inode) {held : Bytes}
    (isFile : before.node inode = .file held) (byte : UInt8) :
    Adds permitted before
      (before.write unique inode position held byte) := by
  intro path bytes binary holds
  apply Or.inl (Volume.holds_of_write isFile _ holds)
  intro finds
  have same := sole.only path binary finds
  exact binary.not_scratchOf unique (same ▸ scratch)

/-- What a scratch file may be renamed to. -/
def MayPlace (permitted : Bytes → Prop) (bytes : Bytes) (target : Path) :
    Prop :=
  SignatureNamed target ∨ BinaryNamed target ∧ permitted bytes

/-- Renaming it. -/
theorem adds_rename
    {temp target : Path} {bytes : Bytes} {named : Nat}
    (scratch : ScratchOf unique temp)
    (mayPlace : MayPlace permitted bytes target)
    (spares : Spares BinaryNamed SignatureNamed (.rename temp target) before)
    (writes : Writes BinaryNamed unique temp bytes before)
    (present : before.entry temp = some named) :
    Adds permitted before (before.rename temp target named) := by
  have distinct : temp ≠ target := by
    rintro rfl
    rcases mayPlace with signature | ⟨binary, _⟩
    · exact signature.not_scratchOf unique scratch
    · exact binary.not_scratchOf unique scratch
  intro path held binary holds
  rcases mayPlace with signature | ⟨binaryTarget, isPermitted⟩
  · have different : path ≠ target := by
      rintro rfl
      exact binary.not_signatureNamed signature
    exact .inl (Volume.holds_of_rename distinct
      (spares signature path binary different) holds)
  · rcases writes with ⟨inode, sole, _, isFile⟩
    rcases holds with ⟨found, finds, isHeld⟩
    rw [Volume.rename_node] at isHeld
    rcases Volume.finds_of_rename distinct finds with earlier | ⟨_, through⟩
    · exact .inl ⟨found, earlier, isHeld⟩
    · have moved :
          (before.rename temp target named).Finds target inode :=
        Volume.finds_rename_target present
          (sole.avoids binaryTarget (Ne.symm distinct)) sole.finds
      rw [through.unique moved, isFile] at isHeld
      exact .inr (Node.file.inj isHeld ▸ isPermitted)

end Adding

/-! ## Storing -/

section Storing

variable {surroundings : Surroundings} {unique : UInt32}
variable {permitted : Bytes → Prop}

/-- A program which looks and removes adds nothing. -/
theorem ensures_removing
    {α : Type} {program : HostProgram α} {among : Path → Prop}
    (asks : Asks (Removes among) program) (volume : Volume) :
    Ensures (gentle surroundings unique) program
      (fun _ after => Adds permitted volume after) volume := by
  apply asks.ensures
  · intro call before answer after removes step adds
    exact adds.trans (adds_removes removes step)
  · exact .refl volume

theorem ensures_writeFile_adds
    {temp : Path} (scratch : ScratchOf unique temp) (bytes : Bytes)
    (volume : Volume) :
    Ensures (gentle surroundings unique) (writeFile temp bytes)
      (onOk
        (fun _ after => Writes BinaryNamed unique temp bytes after ∧
          Adds permitted volume after)
        fun _ after => Adds permitted volume after)
      volume := by
  let progress (written : Bytes) (after : Volume) : Prop :=
    Writes BinaryNamed unique temp written after ∧
      Adds permitted volume after
  apply @ensures_writeFile _ _ temp (· = volume) progress
    fun _ after => Adds permitted volume after
  · rintro before answer after rfl ⟨step, spares⟩
    cases answer with
    | error error =>
        cases step
        exact .refl before
    | ok _ =>
        rcases step with ⟨last, inode, arrives, opens⟩
        exact ⟨writes_opens spares arrives opens,
          adds_opens scratch spares arrives opens⟩
  · rintro written byte before answer after ⟨writes, adds⟩ ⟨step, _⟩
    cases answer with
    | error error =>
        cases step
        exact adds
    | ok _ =>
        rcases step with ⟨inode, position, held, opened, isFile, rfl⟩
        exact ⟨writes.write opened isFile, adds.trans
          (adds_write scratch (writes.sole opened) isFile byte)⟩
  · rfl

theorem ensures_setExecutable
    (temp : Path) (executable : Bool) (volume : Volume) :
    Ensures (gentle surroundings unique)
      (if executable then setExecutable temp else pure () :
        ResolutionProgram Unit).run
      (fun _ after => after = volume) volume := by
  cases executable with
  | false => rfl
  | true =>
      rw [if_pos rfl, setExecutable, ensures_invoke_bind]
      rintro answer after ⟨step, _⟩
      cases step
      cases answer <;> rfl

theorem ensures_writeThenRename
    {temp target : Path} {bytes : Bytes} (executable : Bool)
    (scratch : ScratchOf unique temp)
    (mayPlace : MayPlace permitted bytes target) (volume : Volume) :
    Ensures (gentle surroundings unique)
      (writeThenRename temp target bytes executable).run
      (fun _ after => Adds permitted volume after) volume := by
  rw [writeThenRename, ensures_run_bind, ensures_run_lift]
  apply (ensures_writeFile_adds scratch bytes volume).mono
  intro written staged outcome
  cases written with
  | error error => exact outcome
  | ok _ =>
      rcases outcome with ⟨writes, adds⟩
      rw [onOk_ok, ensures_run_bind]
      apply (ensures_setExecutable temp executable staged).mono
      rintro marked now rfl
      cases marked with
      | error error => exact adds
      | ok _ =>
          rw [onOk_ok, ensures_invoke_bind]
          rintro answer after ⟨step, spares⟩
          cases answer with
          | ok _ =>
              rcases step with ⟨named, present, _, _, rfl⟩
              exact adds.trans
                (adds_rename scratch mayPlace spares writes present)
          | error error =>
              cases step
              rw [ensures_invoke_bind]
              rintro removal last ⟨step, _⟩
              cases linked_effect step with
              | idle call => exact adds
              | removeFile => exact adds.trans (adds_remove temp)

/-- The binaries hold what is stored, or what they held. -/
theorem ensures_store_adds
    {root : Path} {name version sha256 signature : Text} {bytes : Bytes}
    (hex : isSha256Hex sha256 = true) (isPermitted : permitted bytes)
    (volume : Volume) :
    Ensures (gentle surroundings unique)
      (store root name version sha256 bytes signature).run
      (fun _ after => Adds permitted volume after) volume := by
  have entry := @EntryOf.of_digest root name version sha256 hex
  have made :
      Ensures (gentle surroundings unique) (createDirAll root)
        (fun _ after => after = volume) volume := by
    apply (asks_createDirAll root).ensures
    · rintro call before answer after scaffolds step rfl
      exact linked_scaffolds scaffolds step.1
    · rfl
  rw [store, ensures_run_bind, ensures_run_lift]
  apply made.mono
  rintro created now rfl
  cases created with
  | error error => exact .refl now
  | ok _ =>
      rw [onOk_ok, ensures_invoke_bind]
      rintro answer current ⟨⟨rfl, rfl⟩, _⟩
      rw [ensures_run_bind]
      apply (ensures_writeThenRename true (scratchOf_tempName root _ answer)
        (.inr ⟨entry.binaryNamed, isPermitted⟩) current).mono
      intro placed middle adds
      cases placed with
      | error error => exact adds
      | ok _ =>
          rw [onOk_ok, ensures_run_bind]
          apply (ensures_writeThenRename false
            (scratchOf_tempSignatureName root _ answer)
            (.inl entry.signatureNamed) middle).mono
          intro renamed last later
          cases renamed with
          | error error => exact adds.trans later
          | ok _ => exact adds.trans later

end Storing

/-! ## Fetching -/

section Fetching

variable {libraries : Libraries}
variable {surroundings : Surroundings} {unique : UInt32}
variable (resolver : FetchVerifyCacheResolver libraries)

/-- The volume with the history which led to it. -/
abbrev Log := Volume × History Volume

/-- The calls which spare the binaries, recorded. -/
abbrev calls (surroundings : Surroundings) (unique : UInt32) :
    Semantics host Log :=
  logged (gentle surroundings unique)

/--
The binaries hold authorised bytes, or what they held; a run which fails
changed nothing, unless it began to write.
-/
structure FetchOutcome (name : Text) (before : Volume)
    (result : Except ResolutionError Path) (after : Log) : Prop where
  adds : Adds (fun bytes => Authorised resolver name bytes after.2) before
    after.1
  failed : ∀ error, result = .error error →
    Created after.2 ∨ after.1 = before

variable {resolver}

theorem FetchOutcome.unchanged
    {name : Text} {before : Volume} {result : Except ResolutionError Path}
    {after : Log} (same : after.1 = before) :
    FetchOutcome resolver name before result after where
  adds := by
    rw [same]
    exact .refl before
  failed _ _ := .inr same

/-- Storing authorised bytes and then tidying up. -/
theorem ensures_storeAuthorised
    {name signature : Text} {bytes : Bytes} {log : Log}
    (authorised : Authorised resolver name bytes log.2) :
    Ensures (calls surroundings unique)
      (do
        let cached ←
          store resolver.config.cacheRoot name
            resolver.config.expectedVersion (sha256Hex libraries bytes) bytes
            signature
        ExceptT.lift
          (enforceRetentionCap resolver.config.cacheRoot name
            resolver.config.retainedVersions)
        return cached.path : ResolutionProgram Path).run
      (FetchOutcome resolver name log.1) log := by
  have stored :
      Ensures (gentle surroundings unique)
        (store resolver.config.cacheRoot name resolver.config.expectedVersion
          (sha256Hex libraries bytes) bytes signature).run
        (fun _ after => Adds (· = bytes) log.1 after) log.1 :=
    @ensures_store_adds _ _ (· = bytes) _ _ _ _ _ _
      (isSha256Hex_sha256Hex libraries bytes) rfl log.1
  have allows {longer : History Volume} (grows : log.2 <:+ longer)
      (held : Bytes) (same : held = bytes) :
      Authorised resolver name held longer :=
    same ▸ authorised.grow grows
  rw [ensures_run_bind]
  apply ((@Ensures.recorded _ _ _ _ _ () _ _ _ stored log.2).and
    (ensures_store_created (gentle_calm surroundings unique) _ _ _ _ _ _
      log)).mono
  rintro result middle ⟨⟨adds, grows⟩, began⟩
  cases result with
  | error error =>
      refine ⟨adds.mono (allows grows), ?_⟩
      intro _ _
      exact began.imp_right And.left
  | ok cached =>
      rw [onOk_ok, ensures_run_bind, ensures_run_lift]
      have tidied :
          Ensures (gentle surroundings unique)
            (enforceRetentionCap resolver.config.cacheRoot name
              resolver.config.retainedVersions)
            (fun _ after => Adds (· = bytes) middle.1 after) middle.1 :=
        ensures_removing (@asks_enforceRetentionCap _ _ _) middle.1
      apply (@Ensures.recorded _ _ _ _ _ () _ _ _ tidied middle.2).mono
      rintro _ after ⟨later, further⟩
      refine ⟨(adds.trans later).mono (allows (grows.trans further)), ?_⟩
      rintro error ⟨⟩

theorem ensures_fetchVerifyStore_outcome (name : Text) (log : Log) :
    Ensures (calls surroundings unique)
      (resolver.fetchVerifyStore name).run
      (FetchOutcome resolver name log.1) log := by
  have calm := gentle_calm surroundings unique
  rw [fetchVerifyStore]
  apply (ensures_loadManifest calm resolver log).run_bind
  · rintro manifest loaded ⟨same, authority⟩
    cases listed :
        manifest.platformEntry name resolver.config.platform with
    | none => exact FetchOutcome.unchanged same
    | some entry =>
        apply (ensures_fetch calm _ _ _ loaded).run_bind
        · rintro bytes fetched ⟨still, grows, _⟩
          rw [ensures_run_bind, ensures_run_except]
          cases passed : verifyBinary (resolver.assetName name) bytes
              entry.sha256 entry.signature resolver.keys with
          | error error => exact FetchOutcome.unchanged (still.trans same)
          | ok _ =>
              rcases verifyBinary_ok_iff.mp passed with ⟨digest, verified⟩
              have authorised :
                  Authorised resolver name bytes fetched.2 :=
                ⟨manifest, entry, authority.grow grows, listed, digest.symm,
                  verified⟩
              rw [onOk_ok, ← digest, ← still.trans same]
              exact ensures_storeAuthorised authorised
        · intro error after still
          exact FetchOutcome.unchanged (still.trans same)
  · intro error after same
    exact FetchOutcome.unchanged same

end Fetching

/-! ## Resolving -/

section Resolving

variable {libraries : Libraries}
variable {surroundings : Surroundings} {unique : UInt32}
variable (resolver : FetchVerifyCacheResolver libraries)

theorem ensures_removing_loses
    {α : Type} {program : HostProgram α} {among : Path → Prop}
    (asks : Asks (Removes among) program) (volume : Volume) :
    Ensures (gentle surroundings unique) program
      (fun _ after => Volume.Loses among volume after) volume := by
  apply asks.ensures
  · intro call before answer after removes step loses
    rcases removes.reads_or_removes with reads | ⟨path, rfl, named⟩
    · rw [linked_reads reads step.1]
      exact loses
    · cases linked_effect step.1 with
      | idle call => exact loses
      | removeFile path => exact loses.remove named
  · exact .refl volume

/-- The run found an entry which then failed to verify. -/
def Refused (name : Text) (surroundings : Surroundings) (unique : UInt32)
    (initial : Volume) (cached : CachedBinary) (history : History Volume) :
    Prop :=
  ∃ found failed error,
    Runs (calls surroundings unique)
        (find resolver.config.cacheRoot name resolver.config.expectedVersion)
        (initial, []) (some cached) found ∧
      Runs (calls surroundings unique) (resolver.reverify cached).run
          found (.error error) failed ∧
        failed.2 <:+ history

/-- Nothing changed, but for the removal of an entry which was refused. -/
def Healed (name : Text) (surroundings : Surroundings) (unique : UInt32)
    (initial after : Volume) (history : History Volume) : Prop :=
  after = initial ∨
    ∃ cached,
      Refused resolver name surroundings unique initial cached history ∧
        Volume.Loses
          (fun path => path = cached.path ∨ path = cached.signaturePath)
          initial after

/-- The run ends with an entry of the cache, or it goes on to fetch. -/
def ResolveOutcome (name : Text) (surroundings : Surroundings)
    (unique : UInt32) (initial : Volume)
    (result : Except ResolutionError Path) (after : Log) : Prop :=
  (∃ path, result = .ok path ∧ after.1 = initial) ∨
    ∃ healed,
      Healed resolver name surroundings unique initial healed after.2 ∧
        Adds (fun _ => False) initial healed ∧
          FetchOutcome resolver name healed result after

theorem ensures_resolve_outcome
    (name : Text) (args : List OsText) (initial : Volume) :
    Ensures (calls surroundings unique)
      (resolver.resolve { name := .unicode name, args }).run
      (ResolveOutcome resolver name surroundings unique initial)
      (initial, []) := by
  have calm := gentle_calm surroundings unique
  show Ensures _ (ExceptT.lift
    (find resolver.config.cacheRoot name resolver.config.expectedVersion) >>=
      _).run _ _
  rw [ensures_run_bind, ensures_run_lift]
  apply ((ensures_runs _ _).and (ensures_reads calm asks_find _)).mono
  rintro result found ⟨runs, same⟩
  dsimp only at same
  cases result with
  | none =>
      have fetched :=
        @ensures_fetchVerifyStore_outcome _ surroundings unique resolver name
          found
      apply fetched.mono
      intro result after outcome
      rw [same] at outcome
      exact .inr ⟨initial, .inl rfl, .refl initial, outcome⟩
  | some cached =>
      rw [onOk_ok, ensures_run_bind, ensures_run_lift]
      apply ((ensures_runs _ _).and
        (ensures_reads calm (asks_reverify resolver cached) found)).mono
      rintro verified checked ⟨checks, still⟩
      cases verified with
      | ok _ => exact .inl ⟨cached.path, rfl, still.trans same⟩
      | error error =>
          rw [onOk_ok, ensures_run_bind, ensures_run_lift]
          have removed :
              Ensures (gentle surroundings unique) (evict cached)
                (fun _ after =>
                  Volume.Loses (fun path => path = cached.path ∨
                      path = cached.signaturePath) checked.1 after ∧
                    Adds (fun _ => False) checked.1 after)
                checked.1 :=
            (ensures_removing_loses (asks_evict_paths cached) checked.1).and
              (ensures_removing (asks_evict_paths cached) checked.1)
          apply (@Ensures.recorded _ _ _ _ _ () _ _ _ removed checked.2).mono
          rintro _ evicted ⟨⟨loses, adds⟩, grows⟩
          have fetched :=
            @ensures_fetchVerifyStore_outcome _ surroundings unique resolver
              name evicted
          apply (fetched.and (ensures_grows _ evicted)).mono
          rintro result after ⟨outcome, further⟩
          rw [still.trans same] at loses adds
          refine .inr ⟨evicted.1, .inr ⟨cached, ?_, loses⟩, adds, outcome⟩
          exact ⟨found, checked, error, runs, checks, grows.trans further⟩

end Resolving

/--
Whatever is served and whatever the cache holds, in a run whose steps spare the
binaries: what a binary holds it held before, or a manifest which was served in
the run authorises it; and a run which fails before it begins to write a file
changes nothing, but for the removal of an entry which it found and which
failed to verify.
-/
theorem cache_writes_authorised
    {libraries : Libraries} (resolver : FetchVerifyCacheResolver libraries)
    (surroundings : Surroundings) (unique : UInt32)
    (command : ExternalCommand) (initial : Volume) :
    Ensures (calls surroundings unique) (resolver.resolve command).run
      (fun result after =>
        (∀ path bytes, BinaryNamed path → after.1.Holds path bytes →
          initial.Holds path bytes ∨
            ∃ name, command.name = .unicode name ∧
              Authorised resolver name bytes after.2) ∧
        (∀ error, result = .error error → ¬ Created after.2 →
          after.1 = initial ∨
            ∃ name cached, command.name = .unicode name ∧
              Refused resolver name surroundings unique initial cached
                after.2 ∧
                Volume.Loses
                  (fun path => path = cached.path ∨
                    path = cached.signaturePath) initial after.1))
      (initial, []) := by
  rcases command with ⟨commandName, args⟩
  cases commandName with
  | other bytes =>
      constructor
      · intro path found _ holds
        exact .inl holds
      · intro error _ _
        exact .inl rfl
  | unicode name =>
      have resolved :=
        @ensures_resolve_outcome _ surroundings unique resolver name args
          initial
      apply resolved.mono
      intro result after outcome
      constructor
      · intro path bytes binary holds
        rcases outcome with ⟨_, _, same⟩ | ⟨healed, _, heals, fetches⟩
        · exact .inl (same ▸ holds)
        · rcases fetches.adds path bytes binary holds with earlier | authorised
          · rcases heals path bytes binary earlier with first | ⟨⟨⟩⟩
            exact .inl first
          · exact .inr ⟨name, rfl, authorised⟩
      · intro error failed unwritten
        rcases outcome with ⟨_, resolved, _⟩ | ⟨healed, heals, _, fetches⟩
        · rw [resolved] at failed
          cases failed
        · rcases fetches.failed error failed with began | same
          · exact absurd began unwritten
          · rw [same]
            exact heals.imp_right fun ⟨cached, refused, loses⟩ =>
              ⟨name, cached, rfl, refused, loses⟩

/-! ## A link of a scratch file's name to a binary -/

/-- The manifest of the later version lists one digest. -/
theorem digest_of_authorised
    {name : Text} {bytes : Bytes} {history : History Volume}
    (authorised : Authorised smallResolver name bytes history) :
    sha256Hex smallLibraries bytes = currentSha256.toList := by
  rcases authorised with ⟨manifest, entry, loaded, listed, digest, _⟩
  rcases loaded with ⟨manifestBytes, _, _, _, parsed, _, current⟩
  rw [smallLibraries_fromSlice] at parsed
  split_ifs at parsed
  · cases parsed
    exact absurd current (by decide)
  · cases parsed
    rw [← digest]
    exact (smallManifest_platformEntry listed).2.2

/--
The link is followed when the scratch file is opened, and the binary is empty
when the run fails.
-/
theorem planted_link_emptied :
    ∃ failure after path,
      Runs (logged (linked smallSurroundings 1))
          (smallResolver.resolve
            { name := .unicode "foo".toList, args := [] }).run
          (plantedVolume 1, []) (.error failure) after ∧
        BinaryNamed path ∧ after.1.Holds path [] ∧
          ¬ (plantedVolume 1).Holds path [] ∧
            ∀ name, ¬ Authorised smallResolver name [] after.2 := by
  rcases @Runs.recorded _ _ _ _ (fun _ : Unit => _) () _ _ _ _
      (@runs_planted_interrupted 1) [] with ⟨history, runs⟩
  refine ⟨_, _, _, runs, (smallEntry_of currentBinary).binaryNamed,
    truncated_holds, ?_, ?_⟩
  · intro holds
    exact absurd (holds.unique planted_holds) (by decide)
  · intro name authorised
    exact absurd (digest_of_authorised authorised) (by decide +kernel)

end Luminosity.Launch.CacheWrites
