import Luminosity.Launch.Histories

/-!
# Runs of one resolver

A resolver runs alone over a disk with arbitrary contents, against a network
which answers anything, and every call may fail.  Its calls are recorded.

A run either ends with an entry of the cache which passed the checks, and has
changed nothing; or it went on to fetch.  What it then stores and resolves is
listed by a manifest which was served in the run, which a trusted key verified,
and which is of the launcher's own version.
-/

namespace Luminosity.Launch.ResolverRuns

open Luminosity.Foundation.TextSegments
open Luminosity.Foundation.EffectPrograms
open Luminosity.Foundation.Interleaving
open Luminosity.Host.Paths
open Luminosity.Host.Calls
open Luminosity.Host.FlatDisk
open Luminosity.Launch.Core
open Luminosity.Launch.Verifier
open Luminosity.Launch.Cache
open Luminosity.Launch.Resolver
open Luminosity.Launch.Histories
open Luminosity.Launch.Resolver.FetchVerifyCacheResolver

/-- The disk and the history which led to it. -/
abbrev Log := Disk × History Disk

/-- The calls of the resolver, recorded. -/
abbrev calls (surroundings : Surroundings) (unique : UInt32) :
    Semantics host Log :=
  logged (flat surroundings unique)

theorem flat_calm (surroundings : Surroundings) (unique : UInt32) :
    Calm (flat surroundings unique) where
  reads _ _ _ _ reads step := flat_reads reads step
  scaffolds _ _ _ _ scaffolds step := flat_scaffolds scaffolds step

variable {libraries : Libraries}

/-! ## The cache operations -/

section Operations

variable {surroundings : Surroundings} {unique : UInt32}

/-- Nothing but the scratch file and the target changed. -/
def ChangedAt (temp target : Path) (before after : Disk) : Prop :=
  ∀ other, other ≠ temp → other ≠ target →
    after.file other = before.file other

/-- The target is as it was, or has the written contents. -/
def Placed (target : Path) (bytes : Bytes) (before after : Disk) : Prop :=
  after.file target = before.file target ∨ after.file target = some bytes

theorem ensures_setExecutable (temp : Path) (executable : Bool) (disk : Disk) :
    Ensures (flat surroundings unique)
      (if executable then setExecutable temp else pure () :
        ResolutionProgram Unit).run
      (fun _ after => after = disk) disk := by
  cases executable with
  | false => rfl
  | true =>
      rw [if_pos rfl, setExecutable, ensures_invoke_bind]
      intro answer after step
      cases step
      cases answer <;> rfl

/-- Renaming a written file into place changes the two files it names. -/
theorem ensures_writeThenRename
    {temp target : Path} (different : target ≠ temp) (bytes : Bytes)
    (executable : Bool) (disk : Disk) :
    Ensures (flat surroundings unique)
      (writeThenRename temp target bytes executable).run
      (fun result after =>
        ChangedAt temp target disk after ∧ Placed target bytes disk after ∧
          (result = .ok () → after.file target = some bytes))
      disk := by
  rw [writeThenRename, ensures_run_bind, ensures_run_lift]
  apply (ensures_writeFile_flat surroundings unique disk bytes).mono
  rintro written staged ⟨kept, whole⟩
  have changed : ChangedAt temp target disk staged :=
    fun other notTemp _ => kept other notTemp
  have untouched : Placed target bytes disk staged :=
    Or.inl (kept target different)
  cases written with
  | error error =>
      refine ⟨changed, untouched, ?_⟩
      rintro ⟨⟩
  | ok _ =>
      rw [onOk_ok, ensures_run_bind]
      apply (ensures_setExecutable temp executable staged).mono
      intro marked now same
      rw [same]
      cases marked with
      | error error =>
          refine ⟨changed, untouched, ?_⟩
          rintro ⟨⟩
      | ok _ =>
          rw [onOk_ok, ensures_invoke_bind]
          intro answer after step
          cases answer with
          | ok _ =>
              rcases step with ⟨moved, present, rfl⟩
              rw [whole rfl] at present
              cases present
              have placed :
                  (staged.move temp target bytes).file target = some bytes :=
                staged.move_file_target bytes temp
              refine ⟨?_, Or.inr placed, fun _ => placed⟩
              intro other notTemp notTarget
              rw [staged.move_file_of_ne bytes notTemp notTarget,
                changed other notTemp notTarget]
          | error error =>
              cases step
              rw [ensures_invoke_bind]
              intro removal after step
              have unmoved (other : Path) (notTemp : other ≠ temp) :
                  after.file other = staged.file other := by
                apply flat_keeps step
                · exact Ne.symm notTemp
                · rintro source ⟨⟩
              refine ⟨?_, Or.inl ?_, ?_⟩
              · intro other notTemp notTarget
                rw [unmoved other notTemp, changed other notTemp notTarget]
              · rw [unmoved target different, kept target different]
              · rintro ⟨⟩

/-- What storing changes: its scratch files, the signature, the binary. -/
def StoreChanges (root : Path) (stem : Text) (unique : UInt32)
    (bytes : Bytes) (before after : Disk) : Prop :=
  ∀ path, after.file path = before.file path ∨
    path = root.join (tempName stem unique) ∨
    path = root.join (tempSignatureName stem unique) ∨
    path = root.join (signatureName stem) ∨
    path = root.join stem ∧ after.file path = some bytes

theorem ensures_createDirAll (root : Path) (disk : Disk) :
    Ensures (flat surroundings unique) (createDirAll root)
      (fun _ after => after = disk) disk := by
  apply (asks_createDirAll root).ensures
  · intro call before answer after scaffolds step same
    rw [flat_scaffolds scaffolds step, same]
  · rfl

/-- Placing the binary is a part of storing. -/
theorem StoreChanges.of_binary
    {root : Path} {stem : Text} {bytes : Bytes} {before after : Disk}
    (changed : ChangedAt (root.join (tempName stem unique)) (root.join stem)
      before after)
    (placed : Placed (root.join stem) bytes before after) :
    StoreChanges root stem unique bytes before after := by
  intro path
  by_cases isTemp : path = root.join (tempName stem unique)
  · exact Or.inr (Or.inl isTemp)
  · by_cases isBinary : path = root.join stem
    · rcases placed with same | written
      · exact Or.inl (isBinary ▸ same)
      · exact Or.inr (Or.inr (Or.inr (Or.inr ⟨isBinary, isBinary ▸ written⟩)))
    · exact Or.inl (changed path isTemp isBinary)

/-- Placing the signature is another. -/
theorem StoreChanges.then_signature
    {root : Path} {stem : Text} {bytes : Bytes} {before middle after : Disk}
    (early : StoreChanges root stem unique bytes before middle)
    (changed : ChangedAt (root.join (tempSignatureName stem unique))
      (root.join (signatureName stem)) middle after) :
    StoreChanges root stem unique bytes before after := by
  intro path
  by_cases isTemp : path = root.join (tempSignatureName stem unique)
  · exact Or.inr (Or.inr (Or.inl isTemp))
  · by_cases isSignature : path = root.join (signatureName stem)
    · exact Or.inr (Or.inr (Or.inr (Or.inl isSignature)))
    · rw [changed path isTemp isSignature]
      exact early path

/-- What is stored is in place, next to its signature. -/
theorem ensures_store
    {root : Path} {name version sha256 signature : Text}
    (hex : isSha256Hex sha256 = true) (bytes : Bytes) (disk : Disk) :
    Ensures (flat surroundings unique)
      (store root name version sha256 bytes signature).run
      (fun result after =>
        StoreChanges root (stem name version sha256) unique bytes disk after ∧
          ∀ cached, result = .ok cached →
            cached.path = root.join (stem name version sha256) ∧
              after.file (root.join (stem name version sha256)) =
                  some bytes ∧
                after.file
                    (root.join
                      (signatureName (stem name version sha256))) =
                  some (encode signature))
      disk := by
  have entry := @EntryOf.of_digest root name version sha256 hex
  have binary := entry.binaryNamed
  have signed := entry.signatureNamed
  rw [store, ensures_run_bind, ensures_run_lift]
  apply (ensures_createDirAll root disk).mono
  intro created now same
  rw [same]
  cases created with
  | error error =>
      refine ⟨fun path => Or.inl rfl, ?_⟩
      rintro cached ⟨⟩
  | ok _ =>
      rw [onOk_ok, ensures_invoke_bind]
      intro answer current step
      rcases step with ⟨unmoved, own⟩
      subst own
      rw [unmoved, ensures_run_bind]
      have scratch := scratchOf_tempName root (stem name version sha256) answer
      have scratchSignature :=
        scratchOf_tempSignatureName root (stem name version sha256) answer
      have binaryTemp :
          root.join (stem name version sha256) ≠
            root.join (tempName (stem name version sha256) answer) := by
        intro equal
        exact binary.not_scratchOf answer (equal ▸ scratch)
      have signatureTemp :
          root.join (signatureName (stem name version sha256)) ≠
            root.join
              (tempSignatureName (stem name version sha256) answer) := by
        intro equal
        exact signed.not_scratchOf answer (equal ▸ scratchSignature)
      apply (ensures_writeThenRename binaryTemp bytes true disk).mono
      rintro placed middle ⟨changed, put, whole⟩
      have early := StoreChanges.of_binary changed put
      cases placed with
      | error error =>
          refine ⟨early, ?_⟩
          rintro cached ⟨⟩
      | ok _ =>
          rw [onOk_ok, ensures_run_bind]
          apply (ensures_writeThenRename signatureTemp (encode signature)
            false middle).mono
          rintro renamed last ⟨lastChanged, _, lastWhole⟩
          have kept :
              last.file (root.join (stem name version sha256)) =
                some bytes := by
            rw [lastChanged, whole rfl]
            · intro equal
              exact binary.not_scratchOf answer (equal ▸ scratchSignature)
            · intro equal
              exact binary.not_signatureNamed (equal ▸ signed)
          have late := early.then_signature lastChanged
          cases renamed with
          | error error =>
              refine ⟨late, ?_⟩
              rintro cached ⟨⟩
          | ok _ =>
              refine ⟨late, ?_⟩
              rintro cached ⟨⟩
              exact ⟨rfl, kept, lastWhole rfl⟩

/-- Removing leaves a file alone or removes it. -/
theorem ensures_removes
    {α : Type} {program : HostProgram α} {among : Path → Prop}
    (asks : Asks (Removes among) program) (disk : Disk) :
    Ensures (flat surroundings unique) program
      (fun _ after => ∀ path, after.file path = disk.file path ∨
        among path ∧ after.file path = none)
      disk := by
  apply asks.ensures
  · intro call before answer after removes step kept path
    rcases removes.step step path with same | removed
    · rw [same]
      exact kept path
    · exact Or.inr removed
  · exact fun path => Or.inl rfl

end Operations

/-! ## Fetching -/

section Fetching

variable {surroundings : Surroundings} {unique : UInt32}
variable (resolver : FetchVerifyCacheResolver libraries)

/-- What is resolved holds bytes which the run was authorised to store. -/
def Fetches (name : Text) (result : Except ResolutionError Path)
    (after : Log) : Prop :=
  ∀ path, result = .ok path →
    ∃ bytes, Authorised resolver name bytes after.2 ∧
      path = entryPath resolver name bytes ∧
        ∀ found, after.1.file path = some found → found = bytes

/-- Storing verified bytes and then tidying up. -/
theorem ensures_storeVerified
    {name signature : Text} {bytes : Bytes} {log : Log}
    (authorised : Authorised resolver name bytes log.2) :
    Ensures (calls surroundings unique)
      (do
        let cached ←
          store resolver.config.cacheRoot name
            resolver.config.expectedVersion (sha256Hex libraries bytes) bytes
            signature
        ExceptT.lift
          (enforceRetentionCap resolver.config.cacheRoot name
            resolver.config.retainedVersions)
        return cached.path : ResolutionProgram Path).run
      (Fetches resolver name) log := by
  have stored :
      Ensures (flat surroundings unique)
        (store resolver.config.cacheRoot name resolver.config.expectedVersion
          (sha256Hex libraries bytes) bytes signature).run _ log.1 :=
    ensures_store (isSha256Hex_sha256Hex libraries bytes) bytes log.1
  rw [ensures_run_bind]
  apply (@Ensures.recorded _ _ _ _ _ () _ _ _ stored log.2).mono
  rintro result middle ⟨⟨_, whole⟩, grows⟩
  cases result with
  | error error => rintro path ⟨⟩
  | ok cached =>
      rcases whole cached rfl with ⟨placed, present, _⟩
      rw [onOk_ok, ensures_run_bind, ensures_run_lift]
      have tidied :=
        @ensures_removes surroundings unique _ _ _
          (@asks_enforceRetentionCap resolver.config.cacheRoot name
            resolver.config.retainedVersions) middle.1
      apply (@Ensures.recorded _ _ _ _ _ () _ _ _ tidied middle.2).mono
      rintro _ after ⟨removed, further⟩
      rintro path ⟨⟩
      refine ⟨bytes, (authorised.grow grows).grow further, placed, ?_⟩
      intro found now
      rcases removed cached.path with same | ⟨_, absent⟩
      · rw [same, placed, present] at now
        exact (Option.some.inj now).symm
      · rw [absent] at now
        cases now

theorem ensures_fetchVerifyStore (name : Text) (log : Log) :
    Ensures (calls surroundings unique)
      (resolver.fetchVerifyStore name).run
      (Fetches resolver name) log := by
  have calm := flat_calm surroundings unique
  rw [fetchVerifyStore]
  apply (ensures_loadManifest calm resolver log).run_bind
  · rintro manifest loaded ⟨_, authority⟩
    cases listed :
        manifest.platformEntry name resolver.config.platform with
    | none => rintro path ⟨⟩
    | some entry =>
        apply (ensures_fetch calm _ _ _ loaded).run_bind
        · rintro bytes fetched ⟨_, grows, _⟩
          rw [ensures_run_bind, ensures_run_except]
          cases passed : verifyBinary (resolver.assetName name) bytes
              entry.sha256 entry.signature resolver.keys with
          | error error => rintro path ⟨⟩
          | ok _ =>
              rcases verifyBinary_ok_iff.mp passed with ⟨digest, verified⟩
              have authorised :
                  Authorised resolver name bytes fetched.2 :=
                ⟨manifest, entry, authority.grow grows, listed, digest.symm,
                  verified⟩
              rw [onOk_ok, ← digest]
              exact ensures_storeVerified resolver authorised
        · rintro error after _ path ⟨⟩
  · rintro error after _ path ⟨⟩

/-! ## Resolving -/

/-- The entry and its signature are readable and pass the checks. -/
def Passes (cached : CachedBinary) (disk : Disk) : Prop :=
  ∃ bytes signatureBytes signature,
    disk.file cached.path = some bytes ∧
      disk.file cached.signaturePath = some signatureBytes ∧
        decode signatureBytes = some signature ∧
          verifyBinary (fileName cached.path) bytes cached.sha256 signature
            resolver.keys = .ok ()

theorem textOf_ok
    {answer : Except IoError Bytes} {text : Text}
    (read : textOf answer = .ok text) :
    ∃ bytes, answer = .ok bytes ∧ decode bytes = some text := by
  cases answer with
  | error error => cases read
  | ok bytes =>
      rw [textOf] at read
      split at read
      · cases read
        exact ⟨bytes, rfl, by assumption⟩
      · cases read

theorem ensures_passes (cached : CachedBinary) (disk : Disk) :
    Ensures (flat surroundings unique) (resolver.reverify cached).run
      (fun result _ => result = .ok () → Passes resolver cached disk)
      disk := by
  rw [reverify, ensures_invoke_bind]
  rintro answer middle ⟨same, answered⟩
  cases answer with
  | error error => rintro ⟨⟩
  | ok bytes =>
      rw [ensures_run_bind, ensures_run_lift, ensures_readToString]
      rintro text after ⟨_, read⟩
      cases decoded : textOf text with
      | error error => rintro ⟨⟩
      | ok signature =>
          rcases textOf_ok decoded with ⟨signatureBytes, rfl, valid⟩
          rw [onOk_ok, ensures_run_except]
          intro passes
          rw [same] at read
          exact ⟨bytes, signatureBytes, signature, answered, read, valid,
            passes⟩

theorem ensures_reverify (cached : CachedBinary) (log : Log) :
    Ensures (calls surroundings unique) (resolver.reverify cached).run
      (fun result _ => result = .ok () → Passes resolver cached log.1)
      log := by
  have passes := @ensures_passes _ surroundings unique resolver cached log.1
  apply (@Ensures.recorded _ _ _ _ _ () _ _ _ passes log.2).mono
  rintro result after ⟨passed, _⟩
  exact passed

/-- The run ends with an entry which passes, or it went on to fetch. -/
def ResolveOutcome (name : Text) (surroundings : Surroundings)
    (unique : UInt32) (initial : Disk)
    (result : Except ResolutionError Path) (after : Log) : Prop :=
  (∃ cached found,
    Runs (calls surroundings unique)
        (find resolver.config.cacheRoot name resolver.config.expectedVersion)
        (initial, []) (some cached) found ∧
      result = .ok cached.path ∧ after.1 = initial ∧
        Passes resolver cached initial) ∨
    Fetches resolver name result after

theorem ensures_resolve
    (name : Text) (args : List OsText) (initial : Disk) :
    Ensures (calls surroundings unique)
      (resolver.resolve { name := .unicode name, args }).run
      (ResolveOutcome resolver name surroundings unique initial)
      (initial, []) := by
  have calm := flat_calm surroundings unique
  show Ensures _ (ExceptT.lift
    (find resolver.config.cacheRoot name resolver.config.expectedVersion) >>=
      _).run _ _
  rw [ensures_run_bind, ensures_run_lift]
  apply ((ensures_runs _ _).and (ensures_reads calm asks_find _)).mono
  rintro result found ⟨runs, same⟩
  dsimp only at same
  cases result with
  | none =>
      apply (ensures_fetchVerifyStore resolver name found).mono
      exact fun _ _ => Or.inr
  | some cached =>
      rw [onOk_ok, ensures_run_bind, ensures_run_lift]
      apply ((ensures_reads calm (asks_reverify resolver cached) found).and
        (ensures_reverify resolver cached found)).mono
      rintro verified checked ⟨still, passes⟩
      cases verified with
      | ok _ =>
          refine Or.inl ⟨cached, found, runs, rfl, still.trans same, ?_⟩
          rw [← same]
          exact passes rfl
      | error error =>
          rw [onOk_ok, ensures_run_bind, ensures_run_lift]
          apply (ensures_grows _ checked).mono
          intro _ now _
          apply (ensures_fetchVerifyStore resolver name now).mono
          exact fun _ _ => Or.inr

end Fetching

end Luminosity.Launch.ResolverRuns
