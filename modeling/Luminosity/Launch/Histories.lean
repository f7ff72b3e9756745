import Luminosity.Launch.Resolver

/-!
# What a resolver was served

A resolver runs against a network which answers anything, and its calls are
recorded.  What it may store is listed by a manifest which was served in the
run, which a trusted key verified, and which is of the launcher's own version.
-/

namespace Luminosity.Launch.Histories

open Luminosity.Foundation.TextSegments
open Luminosity.Foundation.EffectPrograms
open Luminosity.Foundation.Interleaving
open Luminosity.Host.Paths
open Luminosity.Host.Calls
open Luminosity.Launch.Core
open Luminosity.Launch.Verifier
open Luminosity.Launch.Cache
open Luminosity.Launch.Resolver
open Luminosity.Launch.Resolver.FetchVerifyCacheResolver

variable {State : Type}

/-! ## Histories -/

/-- What the resolver did, newest first. -/
abbrev History (State : Type) := List (Event host Unit State)

/-- The calls of the resolver, recorded beside the state. -/
abbrev logged (semantics : Semantics host State) :
    Semantics host (State × History State) :=
  recorded (fun _ => semantics) ()

/-- The event is a download of this address with these bytes. -/
def Serves (url : Text) (bytes : Bytes) : Event host Unit State → Prop
  | ⟨_, .get other, answer, _, _⟩ => other = url ∧ answer = .ok bytes
  | _ => False

def Served (url : Text) (bytes : Bytes) (history : History State) : Prop :=
  ∃ event ∈ history, Serves url bytes event

/-- The resolver began to write a file. -/
def Created (history : History State) : Prop :=
  ∃ event ∈ history, ∃ path, event.op = .create path

theorem Served.grow
    {url : Text} {bytes : Bytes} {history longer : History State}
    (served : Served url bytes history) (grows : history <:+ longer) :
    Served url bytes longer := by
  rcases served with ⟨event, member, serves⟩
  exact ⟨event, grows.subset member, serves⟩

theorem Created.grow
    {history longer : History State}
    (created : Created history) (grows : history <:+ longer) :
    Created longer := by
  rcases created with ⟨event, member, creates⟩
  exact ⟨event, grows.subset member, creates⟩

variable {libraries : Libraries}

/-! ## What a manifest authorises -/

section Authorisation

variable (resolver : FetchVerifyCacheResolver libraries)

/-- The manifest was served, is signed, and is of the launcher's version. -/
def Loaded (manifest : Manifest) (history : History State) : Prop :=
  ∃ manifestBytes signature,
    Served resolver.manifestUrl manifestBytes history ∧
      resolver.keys.verifies manifestBytes signature = true ∧
        libraries.fromSlice manifestBytes = .ok manifest ∧
          manifest.schemaVersion ≤ supportedSchemaVersion ∧
            manifest.version = resolver.config.expectedVersion

/-- A loaded manifest lists the bytes for the command, and they are signed. -/
def Authorised (name : Text) (bytes : Bytes) (history : History State) : Prop :=
  ∃ manifest entry,
    Loaded resolver manifest history ∧
      manifest.platformEntry name resolver.config.platform = some entry ∧
        entry.sha256 = sha256Hex libraries bytes ∧
          resolver.keys.verifies bytes entry.signature = true

/-- The path of the entry which holds these bytes. -/
def entryPath (name : Text) (bytes : Bytes) : Path :=
  resolver.config.cacheRoot.join
    (stem name resolver.config.expectedVersion (sha256Hex libraries bytes))

variable {resolver}

theorem Loaded.grow
    {manifest : Manifest} {history longer : History State}
    (loaded : Loaded resolver manifest history)
    (grows : history <:+ longer) :
    Loaded resolver manifest longer := by
  rcases loaded with ⟨manifestBytes, signature, served, rest⟩
  exact ⟨manifestBytes, signature, served.grow grows, rest⟩

theorem Authorised.grow
    {name : Text} {bytes : Bytes} {history longer : History State}
    (authorised : Authorised resolver name bytes history)
    (grows : history <:+ longer) :
    Authorised resolver name bytes longer := by
  rcases authorised with ⟨manifest, entry, loaded, rest⟩
  exact ⟨manifest, entry, loaded.grow grows, rest⟩

end Authorisation

/-! ## Recorded operations -/

/-- Looking around and making directories changes nothing. -/
structure Calm (semantics : Semantics host State) : Prop where
  reads : ∀ call before answer after, call.Reads →
    semantics call before answer after → after = before
  scaffolds : ∀ call before answer after, call.Scaffolds →
    semantics call before answer after → after = before

section Operations

variable {semantics : Semantics host State} (calm : Calm semantics)

/-- The history of a program only grows. -/
theorem ensures_grows {α : Type} (program : HostProgram α)
    (log : State × History State) :
    Ensures (logged semantics) program
      (fun _ after => log.2 <:+ after.2) log :=
  ensures_grows_recorded program log

theorem ensures_writeFile_created
    (path : Path) (bytes : Bytes) (log : State × History State) :
    Ensures (logged semantics) (writeFile path bytes)
      (fun _ after => Created after.2) log := by
  rw [writeFile, ensures_bind, ensures_issue]
  intro answer after step
  have created : Created after.2 := by
    rw [step.2]
    exact ⟨_, List.mem_cons_self, path, rfl⟩
  cases answer with
  | ok _ =>
      apply (ensures_grows _ after).mono
      intro result last grows
      exact created.grow grows
  | error error => exact created

theorem ensures_writeThenRename_created
    (temp target : Path) (bytes : Bytes) (executable : Bool)
    (log : State × History State) :
    Ensures (logged semantics)
      (writeThenRename temp target bytes executable).run
      (fun _ after => Created after.2) log := by
  rw [writeThenRename, ensures_run_bind, ensures_run_lift]
  apply (ensures_writeFile_created temp bytes log).mono
  intro written staged created
  apply (ensures_grows _ staged).mono
  intro result last grows
  exact created.grow grows

include calm

theorem ensures_reads
    {α : Type} {program : HostProgram α} (asks : Asks Call.Reads program)
    (log : State × History State) :
    Ensures (logged semantics) program
      (fun _ after => after.1 = log.1) log := by
  apply asks.ensures
  · intro call before answer after reads step same
    rw [calm.reads call _ answer _ reads step.1, same]
  · rfl

/-- Storing fails before it changes anything, or after it began to write. -/
theorem ensures_store_created
    (root : Path) (name version sha256 signature : Text) (bytes : Bytes)
    (log : State × History State) :
    Ensures (logged semantics)
      (store root name version sha256 bytes signature).run
      (fun result after => Created after.2 ∨
        after.1 = log.1 ∧ ∃ error, result = .error error)
      log := by
  have made :
      Ensures (logged semantics) (createDirAll root)
        (fun _ after => after.1 = log.1) log := by
    apply (asks_createDirAll root).ensures
    · intro call before answer after scaffolds step same
      rw [calm.scaffolds call _ answer _ scaffolds step.1, same]
    · rfl
  rw [store, ensures_run_bind, ensures_run_lift]
  apply made.mono
  intro created now same
  cases created with
  | error error => exact Or.inr ⟨same, _, rfl⟩
  | ok _ =>
      rw [onOk_ok, ensures_invoke_bind]
      intro answer current step
      rw [ensures_run_bind]
      apply (ensures_writeThenRename_created _ _ _ _ current).mono
      intro placed middle began
      cases placed with
      | error error => exact Or.inl began
      | ok _ =>
          apply (ensures_grows _ middle).mono
          intro result last grows
          exact Or.inl (began.grow grows)

/-! ### Fetching -/

theorem ensures_fetch
    (url target : Text) (isManifest : Bool) (log : State × History State) :
    Ensures (logged semantics) (fetch url target isManifest).run
      (onOk
        (fun bytes after =>
          after.1 = log.1 ∧ log.2 <:+ after.2 ∧ Served url bytes after.2)
        fun _ after => after.1 = log.1)
      log := by
  rw [fetch, ensures_invoke_bind]
  intro answer after step
  have same : after.1 = log.1 :=
    calm.reads (.get url) _ answer _ trivial step.1
  cases answer with
  | error error => exact same
  | ok bytes =>
      refine ⟨same, ?_, ?_⟩
      · rw [step.2]
        exact List.suffix_cons _ log.2
      · rw [step.2]
        exact ⟨_, List.mem_cons_self, rfl, rfl⟩

variable {libraries : Libraries}
variable (resolver : FetchVerifyCacheResolver libraries)

theorem ensures_loadManifest (log : State × History State) :
    Ensures (logged semantics) resolver.loadManifest.run
      (onOk
        (fun manifest after =>
          after.1 = log.1 ∧ Loaded resolver manifest after.2)
        fun _ after => after.1 = log.1)
      log := by
  rw [loadManifest]
  apply (ensures_fetch calm _ _ _ log).run_bind
  · rintro manifestBytes fetched ⟨same, _, served⟩
    apply (ensures_fetch calm _ _ _ fetched).run_bind
    · rintro signatureBytes after ⟨still, grows, _⟩
      rw [ensures_run_bind, ensures_run_except]
      cases verified : verifyManifest manifestBytes
          (decodeLossy signatureBytes) resolver.keys with
      | error error => exact still.trans same
      | ok _ =>
          rw [onOk_ok, ensures_run_except]
          cases parsed : Manifest.parseAndValidate libraries manifestBytes
              resolver.config.expectedVersion with
          | error error => exact still.trans same
          | ok manifest =>
              apply And.intro (still.trans same)
              exact ⟨manifestBytes, decodeLossy signatureBytes,
                served.grow grows, verifyManifest_ok_iff.mp verified,
                parseAndValidate_ok_iff.mp parsed⟩
    · intro error after still
      exact still.trans same
  · intro error after same
    exact same

end Operations

end Luminosity.Launch.Histories
