import Luminosity.Foundation.Exceptions
import Luminosity.Launch.Resolver

/-!
# What a server can deliver

A server delivers a release of a command when it can answer with a manifest
which passes the checks, and with the binary which that manifest lists.  Only
what it delivers is stored; and whatever it delivers can be stored, by a run in
which no request fails.
-/

namespace Luminosity.Launch.Deliveries

open Luminosity.Foundation.TextSegments
open Luminosity.Foundation.EffectPrograms
open Luminosity.Foundation.Exceptions
open Luminosity.Host.Calls
open Luminosity.Host.Paths
open Luminosity.Launch.Core
open Luminosity.Launch.Verifier
open Luminosity.Launch.Cache
open Luminosity.Launch.Resolver

variable {libraries : Libraries}

section Properties

variable (resolver : FetchVerifyCacheResolver libraries)
variable (network : Text → Except FetchError Bytes → Prop) (name : Text)

/-- The server can deliver a manifest which passes the checks. -/
def Loadable (manifest : Manifest) : Prop :=
  ∃ manifestBytes signatureBytes,
    network resolver.manifestUrl (.ok manifestBytes) ∧
      network resolver.signatureUrl (.ok signatureBytes) ∧
        verifyManifest manifestBytes (decodeLossy signatureBytes)
            resolver.keys = .ok () ∧
          Manifest.parseAndValidate libraries manifestBytes
              resolver.config.expectedVersion = .ok manifest

/-- The server can deliver a release whose binary passes the checks. -/
def Deliverable (entry : PlatformEntry) (bytes : Bytes) : Prop :=
  (∃ manifest,
    Loadable resolver network manifest ∧
      manifest.platformEntry name resolver.config.platform = some entry) ∧
    network (resolver.assetUrl name) (.ok bytes) ∧
      verifyBinary (resolver.assetName name) bytes entry.sha256
        entry.signature resolver.keys = .ok ()

/-- What is done with a binary which was delivered. -/
def storing (entry : PlatformEntry) (bytes : Bytes) :
    ResolutionProgram Path := do
  let cached ←
    store resolver.config.cacheRoot name resolver.config.expectedVersion
      entry.sha256 bytes entry.signature
  ExceptT.lift
    (enforceRetentionCap resolver.config.cacheRoot name
      resolver.config.retainedVersions)
  return cached.path

end Properties

variable {resolver : FetchVerifyCacheResolver libraries}
variable {network : Text → Except FetchError Bytes → Prop} {name : Text}
variable {State : Type} {semantics : Semantics host State}

theorem Deliverable.hex
    {entry : PlatformEntry} {bytes : Bytes}
    (deliverable : Deliverable resolver network name entry bytes) :
    isSha256Hex entry.sha256 = true := by
  rw [← (verifyBinary_ok_iff.mp deliverable.2.2).1]
  exact isSha256Hex_sha256Hex libraries bytes

/-! ## Nothing else is stored -/

section Fetching

variable {kept : State → Prop}
variable (gets : ∀ url before answer after, kept before →
  semantics (.get url) before answer after →
    kept after ∧ network url answer)

include gets

theorem ensures_fetch_network
    {url target : Text} {isManifest : Bool} {state : State}
    (holds : kept state) :
    Ensures semantics (fetch url target isManifest).run
      (WhenOk fun bytes after => kept after ∧ network url (.ok bytes))
      state := by
  rw [fetch, ensures_invoke_bind]
  intro answer after step
  have outcome := gets url state answer after holds step
  cases answer with
  | error error => trivial
  | ok bytes => exact outcome

theorem ensures_loadManifest_network {state : State} (holds : kept state) :
    Ensures semantics resolver.loadManifest.run
      (WhenOk fun manifest after =>
        kept after ∧ Loadable resolver network manifest)
      state := by
  rw [FetchVerifyCacheResolver.loadManifest]
  apply Ensures.succeeds (ensures_fetch_network gets holds)
  rintro manifestBytes fetched ⟨earlier, served⟩
  apply Ensures.succeeds (ensures_fetch_network gets earlier)
  rintro signatureBytes after ⟨later, servedSignature⟩
  rw [ensures_run_bind, ensures_run_except]
  cases verified : verifyManifest manifestBytes
      (decodeLossy signatureBytes) resolver.keys with
  | error error => trivial
  | ok _ =>
      rw [onOk_ok, ensures_run_except]
      cases parsed : Manifest.parseAndValidate libraries manifestBytes
          resolver.config.expectedVersion with
      | error error => trivial
      | ok manifest =>
          exact ⟨later, manifestBytes, signatureBytes, served,
            servedSignature, verified, parsed⟩

/-- Where what is delivered is stored well, what is fetched is. -/
theorem ensures_fetchVerifyStore
    {post : Path → State → Prop} {state : State} (holds : kept state)
    (stored : ∀ entry bytes state,
      Deliverable resolver network name entry bytes → kept state →
        Ensures semantics (storing resolver name entry bytes).run
          (WhenOk post) state) :
    Ensures semantics (resolver.fetchVerifyStore name).run (WhenOk post)
      state := by
  rw [FetchVerifyCacheResolver.fetchVerifyStore]
  apply Ensures.succeeds (ensures_loadManifest_network gets holds)
  rintro manifest loaded ⟨earlier, loadable⟩
  cases listed : manifest.platformEntry name resolver.config.platform with
  | none => trivial
  | some entry =>
      apply Ensures.succeeds (ensures_fetch_network gets earlier)
      rintro bytes fetched ⟨later, served⟩
      rw [ensures_run_bind, ensures_run_except]
      cases passed : verifyBinary (resolver.assetName name) bytes
          entry.sha256 entry.signature resolver.keys with
      | error error => trivial
      | ok _ =>
          exact stored entry bytes fetched
            ⟨⟨manifest, loadable, listed⟩, served, passed⟩ later

end Fetching

/-! ## All of it can be stored -/

section Runs

variable {state : State}
variable (gets : ∀ url bytes, network url (.ok bytes) →
  semantics (.get url) state (.ok bytes) state)

include gets

theorem runs_fetch
    {url target : Text} {isManifest : Bool} {bytes : Bytes}
    (served : network url (.ok bytes)) :
    Runs semantics (fetch url target isManifest).run state (.ok bytes)
      state := by
  have got :
      Runs semantics
        (invoke (.get url) :
          ResolutionProgram (Except FetchError Bytes)).run
        state (.ok (.ok bytes)) state :=
    Runs.run_lift (Runs.perform (gets url bytes served))
  exact got.run_bind (.done _ _)

theorem runs_loadManifest
    {manifest : Manifest} (loadable : Loadable resolver network manifest) :
    Runs semantics resolver.loadManifest.run state (.ok manifest) state := by
  rcases loadable with
    ⟨manifestBytes, signatureBytes, served, servedSignature, verified, parsed⟩
  rw [FetchVerifyCacheResolver.loadManifest]
  apply (runs_fetch gets served).run_bind
  apply (runs_fetch gets servedSignature).run_bind
  simp only [verified, parsed]
  exact .done _ _

theorem runs_fetchVerifyStore
    {entry : PlatformEntry} {bytes : Bytes}
    (deliverable : Deliverable resolver network name entry bytes)
    {result : Except ResolutionError Path} {after : State}
    (stored : Runs semantics (storing resolver name entry bytes).run state
      result after) :
    Runs semantics (resolver.fetchVerifyStore name).run state result
      after := by
  rcases deliverable with
    ⟨⟨manifest, loadable, isListed⟩, served, passed⟩
  rw [FetchVerifyCacheResolver.fetchVerifyStore]
  apply (runs_loadManifest gets loadable).run_bind
  simp only [isListed]
  apply (runs_fetch gets served).run_bind
  simp only [passed]
  apply Runs.run_bind (.done _ _)
  exact stored

end Runs

/-- Writing may fail as soon as the scratch file is open. -/
theorem runs_storing_interrupted
    {state opened : State} {unique : UInt32} {entry : PlatformEntry}
    {byte : UInt8} {rest : Bytes} {error : IoError}
    (created : ∀ path, semantics (.createDir path) state (.ok ()) state)
    (own : semantics .processId state unique state)
    (opens : semantics
      (.create (resolver.config.cacheRoot.join
        (tempName
          (stem name resolver.config.expectedVersion entry.sha256)
          unique))) state (.ok ()) opened)
    (fails : ∀ path, semantics (.append path byte) opened (.error error)
      opened) :
    Runs semantics (storing resolver name entry (byte :: rest)).run state
      (.error (cacheError
        (resolver.config.cacheRoot.join
          (tempName
            (stem name resolver.config.expectedVersion entry.sha256)
            unique)) error)) opened := by
  have made := runs_createDirAll created resolver.config.cacheRoot
  have number :
      Runs semantics (invoke .processId : ResolutionProgram UInt32).run state
        (.ok unique) state :=
    Runs.run_lift (Runs.perform own)
  have wrote :
      Runs semantics
        (writeFile
          (resolver.config.cacheRoot.join
            (tempName
              (stem name resolver.config.expectedVersion entry.sha256)
              unique)) (byte :: rest))
        state (.error error) opened :=
    Runs.ask opens (Runs.ask (fails _) (.done _ _))
  rw [storing]
  apply Runs.run_bind_error
  apply made.run_lift.run_bind
  apply number.run_bind
  apply Runs.run_bind_error
  rw [writeThenRename]
  apply wrote.run_lift.run_bind
  exact .done _ _

/-- Where the cache cannot be listed, what is delivered is stored. -/
theorem runs_resolve_delivered
    {state : State} {args : List OsText} {error : IoError}
    (unlisted : semantics (.readDir resolver.config.cacheRoot) state
      (.error error) state)
    (gets : ∀ url bytes, network url (.ok bytes) →
      semantics (.get url) state (.ok bytes) state)
    {entry : PlatformEntry} {bytes : Bytes}
    (deliverable : Deliverable resolver network name entry bytes)
    {result : Except ResolutionError Path} {after : State}
    (stored : Runs semantics (storing resolver name entry bytes).run state
      result after) :
    Runs semantics
      (resolver.resolve { name := .unicode name, args }).run state result
      after := by
  have nothing :
      Runs semantics
        (find resolver.config.cacheRoot name
          resolver.config.expectedVersion) state none state := by
    have failed :
        Runs semantics (issue (.readDir resolver.config.cacheRoot)) state
          (.error error) state :=
      Runs.perform unlisted
    exact failed.bind (.done _ _)
  exact nothing.run_lift.run_bind
    (runs_fetchVerifyStore gets deliverable stored)

/-! ## The server of a small release -/

/-- The later release, as a server has it. -/
def published (url : Text) : Bytes :=
  if url = smallResolver.manifestUrl then
    currentManifest
  else if url = smallResolver.signatureUrl then
    encode "current manifest".toList
  else
    currentBinary

/-- The answers of a server which never fails. -/
def Published (url : Text) (answer : Except FetchError Bytes) : Prop :=
  answer = .ok (published url)

def currentEntry : PlatformEntry where
  sha256 := currentSha256.toList
  signature := "current".toList

theorem deliverable_published :
    Deliverable smallResolver Published "foo".toList currentEntry
      currentBinary := by
  have signed (bytes : Bytes) (signature : Text)
      (member : (bytes, signature) ∈ smallSignatures) :
      smallResolver.keys.verifies bytes signature = true :=
    (smallKeys_verifies_iff bytes signature).mpr member
  have manifest : published smallResolver.manifestUrl = currentManifest :=
    if_pos rfl
  have signature :
      published smallResolver.signatureUrl =
        encode "current manifest".toList := by
    rw [published, if_neg (by decide +kernel), if_pos rfl]
  have binary :
      published (smallResolver.assetUrl "foo".toList) = currentBinary := by
    rw [published, if_neg (by decide +kernel), if_neg (by decide +kernel)]
  refine ⟨⟨smallManifest "2.0.0" currentSha256 "current", ?_, rfl⟩,
    congrArg Except.ok binary.symm, ?_⟩
  · refine ⟨currentManifest, encode "current manifest".toList,
      congrArg Except.ok manifest.symm, congrArg Except.ok signature.symm,
      ?_, ?_⟩
    · rw [decodeLossy_encode, verifyManifest_ok_iff]
      apply signed
      decide +kernel
    · rw [Manifest.parseAndValidate, fromSlice_currentManifest]
      rfl
  · apply verifyBinary_ok_iff.mpr
    exact ⟨by decide +kernel, signed _ _ (by decide +kernel)⟩

end Luminosity.Launch.Deliveries
