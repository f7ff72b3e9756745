import Luminosity.Launch.Cache

/-!
# The resolver

A command is resolved from the cache when an entry of it verifies again, and
is otherwise fetched: the signed manifest of the release names the digest and
the signature of the binary, and only what agrees with both is stored.

Fetching is the `get` call of the host, which answers with the bytes of an
address or with the failure that ended the attempts.
-/

namespace Luminosity.Launch.Resolver

open Luminosity.Foundation.TextSegments
open Luminosity.Foundation.EffectPrograms
open Luminosity.Host.Paths
open Luminosity.Host.Calls
open Luminosity.Host.FlatDisk
open Luminosity.Launch.Core
open Luminosity.Launch.Verifier
open Luminosity.Launch.Cache

structure ResolverConfig where
  /-- The launcher's own version; the manifest must match it. -/
  expectedVersion : Text
  platform : Text
  baseUrl : Text
  cacheRoot : Path
  retainedVersions : Nat

structure FetchVerifyCacheResolver (libraries : Libraries) where
  config : ResolverConfig
  keys : TrustedKeys libraries

def fileName (path : Path) : Text :=
  path.fileName.getD []

def fetchError (error : FetchError) (target url : Text) (isManifest : Bool) :
    ResolutionError :=
  match error with
  | .notFound =>
      if isManifest then
        .releaseUnavailable target url
      else
        .assetNotFound target url
  | .unreachable _ => .fetch target url

def fetch (url target : Text) (isManifest : Bool) :
    ResolutionProgram Bytes := do
  match ← invoke (.get url) with
  | .ok bytes => return bytes
  | .error error => throw (fetchError error target url isManifest)

namespace FetchVerifyCacheResolver

variable {libraries : Libraries}
variable (resolver : FetchVerifyCacheResolver libraries)

def reverify (cached : CachedBinary) : ResolutionProgram Unit := do
  match ← invoke (.read cached.path) with
  | .error error => throw (.cache cached.path error.detail)
  | .ok bytes =>
      match ← ExceptT.lift (readToString cached.signaturePath) with
      | .error error => throw (.cache cached.signaturePath error.detail)
      | .ok signature =>
          verifyBinary (fileName cached.path) bytes cached.sha256 signature
            resolver.keys

def manifestUrl : Text :=
  resolver.config.baseUrl ++ "/manifest.json".toList

def signatureUrl : Text :=
  resolver.config.baseUrl ++ "/manifest.minisig".toList

def loadManifest : ResolutionProgram Manifest := do
  let manifestBytes ← fetch resolver.manifestUrl resolver.config.platform true
  let signatureBytes ←
    fetch resolver.signatureUrl resolver.config.platform true
  let signature := decodeLossy signatureBytes
  verifyManifest manifestBytes signature resolver.keys
  Manifest.parseAndValidate libraries manifestBytes
    resolver.config.expectedVersion

def assetName (name : Text) : Text :=
  name ++ "-".toList ++ resolver.config.platform

def assetUrl (name : Text) : Text :=
  resolver.config.baseUrl ++ "/".toList ++ resolver.assetName name

/-- Fetch the binary the manifest lists, verify it and store it. -/
def fetchVerifyStore (name : Text) : ResolutionProgram Path := do
  let manifest ← resolver.loadManifest
  match manifest.platformEntry name resolver.config.platform with
  | none =>
      throw (.assetNotFound (resolver.assetName name) (resolver.assetUrl name))
  | some entry => do
      let bytes ←
        fetch (resolver.assetUrl name) (resolver.assetName name) false
      verifyBinary (resolver.assetName name) bytes entry.sha256
        entry.signature resolver.keys
      let cached ←
        store resolver.config.cacheRoot name resolver.config.expectedVersion
          entry.sha256 bytes entry.signature
      ExceptT.lift
        (enforceRetentionCap resolver.config.cacheRoot name
          resolver.config.retainedVersions)
      return cached.path

/-- Even an entry of the cache is verified again, and removed on failure. -/
def resolve (command : ExternalCommand) : ResolutionProgram Path := do
  match command.name.toStr with
  | none => throw (.unresolved command.name)
  | some name =>
      match ←
          ExceptT.lift
            (find resolver.config.cacheRoot name
              resolver.config.expectedVersion) with
      | none => resolver.fetchVerifyStore name
      | some cached =>
          match ← ExceptT.lift (resolver.reverify cached).run with
          | .ok () => return cached.path
          | .error _ => do
              ExceptT.lift (evict cached)
              resolver.fetchVerifyStore name

/-! ## What verifies a binary again and loads a manifest -/

theorem asks_fetch (url target : Text) (isManifest : Bool) :
    Asks Call.Reads (fetch url target isManifest).run := by
  apply Asks.run_bind ((asks_invoke _).mpr trivial)
  intro answer
  cases answer <;> trivial

theorem asks_loadManifest : Asks Call.Reads resolver.loadManifest.run := by
  apply Asks.run_bind (asks_fetch _ _ _)
  intro manifestBytes
  apply Asks.run_bind (asks_fetch _ _ _)
  intro signatureBytes
  apply Asks.run_bind (asks_run_except _)
  intro _
  exact asks_run_except _

theorem asks_reverify (cached : CachedBinary) :
    Asks Call.Reads (resolver.reverify cached).run := by
  apply Asks.run_bind ((asks_invoke _).mpr trivial)
  intro answer
  cases answer with
  | error error => trivial
  | ok bytes =>
      apply Asks.run_bind (asks_readToString trivial).run_lift
      intro text
      cases text with
      | error error => trivial
      | ok signature => exact asks_run_except _

/-! ## What is resolved -/

/-- The path is the one of an entry of the command and the version. -/
def IsEntry (command : ExternalCommand) (path : Path) : Prop :=
  ∃ name cached,
    command.name = .unicode name ∧
      EntryOf resolver.config.cacheRoot name resolver.config.expectedVersion
          cached ∧
        path = cached.path

theorem returns_store
    {root : Path} {name version sha256 signature : Text} {bytes : Bytes} :
    Returns
      (fun result => ∀ cached, result = .ok cached →
        cached.path = root.join (stem name version sha256))
      (store root name version sha256 bytes signature).run := by
  apply (returns_any _).run_bind
  · intro created _
    cases created with
    | error error => rintro cached ⟨⟩
    | ok _ =>
        apply (returns_any _).run_bind
        · intro unique _
          apply (returns_any _).run_bind
          · intro _ _
            apply (returns_any _).run_bind
            · rintro _ _ cached ⟨⟩
              rfl
            · rintro error cached ⟨⟩
          · rintro error cached ⟨⟩
        · rintro error cached ⟨⟩
  · rintro error cached ⟨⟩

/-- What is stored is named by a digest, since it was verified. -/
theorem returns_fetchVerifyStore (name : Text) (args : List OsText) :
    Returns
      (fun result => ∀ path, result = .ok path →
        resolver.IsEntry { name := .unicode name, args } path)
      (resolver.fetchVerifyStore name).run := by
  apply (returns_any _).run_bind
  · intro manifest _
    cases manifest.platformEntry name resolver.config.platform with
    | none => rintro path ⟨⟩
    | some entry =>
        apply (returns_any _).run_bind
        · intro bytes _
          cases passed : verifyBinary (resolver.assetName name) bytes
              entry.sha256 entry.signature resolver.keys with
          | error error => rintro path ⟨⟩
          | ok _ =>
              have hex : isSha256Hex entry.sha256 = true := by
                rw [← (verifyBinary_ok_iff.mp passed).1]
                exact isSha256Hex_sha256Hex libraries bytes
              apply Returns.run_bind returns_store
              · intro cached placed
                apply (returns_any _).run_bind
                · rintro _ _ path ⟨⟩
                  exact ⟨name, _, rfl, .of_digest hex, placed cached rfl⟩
                · rintro error path ⟨⟩
              · rintro error path ⟨⟩
        · rintro error path ⟨⟩
  · rintro error path ⟨⟩

/-- Whatever its calls answer, a resolver computes the path of an entry. -/
theorem returns_resolve (command : ExternalCommand) :
    Returns
      (fun result => ∀ path, result = .ok path →
        resolver.IsEntry command path)
      (resolver.resolve command).run := by
  rcases command with ⟨commandName, args⟩
  cases commandName with
  | other bytes => rintro path ⟨⟩
  | unicode name =>
      have lifted {α : Type} {kind : α → Prop} {program : HostProgram α}
          (returns : Returns kind program) :
          Returns (fun result : Except ResolutionError α =>
              ∀ value, result = .ok value → kind value)
            (ExceptT.lift program : ResolutionProgram α).run := by
        rw [ExceptT.run_lift, map_eq_pure_bind]
        apply returns.bind
        rintro value known _ ⟨⟩
        exact known
      apply (lifted returns_find).run_bind
      · intro found known
        cases found with
        | none => exact resolver.returns_fetchVerifyStore name args
        | some cached =>
            apply (returns_any _).run_bind
            · intro verified _
              cases verified with
              | ok _ =>
                  rintro path ⟨⟩
                  exact ⟨name, cached, rfl, known _ rfl cached rfl, rfl⟩
              | error error =>
                  apply (returns_any _).run_bind
                  · intro _ _
                    exact resolver.returns_fetchVerifyStore name args
                  · rintro error path ⟨⟩
            · rintro error path ⟨⟩
      · rintro error path ⟨⟩

/-! ## Resolving from the cache -/

section Hits

variable {State : Type} {semantics : Semantics host State} {state : State}
variable {root : Path} {name version : Text} {cached : CachedBinary}

/-- An entry which is listed first, next to its signature, is found. -/
theorem runs_find
    (entry : EntryOf root name version cached)
    {rest : List (Except IoError OsText)}
    (listed : semantics (.readDir root) state
      (.ok (.ok (.unicode (stem name version cached.sha256)) :: rest)) state)
    (signed : semantics (.pathExists cached.signaturePath) state true state) :
    Runs semantics (find root name version) state (some cached) state := by
  rcases entry with ⟨hex, path, signaturePath⟩
  have stripped :
      (stem name version cached.sha256).dropPrefix?
          (name ++ "-".toList ++ version ++ "-".toList) =
        some cached.sha256 :=
    List.dropPrefix?_append_of_beq _ (beq_self_eq_true _)
  have looked :
      Runs semantics
        (issue (.pathExists
          (root.join (signatureName (stem name version cached.sha256)))))
        state true state := by
    apply Runs.perform
    rw [← signaturePath]
    exact signed
  have read :
      Runs semantics (issue (.readDir root)) state
        (.ok (.ok (.unicode (stem name version cached.sha256)) :: rest))
        state :=
    Runs.perform listed
  rw [find]
  apply read.bind
  simp only [findAmong, OsText.toStr, stripped, if_pos hex]
  apply looked.bind
  have whole :
      cached =
        { path := root.join (stem name version cached.sha256)
          sha256 := cached.sha256
          signaturePath :=
            root.join (signatureName (stem name version cached.sha256)) } := by
    rw [← path, ← signaturePath]
  rw [← whole]
  exact .done _ _

theorem runs_reverify
    {bytes signatureBytes : Bytes} {signature : Text}
    (present : semantics (.read cached.path) state (.ok bytes) state)
    (signed : semantics (.read cached.signaturePath) state
      (.ok signatureBytes) state)
    (decoded : decode signatureBytes = some signature)
    (passes : verifyBinary (fileName cached.path) bytes cached.sha256
      signature resolver.keys = .ok ()) :
    Runs semantics (resolver.reverify cached).run state (.ok ()) state := by
  have read :
      Runs semantics
        (invoke (.read cached.path) :
          ResolutionProgram (Except IoError Bytes)).run
        state (.ok (.ok bytes)) state :=
    Runs.run_lift (Runs.perform present)
  have readSignature :
      Runs semantics (readToString cached.signaturePath) state
        (.ok signature) state := by
    have text : textOf (.ok signatureBytes) = .ok signature := by
      rw [textOf, decoded]
    rw [← text]
    exact Runs.bind (Runs.perform signed) (.done _ _)
  rw [reverify]
  apply read.run_bind
  apply readSignature.run_lift.run_bind
  simp only [passes]
  exact .done _ _

/-- An entry which is found and passes the checks is what is resolved. -/
theorem runs_cached
    {args : List OsText}
    (entry : EntryOf resolver.config.cacheRoot name
      resolver.config.expectedVersion cached)
    {rest : List (Except IoError OsText)}
    (listed : semantics (.readDir resolver.config.cacheRoot) state
      (.ok (.ok (.unicode
        (stem name resolver.config.expectedVersion cached.sha256)) :: rest))
      state)
    (found : semantics (.pathExists cached.signaturePath) state true state)
    {bytes signatureBytes : Bytes} {signature : Text}
    (present : semantics (.read cached.path) state (.ok bytes) state)
    (signed : semantics (.read cached.signaturePath) state
      (.ok signatureBytes) state)
    (decoded : decode signatureBytes = some signature)
    (passes : verifyBinary (fileName cached.path) bytes cached.sha256
      signature resolver.keys = .ok ()) :
    Runs semantics (resolver.resolve { name := .unicode name, args }).run
      state (.ok cached.path) state := by
  have verified :
      Runs semantics (resolver.reverify cached).run state (.ok ()) state :=
    resolver.runs_reverify present signed decoded passes
  rw [resolve]
  apply (runs_find entry listed found).run_lift.run_bind
  apply verified.run_lift.run_bind
  exact .done _ _

/-- So it is on a flat disk which has the two files. -/
theorem runs_hit
    {surroundings : Surroundings} {unique : UInt32} {disk : Disk}
    {args : List OsText}
    (entry : EntryOf resolver.config.cacheRoot name
      resolver.config.expectedVersion cached)
    {rest : List (Except IoError OsText)}
    (listed : surroundings.listing disk resolver.config.cacheRoot
      (.ok (.unicode
        (stem name resolver.config.expectedVersion cached.sha256)) :: rest))
    {bytes signatureBytes : Bytes} {signature : Text}
    (present : disk.file cached.path = some bytes)
    (signed : disk.file cached.signaturePath = some signatureBytes)
    (decoded : decode signatureBytes = some signature)
    (passes : verifyBinary (fileName cached.path) bytes cached.sha256
      signature resolver.keys = .ok ()) :
    Runs (flat surroundings unique)
      (resolver.resolve { name := .unicode name, args }).run disk
      (.ok cached.path) disk := by
  apply resolver.runs_cached entry ⟨rfl, listed⟩ _ ⟨rfl, present⟩
    ⟨rfl, signed⟩ decoded passes
  refine ⟨rfl, fun _ => ?_⟩
  rw [signed]
  exact Option.some_ne_none _

end Hits

end FetchVerifyCacheResolver

/-! ## Two small releases -/

def olderBinary : Bytes := []

def currentBinary : Bytes := [0x61, 0x62, 0x63]

/-- The manifest of a release of one binary for one platform. -/
def smallManifestText (version sha256 signature : String) : Text :=
  "\x7b\"schema_version\":1,\"version\":\"".toList ++ version.toList ++
    "\",\"binaries\":\x7b\"foo\":\x7b\"platforms\":\x7b\"linux-x64\":".toList ++
    "\x7b\"sha256\":\"".toList ++ sha256.toList ++
    "\",\"signature\":\"".toList ++ signature.toList ++
    "\"\x7d\x7d\x7d\x7d\x7d".toList

def smallManifest (version sha256 signature : String) : Manifest where
  schemaVersion := 1
  version := version.toList
  binaries name :=
    if name = "foo".toList then
      some
        { platforms := fun platform =>
            if platform = "linux-x64".toList then
              some { sha256 := sha256.toList, signature := signature.toList }
            else
              none }
    else
      none

theorem smallManifest_platformEntry
    {version sha256 signature : String} {name platform : Text}
    {entry : PlatformEntry}
    (listed :
      (smallManifest version sha256 signature).platformEntry name platform =
        some entry) :
    name = "foo".toList ∧ platform = "linux-x64".toList ∧
      entry.sha256 = sha256.toList := by
  simp only [Manifest.platformEntry, smallManifest, Option.bind_eq_bind,
    Option.bind_eq_some_iff] at listed
  rcases listed with ⟨binary, named, found⟩
  split_ifs at named with isFoo
  cases named
  dsimp only at found
  split_ifs at found with isLinux
  cases found
  exact ⟨isFoo, isLinux, rfl⟩

def olderSha256 : String :=
  "e3b0c44298fc1c149afbf4c8996fb92427ae41e4649b934ca495991b7852b855"

def currentSha256 : String :=
  "ba7816bf8f01cfea414140de5dae2223b00361a396177a9cb410ff61f20015ad"

def olderManifest : Bytes :=
  encode (smallManifestText "1.0.0" olderSha256 "older")

def currentManifest : Bytes :=
  encode (smallManifestText "2.0.0" currentSha256 "current")

/-- What the release key signed. -/
def smallSignatures : List (Bytes × Text) :=
  [(olderBinary, "older".toList), (currentBinary, "current".toList),
    (olderManifest, "older manifest".toList),
    (currentManifest, "current manifest".toList)]

/-- The libraries, on the files of the two releases. -/
def smallLibraries : Libraries where
  digest bytes :=
    if bytes = olderBinary then
      #v[0xe3, 0xb0, 0xc4, 0x42, 0x98, 0xfc, 0x1c, 0x14,
        0x9a, 0xfb, 0xf4, 0xc8, 0x99, 0x6f, 0xb9, 0x24,
        0x27, 0xae, 0x41, 0xe4, 0x64, 0x9b, 0x93, 0x4c,
        0xa4, 0x95, 0x99, 0x1b, 0x78, 0x52, 0xb8, 0x55]
    else if bytes = currentBinary then
      #v[0xba, 0x78, 0x16, 0xbf, 0x8f, 0x01, 0xcf, 0xea,
        0x41, 0x41, 0x40, 0xde, 0x5d, 0xae, 0x22, 0x23,
        0xb0, 0x03, 0x61, 0xa3, 0x96, 0x17, 0x7a, 0x9c,
        0xb4, 0x10, 0xff, 0x61, 0xf2, 0x00, 0x15, 0xad]
    else if bytes = olderManifest then
      #v[0x90, 0x3d, 0x98, 0xdb, 0x9c, 0x5e, 0x60, 0x52,
        0x4e, 0xa2, 0xb1, 0xbf, 0x16, 0xff, 0xed, 0xa2,
        0x7e, 0x99, 0x8a, 0xe9, 0xa4, 0x23, 0x25, 0xa9,
        0x71, 0x15, 0x47, 0xd1, 0x0f, 0xdf, 0x3c, 0x0f]
    else
      #v[0xa5, 0xbb, 0xc7, 0xdb, 0x34, 0x51, 0x1b, 0xc9,
        0xee, 0x04, 0x0d, 0x66, 0xd6, 0xb8, 0x06, 0xc4,
        0xde, 0x13, 0x62, 0x46, 0xa8, 0x56, 0x75, 0x62,
        0x59, 0x85, 0x09, 0x4d, 0xb4, 0xe9, 0x4f, 0xe0]
  PublicKey := Unit
  Signature := Text
  decodeSignature signature := .ok signature
  verify _ data signature _ :=
    if (data, signature) ∈ smallSignatures then
      .ok ()
    else
      .error "signature verification failed".toList
  fromSlice bytes :=
    if bytes = olderManifest then
      .ok (smallManifest "1.0.0" olderSha256 "older")
    else if bytes = currentManifest then
      .ok (smallManifest "2.0.0" currentSha256 "current")
    else
      .error "expected value at line 1 column 1".toList

theorem smallLibraries_fromSlice (bytes : Bytes) :
    smallLibraries.fromSlice bytes =
      if bytes = olderManifest then
        .ok (smallManifest "1.0.0" olderSha256 "older")
      else if bytes = currentManifest then
        .ok (smallManifest "2.0.0" currentSha256 "current")
      else
        .error "expected value at line 1 column 1".toList := rfl

theorem fromSlice_olderManifest :
    smallLibraries.fromSlice olderManifest =
      .ok (smallManifest "1.0.0" olderSha256 "older") := by
  rw [smallLibraries_fromSlice, if_pos rfl]

theorem fromSlice_currentManifest :
    smallLibraries.fromSlice currentManifest =
      .ok (smallManifest "2.0.0" currentSha256 "current") := by
  have different : currentManifest ≠ olderManifest := by decide +kernel
  rw [smallLibraries_fromSlice, if_neg different, if_pos rfl]

def smallKeys : TrustedKeys smallLibraries where
  keys := [()]

theorem smallKeys_verifies_iff (data : Bytes) (signature : Text) :
    smallKeys.verifies data signature = true ↔
      (data, signature) ∈ smallSignatures := by
  show ([()].any fun _ =>
    (if (data, signature) ∈ smallSignatures then
      (.ok () : Except Text Unit)
    else
      .error "signature verification failed".toList).isOk) = true ↔ _
  split_ifs with signed
  · simp [signed, Except.isOk, Except.toBool]
  · simp [signed, Except.isOk, Except.toBool]

/-- A launcher of the later version. -/
def smallResolver : FetchVerifyCacheResolver smallLibraries where
  config :=
    { expectedVersion := "2.0.0".toList
      platform := "linux-x64".toList
      baseUrl := "https://github.com".toList
      cacheRoot := { absolute := true, components := [.normal "cache".toList] }
      retainedVersions := 3 }
  keys := smallKeys

/-- The entry of the command under the digest of these bytes. -/
def smallEntry (bytes : Bytes) : CachedBinary where
  path := smallResolver.config.cacheRoot.join
    (stem "foo".toList "2.0.0".toList (sha256Hex smallLibraries bytes))
  sha256 := sha256Hex smallLibraries bytes
  signaturePath := smallResolver.config.cacheRoot.join
    (signatureName
      (stem "foo".toList "2.0.0".toList (sha256Hex smallLibraries bytes)))

/-- The answers of a server which has no release on it. -/
def Unpublished (_ : Text) (answer : Except FetchError Bytes) : Prop :=
  answer = .error .notFound

theorem unpublished_responds (url : Text) :
    ∃ answer, Unpublished url answer :=
  ⟨_, rfl⟩

/-- A disk with nothing but an entry of the command. -/
def smallDisk (bytes : Bytes) (signature : Text) : Disk where
  file :=
    Function.update
      (Function.update (fun _ => none) (smallEntry bytes).signaturePath
        (some (encode signature)))
      (smallEntry bytes).path (some bytes)
  counter _ := 0

theorem smallEntry_of (bytes : Bytes) :
    EntryOf smallResolver.config.cacheRoot "foo".toList "2.0.0".toList
      (smallEntry bytes) :=
  ⟨isSha256Hex_sha256Hex smallLibraries bytes, rfl, rfl⟩

theorem plain_smallStem (bytes : Bytes) :
    Plain (stem "foo".toList "2.0.0".toList
      (sha256Hex smallLibraries bytes)) := by
  have unseparated := notMem_sha256
    (isSha256Hex_sha256Hex smallLibraries bytes)
    (show isHexDigit '/' = false from rfl)
  simp [Plain, stem, unseparated]

theorem smallDisk_binary (bytes : Bytes) (signature : Text) :
    (smallDisk bytes signature).file (smallEntry bytes).path =
      some bytes := by
  simp [smallDisk]

theorem smallDisk_signature (bytes : Bytes) (signature : Text) :
    (smallDisk bytes signature).file (smallEntry bytes).signaturePath =
      some (encode signature) := by
  have different :
      (smallEntry bytes).signaturePath ≠ (smallEntry bytes).path := by
    intro equal
    have entry := smallEntry_of bytes
    exact entry.binaryNamed.not_signatureNamed
      (equal ▸ entry.signatureNamed)
  simp [smallDisk, Function.update_of_ne different]

/-- A signed file under its own digest is resolved, whatever it is. -/
theorem runs_smallDisk
    {bytes : Bytes} {signature : Text}
    (signed : (bytes, signature) ∈ smallSignatures) (unique : UInt32) :
    Runs (flat (.listed Unpublished unpublished_responds) unique)
      (smallResolver.resolve
        { name := .unicode "foo".toList, args := [] }).run
      (smallDisk bytes signature) (.ok (smallEntry bytes).path)
      (smallDisk bytes signature) := by
  apply smallResolver.runs_hit (smallEntry_of bytes)
    (lists_first _ _ (plain_smallStem bytes) missing)
    (smallDisk_binary bytes signature)
    (smallDisk_signature bytes signature) (decode_encode signature)
  apply verifyBinary_ok_iff.mpr
  exact ⟨rfl, (smallKeys_verifies_iff bytes signature).mpr signed⟩

end Luminosity.Launch.Resolver
