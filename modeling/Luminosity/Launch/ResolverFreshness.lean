import Mathlib.Data.Set.Insert
import Luminosity.Launch.ResolverRuns

/-!
# What a resolved binary is

The release key signs releases: for each a manifest, which states the version
and lists the digests of the binaries, and the binaries themselves.  On the
way through the network a resolver accepts a binary only if the manifest of
its own version lists it.  An entry of the cache is accepted by its name and by
a signature of its bytes, neither of which says of which release and which
command the bytes are.

So a resolved file is the binary listed for the command in the launcher's own
version exactly as long as this already holds of every entry which carries the
name of the command and the version, hashes to the digest in its name, and is
signed.
-/

namespace Luminosity.Launch.ResolverFreshness

open Luminosity.Foundation.TextSegments
open Luminosity.Foundation.EffectPrograms
open Luminosity.Foundation.Interleaving
open Luminosity.Host.Paths
open Luminosity.Host.Calls
open Luminosity.Host.FlatDisk
open Luminosity.Launch.Core
open Luminosity.Launch.Verifier
open Luminosity.Launch.Cache
open Luminosity.Launch.Resolver
open Luminosity.Launch.Histories
open Luminosity.Launch.ResolverRuns

/-! ## What the release key signed -/

/-- A release, with its binaries by name and platform. -/
structure Release where
  version : Text
  binary : Text → Text → Option Bytes
  manifest : Bytes

/-- A file of the release, which the release key signs. -/
def Release.Contains (release : Release) (bytes : Bytes) : Prop :=
  bytes = release.manifest ∨
    ∃ name platform, release.binary name platform = some bytes

variable {libraries : Libraries}

/--
The releases a key has signed.  Nothing else carries its signature, their
files have different digests, a manifest lists the binaries of its release,
and no binary reads as a manifest.
-/
structure SignedReleases (keys : TrustedKeys libraries) where
  releases : Set Release
  unforgeable : ∀ bytes signature, keys.verifies bytes signature = true →
    ∃ release ∈ releases, release.Contains bytes
  collisionFree : ∀ release ∈ releases, ∀ other ∈ releases,
    ∀ bytes otherBytes, release.Contains bytes → other.Contains otherBytes →
      sha256Hex libraries bytes = sha256Hex libraries otherBytes →
        bytes = otherBytes
  lists : ∀ release ∈ releases, ∀ manifest,
    libraries.fromSlice release.manifest = .ok manifest →
      manifest.version = release.version ∧
        ∀ name platform entry,
          manifest.platformEntry name platform = some entry →
            ∃ bytes, release.binary name platform = some bytes ∧
              entry.sha256 = sha256Hex libraries bytes
  unreadable : ∀ release ∈ releases, ∀ name platform bytes,
    release.binary name platform = some bytes →
      ∀ manifest, libraries.fromSlice bytes ≠ .ok manifest

namespace SignedReleases

variable {keys : TrustedKeys libraries} (signed : SignedReleases keys)

/-- A signed release of the version lists the bytes. -/
def Listed (version name platform : Text) (bytes : Bytes) : Prop :=
  ∃ release ∈ signed.releases,
    release.version = version ∧ release.binary name platform = some bytes

/-- The file is one of a release, or a signature of one. -/
def Genuine (bytes : Bytes) : Prop :=
  (∃ release ∈ signed.releases, release.Contains bytes) ∨
    ∃ data signature, keys.verifies data signature = true ∧
      bytes = encode signature

end SignedReleases

variable {resolver : FetchVerifyCacheResolver libraries}
variable (signed : SignedReleases resolver.keys)

/-- What a served manifest of the version authorises is what it lists. -/
theorem listed_of_authorised
    {name : Text} {bytes : Bytes} {history : History Disk}
    (authorised : Authorised resolver name bytes history) :
    signed.Listed resolver.config.expectedVersion name
      resolver.config.platform bytes := by
  rcases authorised with ⟨manifest, entry, loaded, found, digest, verified⟩
  rcases loaded with ⟨manifestBytes, signature, _, genuine, parsed, _, current⟩
  rcases signed.unforgeable manifestBytes signature genuine with
    ⟨release, member, contains⟩
  rcases contains with rfl | ⟨other, platform, isBinary⟩
  · rcases signed.lists release member manifest parsed with ⟨version, entries⟩
    rcases entries _ _ entry found with ⟨listed, isListed, listedDigest⟩
    rcases signed.unforgeable bytes entry.signature verified with
      ⟨origin, originMember, originContains⟩
    have same : bytes = listed := by
      apply signed.collisionFree origin originMember release member _ _
        originContains
      · exact Or.inr ⟨_, _, isListed⟩
      · rw [← digest, listedDigest]
    subst same
    exact ⟨release, member, version.symm.trans current, isListed⟩
  · exact absurd parsed
      (signed.unreadable release member _ _ _ isBinary manifest)

/-! ## Entries of the cache -/

/--
Every entry which carries the name of the command and the launcher's version,
hashes to the digest in its name and is signed holds the listed binary.
-/
def EntriesListed
    (resolver : FetchVerifyCacheResolver libraries)
    (signed : SignedReleases resolver.keys) (name : Text) (disk : Disk) :
    Prop :=
  ∀ bytes signatureBytes signature,
    let stem :=
      stem name resolver.config.expectedVersion (sha256Hex libraries bytes)
    Plain stem →
      disk.file (resolver.config.cacheRoot.join stem) = some bytes →
        disk.file (resolver.config.cacheRoot.join (signatureName stem)) =
            some signatureBytes →
          decode signatureBytes = some signature →
            resolver.keys.verifies bytes signature = true →
              signed.Listed resolver.config.expectedVersion name
                resolver.config.platform bytes

section Network

variable {network : Text → Except FetchError Bytes → Prop}
variable {responds : ∀ url, ∃ answer, network url answer} {unique : UInt32}

/-- An entry is found under a name the directory lists. -/
theorem ensures_find_plain
    (root : Path) (name version : Text) (log : Log) :
    Ensures (calls (.listed network responds) unique)
      (find root name version)
      (fun found _ => ∀ cached, found = some cached →
        Plain (stem name version cached.sha256))
      log := by
  rw [find, ensures_bind, ensures_issue]
  rintro answer after ⟨⟨_, listing⟩, _⟩
  cases answer with
  | error error =>
      rintro cached ⟨⟩
  | ok entries =>
      apply ((returns_findAmong entries).ensures after).mono
      intro found last known cached same
      exact listing.1 _ (known cached same).2

/-- A listed entry which passes the checks is resolved in some run. -/
theorem runs_entry
    {name : Text} {args : List OsText} {disk : Disk}
    {bytes signatureBytes : Bytes} {signature : Text}
    (plain : Plain
      (stem name resolver.config.expectedVersion (sha256Hex libraries bytes)))
    (present : disk.file (entryPath resolver name bytes) = some bytes)
    (signaturePresent : disk.file
      (resolver.config.cacheRoot.join (signatureName
        (stem name resolver.config.expectedVersion
          (sha256Hex libraries bytes)))) = some signatureBytes)
    (decoded : decode signatureBytes = some signature)
    (verified : resolver.keys.verifies bytes signature = true) :
    Runs (flat (.listed network responds) unique)
      (resolver.resolve { name := .unicode name, args }).run disk
      (.ok (entryPath resolver name bytes)) disk := by
  have entry :
      EntryOf resolver.config.cacheRoot name resolver.config.expectedVersion
        { path := entryPath resolver name bytes
          sha256 := sha256Hex libraries bytes
          signaturePath := resolver.config.cacheRoot.join (signatureName
            (stem name resolver.config.expectedVersion
              (sha256Hex libraries bytes))) } :=
    ⟨isSha256Hex_sha256Hex libraries bytes, rfl, rfl⟩
  apply resolver.runs_hit entry (lists_first _ _ plain missing) present
    signaturePresent decoded
  exact verifyBinary_ok_iff.mpr ⟨rfl, verified⟩

end Network

/--
Every file a resolver resolves to is the binary which the launcher's own
version lists for the command, if and only if every entry of the command in
the cache already is.
-/
theorem resolved_listed_iff
    (resolver : FetchVerifyCacheResolver libraries)
    (signed : SignedReleases resolver.keys)
    (network : Text → Except FetchError Bytes → Prop)
    (responds : ∀ url, ∃ answer, network url answer) (unique : UInt32)
    (name : Text) (args : List OsText) (disk : Disk) :
    (∀ path after,
      Runs (flat (.listed network responds) unique)
          (resolver.resolve { name := .unicode name, args }).run disk
          (.ok path) after →
        ∀ bytes, after.file path = some bytes →
          signed.Listed resolver.config.expectedVersion name
            resolver.config.platform bytes) ↔
      EntriesListed resolver signed name disk := by
  constructor
  · intro resolved bytes signatureBytes signature stem plain present
      signaturePresent decoded verified
    apply resolved (entryPath resolver name bytes) disk _ bytes present
    exact runs_entry plain present signaturePresent decoded verified
  · intro entries path after runs bytes present
    rcases @Runs.recorded _ _ _ _ (fun _ : Unit => _) () _ _ _ _ runs [] with
      ⟨history, recorded⟩
    rcases (ensures_resolve resolver name args disk).of_run recorded with
      ⟨cached, found, finds, resolved, same, passes⟩ | fetched
    · cases resolved
      have entry : EntryOf resolver.config.cacheRoot name
          resolver.config.expectedVersion cached :=
        (returns_find.ensures _).of_run finds cached rfl
      have plain :=
        (ensures_find_plain _ _ _ _).of_run finds cached rfl
      rcases passes with
        ⟨held, signatureBytes, signature, isHeld, signaturePresent, decoded,
          checked⟩
      rcases verifyBinary_ok_iff.mp checked with ⟨digest, verified⟩
      have equal : held = bytes := by
        rw [show after = disk from same, isHeld] at present
        exact Option.some.inj present
      subst equal
      rw [entry.path, ← digest] at isHeld
      rw [entry.signaturePath, ← digest] at signaturePresent
      rw [← digest] at plain
      exact entries held signatureBytes signature plain isHeld
        signaturePresent decoded verified
    · rcases fetched path rfl with ⟨stored, authorised, _, only⟩
      rw [only bytes present]
      exact listed_of_authorised signed authorised

/-! ## An older release in the cache -/

/-- A release of one binary for one platform. -/
def smallRelease (version : String) (bytes manifest : Bytes) : Release where
  version := version.toList
  binary name platform :=
    if name = "foo".toList ∧ platform = "linux-x64".toList then
      some bytes
    else
      none
  manifest

theorem smallRelease_lists
    (version : String) (bytes manifest : Bytes) :
    (smallRelease version bytes manifest).binary "foo".toList
        "linux-x64".toList =
      some bytes := by
  rw [smallRelease]
  dsimp only
  rw [if_pos ⟨rfl, rfl⟩]

theorem smallRelease_binary
    {version : String} {bytes manifest found : Bytes} {name platform : Text}
    (present :
      (smallRelease version bytes manifest).binary name platform =
        some found) :
    name = "foo".toList ∧ platform = "linux-x64".toList ∧ found = bytes := by
  simp only [smallRelease] at present
  split_ifs at present with same
  exact ⟨same.1, same.2, (Option.some.inj present).symm⟩

theorem smallRelease_contains
    {version : String} {bytes manifest found : Bytes}
    (contains : (smallRelease version bytes manifest).Contains found) :
    found = manifest ∨ found = bytes := by
  rcases contains with isManifest | ⟨name, platform, isBinary⟩
  · exact Or.inl isManifest
  · exact Or.inr (smallRelease_binary isBinary).2.2

def olderRelease : Release :=
  smallRelease "1.0.0" olderBinary olderManifest

def currentRelease : Release :=
  smallRelease "2.0.0" currentBinary currentManifest

/-- The files of the two releases. -/
def smallFiles : List Bytes :=
  [olderBinary, currentBinary, olderManifest, currentManifest]

theorem mem_smallFiles
    {release : Release} (member : release ∈ ({olderRelease, currentRelease} :
      Set Release))
    {bytes : Bytes} (contains : release.Contains bytes) :
    bytes ∈ smallFiles := by
  rcases member with rfl | rfl
  · rcases smallRelease_contains contains with rfl | rfl <;> simp [smallFiles]
  · rcases smallRelease_contains contains with rfl | rfl <;> simp [smallFiles]

theorem smallFiles_collisionFree :
    ∀ bytes ∈ smallFiles, ∀ other ∈ smallFiles,
      sha256Hex smallLibraries bytes = sha256Hex smallLibraries other →
        bytes = other := by
  decide +kernel

theorem fromSlice_binary
    {bytes : Bytes} (binary : bytes = olderBinary ∨ bytes = currentBinary)
    (manifest : Manifest) :
    smallLibraries.fromSlice bytes ≠ .ok manifest := by
  have notOlder : bytes ≠ olderManifest := by
    rcases binary with rfl | rfl <;> decide +kernel
  have notCurrent : bytes ≠ currentManifest := by
    rcases binary with rfl | rfl <;> decide +kernel
  rw [smallLibraries_fromSlice, if_neg notOlder, if_neg notCurrent]
  rintro ⟨⟩

/-- Both releases are signed by the one key. -/
def smallReleases : SignedReleases smallKeys where
  releases := {olderRelease, currentRelease}
  unforgeable bytes signature verified := by
    have signed := (smallKeys_verifies_iff bytes signature).mp verified
    have older : olderRelease ∈ ({olderRelease, currentRelease} :
        Set Release) := Or.inl rfl
    have current : currentRelease ∈ ({olderRelease, currentRelease} :
        Set Release) := Or.inr rfl
    simp only [smallSignatures, List.mem_cons, Prod.mk.injEq,
      List.not_mem_nil, or_false] at signed
    rcases signed with ⟨rfl, _⟩ | ⟨rfl, _⟩ | ⟨rfl, _⟩ | ⟨rfl, _⟩
    · exact ⟨_, older, Or.inr ⟨_, _, smallRelease_lists ..⟩⟩
    · exact ⟨_, current, Or.inr ⟨_, _, smallRelease_lists ..⟩⟩
    · exact ⟨_, older, Or.inl rfl⟩
    · exact ⟨_, current, Or.inl rfl⟩
  collisionFree release member other otherMember bytes otherBytes contains
      otherContains equal :=
    smallFiles_collisionFree bytes (mem_smallFiles member contains)
      otherBytes (mem_smallFiles otherMember otherContains) equal
  lists release member manifest parsed := by
    rcases member with rfl | rfl
    · cases fromSlice_olderManifest.symm.trans parsed
      apply And.intro rfl
      intro name platform entry listed
      rcases smallManifest_platformEntry listed with ⟨rfl, rfl, digest⟩
      refine ⟨olderBinary, smallRelease_lists .., ?_⟩
      rw [digest]
      decide +kernel
    · cases fromSlice_currentManifest.symm.trans parsed
      apply And.intro rfl
      intro name platform entry listed
      rcases smallManifest_platformEntry listed with ⟨rfl, rfl, digest⟩
      refine ⟨currentBinary, smallRelease_lists .., ?_⟩
      rw [digest]
      decide +kernel
  unreadable release member name platform bytes binary := by
    rcases member with rfl | rfl
    · exact fromSlice_binary (Or.inl (smallRelease_binary binary).2.2)
    · exact fromSlice_binary (Or.inr (smallRelease_binary binary).2.2)

theorem resolved_listed_iff_small :
    (∀ path after,
      Runs (flat (.listed Unpublished unpublished_responds) 0)
          (smallResolver.resolve
            { name := .unicode "foo".toList, args := [] }).run
          (smallDisk currentBinary "current".toList) (.ok path) after →
        ∀ bytes, after.file path = some bytes →
          smallReleases.Listed smallResolver.config.expectedVersion
            "foo".toList smallResolver.config.platform bytes) ↔
      EntriesListed smallResolver smallReleases "foo".toList
        (smallDisk currentBinary "current".toList) :=
  resolved_listed_iff smallResolver smallReleases
    Unpublished unpublished_responds 0 "foo".toList []
    (smallDisk currentBinary "current".toList)

/--
Every file of the cache is genuine, and still the resolver of the later version
resolves to the binary of the older one, which its own version does not list.
-/
theorem older_release_resolved :
    (∀ path bytes,
      (smallDisk olderBinary "older".toList).file path = some bytes →
        smallReleases.Genuine bytes) ∧
    Runs (flat (.listed Unpublished unpublished_responds) 0)
        (smallResolver.resolve
          { name := .unicode "foo".toList, args := [] }).run
        (smallDisk olderBinary "older".toList)
        (.ok (smallEntry olderBinary).path)
        (smallDisk olderBinary "older".toList) ∧
    (smallDisk olderBinary "older".toList).file
        (smallEntry olderBinary).path = some olderBinary ∧
    ¬ smallReleases.Listed smallResolver.config.expectedVersion
        "foo".toList smallResolver.config.platform olderBinary := by
  have signed : (olderBinary, "older".toList) ∈ smallSignatures :=
    List.mem_cons_self
  refine ⟨?_, runs_smallDisk signed 0, smallDisk_binary _ _, ?_⟩
  · intro path bytes present
    simp only [smallDisk, Function.update_apply] at present
    split_ifs at present with isBinary isSignature
    · cases present
      exact Or.inl ⟨olderRelease, Or.inl rfl,
        Or.inr ⟨_, _, smallRelease_lists ..⟩⟩
    · cases present
      exact Or.inr ⟨olderBinary, _,
        (smallKeys_verifies_iff _ _).mpr signed, rfl⟩
  · rintro ⟨release, member, version, listed⟩
    rcases member with rfl | rfl
    · revert version
      decide
    · have bytes := (smallRelease_binary listed).2.2
      revert bytes
      decide

end Luminosity.Launch.ResolverFreshness
