import Luminosity.Launch.Resolver

/-!
# Resolving offline

A command is resolved without the network from the first entry of it which the
cache directory lists next to a signature.  When this entry does not verify
again, it is removed, and no other entry is looked at: the command is resolved
offline exactly when the first of its entries is intact.
-/

namespace Luminosity.Launch.Offline

open Luminosity.Foundation.TextSegments
open Luminosity.Foundation.EffectPrograms
open Luminosity.Host.Paths
open Luminosity.Host.Calls
open Luminosity.Host.FlatDisk
open Luminosity.Launch.Core
open Luminosity.Launch.Verifier
open Luminosity.Launch.Cache
open Luminosity.Launch.Resolver

/-- A cache directory, with the order in which its entries are listed. -/
structure CacheContents (root : Path) where
  disk : Disk
  names : List Text
  /-- What exists but cannot be read, such as a directory. -/
  unreadable : Path → Bool
  nodup : names.Nodup
  plain : ∀ name ∈ names, Plain name
  complete : ∀ name, Plain name → disk.file (root.child name) ≠ none →
    name ∈ names

namespace CacheContents

variable {root : Path} (contents : CacheContents root)

def present (path : Path) : Bool :=
  (contents.disk.file path).isSome || contents.unreadable path

end CacheContents

/-- Nothing is reached by the network. -/
def unreached (failure : Text → FetchError) : Surroundings :=
  .listed (fun url answer => answer = .error (failure url)) fun _ => ⟨_, rfl⟩

/-- Every request fails, and no other call does. -/
noncomputable def offline {root : Path} (contents : CacheContents root)
    (failure : Text → FetchError) (process : UInt32) : Handler host Disk
  | .pathExists path, disk =>
      ((disk.file path).isSome || contents.unreadable path, disk)
  | .readDir _, disk =>
      (.ok (contents.names.map fun name => .ok (.unicode name)), disk)
  | .get url, disk => (.error (failure url), disk)
  | call, disk => faultless (unreached failure) process call disk

section Resolution

variable {libraries : Libraries}
variable (resolver : FetchVerifyCacheResolver libraries)
variable (contents : CacheContents resolver.config.cacheRoot)
variable (name : Text)

/-- An entry has its own digest, and its signature verifies it. -/
def Verifiable (disk : Disk) (cached : CachedBinary) : Prop :=
  ∃ bytes signatureBytes signature,
    disk.file cached.path = some bytes ∧
      sha256Hex libraries bytes = cached.sha256 ∧
        disk.file cached.signaturePath = some signatureBytes ∧
          decode signatureBytes = some signature ∧
            resolver.keys.verifies bytes signature

/-- The name of an entry of the command and of the version in use. -/
def entryName (sha256 : Text) : Text :=
  stem name resolver.config.expectedVersion sha256

/-- The entry of a file, with the signature which is next to it. -/
def entryAt (root : Path) (file sha256 : Text) : CachedBinary where
  path := root.child file
  sha256
  signaturePath := root.child (signatureName file)

/-- An entry which is listed and can be verified. -/
def Intact (sha256 : Text) : Prop :=
  entryName resolver name sha256 ∈ contents.names ∧
    Verifiable resolver contents.disk
      (entryAt resolver.config.cacheRoot (entryName resolver name sha256)
        sha256)

/-- A file which is named as an entry, and next to which is a signature. -/
def Candidate (file : Text) : Prop :=
  ∃ sha256, file = entryName resolver name sha256 ∧
    isSha256Hex sha256 ∧
      contents.present
        (resolver.config.cacheRoot.child (signatureName file))

/-- The first of the candidates is intact. -/
def IntactFirst : Prop :=
  ∃ before sha256 after,
    contents.names = before ++ entryName resolver name sha256 :: after ∧
      Intact resolver contents name sha256 ∧
        ∀ file ∈ before, ¬ Candidate resolver contents name file

/-- The command resolves to verified bytes if it has an intact entry. -/
def ResolvesOffline (failure : Text → FetchError) (process : UInt32)
    (args : List OsText) : Prop :=
  (∃ sha256, Intact resolver contents name sha256) →
    ∃ path bytes signature final,
      (resolver.resolve { name := .unicode name, args }).run.execute
          (offline contents failure process) contents.disk =
          (.ok path, final) ∧
        final.file path = some bytes ∧
          resolver.keys.verifies bytes signature

end Resolution

/-! ## What is found -/

section Finding

variable {root : Path} {contents : CacheContents root}
variable {failure : Text → FetchError} {process : UInt32}
variable {name version : Text}

/-- The entry a file is of, when a signature is next to it. -/
def candidate (contents : CacheContents root) (front file : Text) :
    Option CachedBinary := do
  let sha256 ← file.dropPrefix? front
  let signaturePath := root.join (signatureName file)
  if isSha256Hex sha256 && contents.present signaturePath then
    some { path := root.join file, sha256, signaturePath }
  else
    none

theorem execute_exists (path : Path) :
    (issue (.pathExists path)).execute (offline contents failure process)
        contents.disk =
      (contents.present path, contents.disk) :=
  rfl

theorem execute_findAmong (front : Text) (names : List Text) :
    (findAmong root front (names.map fun name => .ok (.unicode name))).execute
        (offline contents failure process) contents.disk =
      (names.findSome? (candidate contents front), contents.disk) := by
  induction names with
  | nil => rfl
  | cons file rest induction =>
      rw [List.map_cons, findAmong, List.findSome?_cons, candidate]
      simp only [OsText.toStr]
      cases stripped : file.dropPrefix? front with
      | none => exact induction
      | some sha256 =>
          simp only [Option.bind_eq_bind, Option.bind_some]
          cases hex : isSha256Hex sha256 with
          | false => exact induction
          | true =>
              rw [if_pos rfl, execute_bind, execute_exists, Bool.true_and]
              cases contents.present (root.join (signatureName file)) with
              | true => rfl
              | false => exact induction

/-- The first candidate is found. -/
theorem execute_find :
    (find root name version).execute (offline contents failure process)
        contents.disk =
      (contents.names.findSome?
          (candidate contents
            (name ++ "-".toList ++ version ++ "-".toList)),
        contents.disk) :=
  execute_findAmong _ contents.names

end Finding

/-! ## What is verified again -/

section Verifying

variable {libraries : Libraries}
variable {resolver : FetchVerifyCacheResolver libraries}
variable {contents : CacheContents resolver.config.cacheRoot}
variable {failure : Text → FetchError} {process : UInt32}

theorem execute_read (path : Path) (disk : Disk) :
    (invoke (.read path) :
        ResolutionProgram (Except IoError Bytes)).run.execute
        (offline contents failure process) disk =
      (.ok (found (disk.file path)), disk) := by
  show (Except.ok (offline contents failure process (.read path) disk).1,
    (offline contents failure process (.read path) disk).2) = _
  cases present : disk.file path with
  | none => simp [offline, faultless, found, present]
  | some bytes => simp [offline, faultless, found, present]

theorem execute_readToString (path : Path) (disk : Disk) :
    (ExceptT.lift (readToString path) :
        ResolutionProgram (Except IoError Text)).run.execute
        (offline contents failure process) disk =
      (.ok (textOf (found (disk.file path))), disk) := by
  have read :
      (readToString path).execute (offline contents failure process) disk =
        (textOf (found (disk.file path)), disk) :=
    faultless_readToString (unreached failure) process path disk
  rw [execute_run_lift, read]

/-- An entry is verified again exactly when it can be. -/
theorem execute_reverify (cached : CachedBinary) (disk : Disk) :
    ∃ result,
      (resolver.reverify cached).run.execute
          (offline contents failure process) disk = (result, disk) ∧
        (result = .ok () ↔ Verifiable resolver disk cached) := by
  rw [FetchVerifyCacheResolver.reverify,
    execute_run_bind_ok (execute_read cached.path disk)]
  cases present : disk.file cached.path with
  | none => exact ⟨_, rfl, by simp [Verifiable, present]⟩
  | some bytes =>
      simp only [found]
      rw [execute_run_bind_ok (execute_readToString cached.signaturePath disk)]
      cases signed : disk.file cached.signaturePath with
      | none => exact ⟨_, rfl, by simp [Verifiable, signed]⟩
      | some signatureBytes =>
          simp only [found, textOf]
          cases decoded : decode signatureBytes with
          | none => exact ⟨_, rfl, by simp [Verifiable, signed, decoded]⟩
          | some signature =>
              refine ⟨_, rfl, verifyBinary_ok_iff.trans ?_⟩
              simp [Verifiable, present, signed, decoded]

/-- Nothing is fetched. -/
theorem execute_fetchVerifyStore (name : Text) (disk : Disk) :
    ∃ error,
      (resolver.fetchVerifyStore name).run.execute
          (offline contents failure process) disk = (.error error, disk) :=
  ⟨_, rfl⟩

variable {name : Text} {args : List OsText}

/-- The entries which `find` looks for. -/
def front (resolver : FetchVerifyCacheResolver libraries) (name : Text) :
    Text :=
  name ++ "-".toList ++ resolver.config.expectedVersion ++ "-".toList

theorem execute_found :
    (ExceptT.lift (find resolver.config.cacheRoot name
          resolver.config.expectedVersion) :
        ResolutionProgram (Option CachedBinary)).run.execute
        (offline contents failure process) contents.disk =
      (.ok (contents.names.findSome?
          (candidate contents (front resolver name))),
        contents.disk) := by
  rw [execute_run_lift, execute_find]
  rfl

/-- A first candidate which can be verified is resolved. -/
theorem execute_resolve_hit
    {cached : CachedBinary}
    (first : contents.names.findSome?
      (candidate contents (front resolver name)) = some cached)
    (verifiable : Verifiable resolver contents.disk cached) :
    (resolver.resolve { name := .unicode name, args }).run.execute
        (offline contents failure process) contents.disk =
      (.ok cached.path, contents.disk) := by
  rcases @execute_reverify _ resolver contents failure process cached
    contents.disk with ⟨result, reverified, accepted⟩
  cases accepted.mpr verifiable
  have lifted :
      (ExceptT.lift (resolver.reverify cached).run :
          ResolutionProgram (Except ResolutionError Unit)).run.execute
          (offline contents failure process) contents.disk =
        (.ok (.ok ()), contents.disk) := by
    rw [execute_run_lift, reverified]
  rw [FetchVerifyCacheResolver.resolve]
  simp only [OsText.toStr]
  rw [execute_run_bind_ok execute_found, first,
    execute_run_bind_ok lifted]
  rfl

/-- Nothing is resolved when the first candidate cannot be verified. -/
theorem execute_resolve_miss
    (unverifiable : ∀ cached,
      contents.names.findSome? (candidate contents (front resolver name)) =
          some cached →
        ¬ Verifiable resolver contents.disk cached) :
    ∃ error final,
      (resolver.resolve { name := .unicode name, args }).run.execute
          (offline contents failure process) contents.disk =
        (.error error, final) := by
  rw [FetchVerifyCacheResolver.resolve]
  simp only [OsText.toStr]
  rw [execute_run_bind_ok execute_found]
  cases first : contents.names.findSome?
      (candidate contents (front resolver name)) with
  | none =>
      rcases @execute_fetchVerifyStore _ resolver contents failure process name
        contents.disk with ⟨error, failed⟩
      exact ⟨error, _, failed⟩
  | some cached =>
      rcases @execute_reverify _ resolver contents failure process cached
        contents.disk with ⟨result, reverified, accepted⟩
      have lifted :
          (ExceptT.lift (resolver.reverify cached).run :
              ResolutionProgram (Except ResolutionError Unit)).run.execute
              (offline contents failure process) contents.disk =
            (.ok result, contents.disk) := by
        rw [execute_run_lift, reverified]
      simp only
      rw [execute_run_bind_ok lifted]
      cases result with
      | ok _ => exact absurd (accepted.mp rfl) (unverifiable cached first)
      | error reason =>
          have evicted :
              (ExceptT.lift (evict cached) :
                  ResolutionProgram Unit).run.execute
                  (offline contents failure process) contents.disk =
                (.ok (), ((evict cached).execute
                  (offline contents failure process) contents.disk).2) :=
            execute_run_lift _ _ _
          simp only
          rw [execute_run_bind_ok evicted]
          rcases @execute_fetchVerifyStore _ resolver contents failure process
            name _ with ⟨error, failed⟩
          exact ⟨error, _, failed⟩

end Verifying

/-! ## The first candidate -/

section First

variable {libraries : Libraries}
variable {resolver : FetchVerifyCacheResolver libraries}
variable {contents : CacheContents resolver.config.cacheRoot}
variable {name : Text}

/-- What is found among the listed names. -/
theorem candidate_eq_some_iff
    {file : Text} (listed : file ∈ contents.names) (cached : CachedBinary) :
    candidate contents (front resolver name) file = some cached ↔
      ∃ sha256, file = entryName resolver name sha256 ∧
        isSha256Hex sha256 ∧
          contents.present
              (resolver.config.cacheRoot.child (signatureName file)) ∧
            cached = entryAt resolver.config.cacheRoot file sha256 := by
  have plain := contents.plain file listed
  rw [candidate, Option.bind_eq_bind, Option.bind_eq_some_iff,
    join_plain _ plain, join_plain _ (plain_signatureName plain)]
  constructor
  · rintro ⟨sha256, stripped, found⟩
    rcases List.dropPrefix?_eq_some_iff.mp stripped with ⟨start, rfl, same⟩
    rw [Option.ite_none_right_eq_some, Bool.and_eq_true] at found
    rcases found with ⟨⟨hex, signed⟩, ⟨⟩⟩
    refine ⟨sha256, ?_, hex, signed, rfl⟩
    rw [eq_of_beq same]
    rfl
  · rintro ⟨sha256, rfl, hex, signed, rfl⟩
    refine ⟨sha256, ?_, ?_⟩
    · exact List.dropPrefix?_append_of_beq _ (beq_self_eq_true _)
    · rw [if_pos]
      · rfl
      · rw [Bool.and_eq_true]
        exact ⟨hex, signed⟩

/-- What is no candidate is passed over. -/
theorem candidate_eq_none_iff
    {file : Text} (listed : file ∈ contents.names) :
    candidate contents (front resolver name) file = none ↔
      ¬ Candidate resolver contents name file := by
  rw [Option.eq_none_iff_forall_ne_some]
  constructor
  · rintro none ⟨sha256, named, hex, signed⟩
    exact none _ ((candidate_eq_some_iff listed _).mpr
      ⟨sha256, named, hex, signed, rfl⟩)
  · intro notCandidate cached found
    rcases (candidate_eq_some_iff listed cached).mp found with
      ⟨sha256, named, hex, signed, _⟩
    exact notCandidate ⟨sha256, named, hex, signed⟩

/-- An intact entry is a candidate. -/
theorem Intact.candidate
    {sha256 : Text} (intact : Intact resolver contents name sha256) :
    Offline.candidate contents (front resolver name)
        (entryName resolver name sha256) =
      some (entryAt resolver.config.cacheRoot
        (entryName resolver name sha256) sha256) := by
  rcases intact with
    ⟨listed, bytes, signatureBytes, signature, _, digest, signed, _⟩
  simp only [entryAt] at digest signed
  apply (candidate_eq_some_iff listed _).mpr
  refine ⟨sha256, rfl, ?_, ?_, rfl⟩
  · rw [← digest]
    exact isSha256Hex_sha256Hex libraries bytes
  · rw [CacheContents.present, signed]
    rfl

/-- The first candidate is intact exactly when it can be verified. -/
theorem intactFirst_iff :
    IntactFirst resolver contents name ↔
      ∃ cached,
        contents.names.findSome? (candidate contents (front resolver name)) =
            some cached ∧
          Verifiable resolver contents.disk cached := by
  constructor
  · rintro ⟨before, sha256, after, split, intact, passed⟩
    refine ⟨_, List.findSome?_eq_some_iff.mpr
      ⟨before, _, after, split, intact.candidate, ?_⟩, intact.2⟩
    intro file member
    apply (candidate_eq_none_iff _).mpr (passed file member)
    rw [split]
    exact List.mem_append_left _ member
  · rintro ⟨cached, first, verifiable⟩
    rcases List.findSome?_eq_some_iff.mp first with
      ⟨before, file, after, split, found, passed⟩
    have listed : file ∈ contents.names := by
      rw [split]
      exact List.mem_append_right _ List.mem_cons_self
    rcases (candidate_eq_some_iff listed cached).mp found with
      ⟨sha256, rfl, _, _, rfl⟩
    refine ⟨before, sha256, after, split, ⟨listed, verifiable⟩, ?_⟩
    intro other member
    apply (candidate_eq_none_iff _).mp (passed other member)
    rw [split]
    exact List.mem_append_left _ member

/-- What is resolved offline is what the first candidate is. -/
theorem ResolvesOffline.intactFirst
    {failure : Text → FetchError} {process : UInt32} {args : List OsText}
    (resolves : ResolvesOffline resolver contents name failure process args)
    {sha256 : Text} (intact : Intact resolver contents name sha256) :
    IntactFirst resolver contents name := by
  rcases resolves ⟨sha256, intact⟩ with ⟨path, _, _, final, resolved, _⟩
  rw [intactFirst_iff]
  by_contra unverifiable
  push Not at unverifiable
  rcases @execute_resolve_miss _ resolver contents failure process name args
    unverifiable with ⟨error, other, failed⟩
  rw [failed] at resolved
  cases resolved

/--
A command which has an intact entry resolves without the network exactly when
the first of its candidates is intact.
-/
theorem resolves_offline_iff
    (resolver : FetchVerifyCacheResolver libraries)
    (contents : CacheContents resolver.config.cacheRoot) (name : Text)
    (failure : Text → FetchError) (process : UInt32) (args : List OsText) :
    ResolvesOffline resolver contents name failure process args ↔
      ((∃ sha256, Intact resolver contents name sha256) →
        IntactFirst resolver contents name) := by
  constructor
  · rintro resolves ⟨sha256, intact⟩
    exact resolves.intactFirst intact
  · intro first intact
    rcases intactFirst_iff.mp (first intact) with ⟨cached, found, verifiable⟩
    rcases verifiable with
      ⟨bytes, signatureBytes, signature, present, digest, signed, decoded,
        verified⟩
    exact ⟨cached.path, bytes, signature, contents.disk,
      execute_resolve_hit found ⟨bytes, signatureBytes, signature, present,
        digest, signed, decoded, verified⟩, present, verified⟩

end First

/-! ## A poisoned entry before an intact one -/

/-- A cache directory with files only, listed in the order given. -/
def CacheContents.ofFiles (root : Path) (files : List (Text × Bytes))
    (nodup : (files.map Prod.fst).Nodup)
    (plain : ∀ name ∈ files.map Prod.fst, Plain name) :
    CacheContents root where
  disk :=
    { file := fun path =>
        (files.find? fun file => root.child file.1 = path).map Prod.snd
      counter := fun _ => 0 }
  names := files.map Prod.fst
  unreadable _ := false
  nodup
  plain
  complete := by
    intro name _ present
    cases found : files.find? fun file => root.child file.1 = root.child name
      with
    | none => simp [found] at present
    | some file =>
        have same := List.find?_some found
        rw [decide_eq_true_eq] at same
        rw [← (child_injective same).2]
        exact List.mem_map_of_mem (List.mem_of_find?_eq_some found)

/-- The names of an entry of the command under a digest. -/
def smallStem (sha256 : String) : Text :=
  entryName smallResolver "foo".toList sha256.toList

/-- A file which is no binary of the release is listed before one. -/
def poisonedContents : CacheContents smallResolver.config.cacheRoot :=
  .ofFiles smallResolver.config.cacheRoot
    [(smallStem olderSha256, [0]),
      (signatureName (smallStem olderSha256), encode "older".toList),
      (smallStem currentSha256, currentBinary),
      (signatureName (smallStem currentSha256), encode "current".toList)]
    (by decide +kernel) (by decide +kernel)

theorem intact_poisoned :
    Intact smallResolver poisonedContents "foo".toList
      currentSha256.toList := by
  refine ⟨by decide +kernel, currentBinary, encode "current".toList,
    "current".toList, ?_, ?_, ?_, decode_encode _, ?_⟩
  · decide +kernel
  · decide +kernel
  · decide +kernel
  · exact (smallKeys_verifies_iff _ _).mpr (by decide +kernel)

theorem poisoned_fails_offline :
    ¬ ResolvesOffline smallResolver poisonedContents "foo".toList
      (fun _ => .unreachable "offline".toList) 0 [] := by
  intro resolves
  rcases resolves.intactFirst intact_poisoned with
    ⟨before, sha256, after, split, intact, passed⟩
  cases before with
  | nil =>
      have named :
          smallStem olderSha256 =
            entryName smallResolver "foo".toList sha256 :=
        (List.cons.inj split).1
      rcases intact.2 with ⟨bytes, _, _, present, digest, _⟩
      rw [← named] at present
      have poisoned :
          poisonedContents.disk.file
              (smallResolver.config.cacheRoot.child (smallStem olderSha256)) =
            some [0] := by
        decide +kernel
      cases poisoned.symm.trans present
      have other : sha256 = olderSha256.toList :=
        (List.append_cancel_left named).symm
      rw [other] at digest
      exact absurd digest (by decide +kernel)
  | cons first rest =>
      have named : smallStem olderSha256 = first := (List.cons.inj split).1
      apply passed first List.mem_cons_self
      rw [← named]
      exact ⟨olderSha256.toList, rfl, by decide +kernel, by decide +kernel⟩

end Luminosity.Launch.Offline
