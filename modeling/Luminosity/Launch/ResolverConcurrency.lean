import Luminosity.Launch.Deliveries
import Luminosity.Launch.LinkedCache

/-!
# Concurrent resolvers

Any number of resolvers run at once over one volume, whose contents are
arbitrary at first, with any links.  Their calls interleave in any order, every
call may fail, the network answers anything, and a resolver may crash between
any two of its calls.

A resolver gives a file the name of a binary only by a rename from its own
scratch file, after it verified the bytes it wrote there against the digest in
the new name.  As long as no other name of the cache leads to that file,
whatever carries the name of a binary was there from the beginning, or is
genuine.  An entry which was there is returned only after it verified again.

But a scratch file has a name which can be known before, and a link of this
name is followed.
-/

namespace Luminosity.Launch.ResolverConcurrency

open Relation
open Luminosity.Foundation.TextSegments
open Luminosity.Foundation.EffectPrograms
open Luminosity.Foundation.Interleaving
open Luminosity.Foundation.Chains
open Luminosity.Host.Paths
open Luminosity.Host.Calls
open Luminosity.Host.Volumes
open Luminosity.Launch.Core
open Luminosity.Launch.Verifier
open Luminosity.Launch.Cache
open Luminosity.Launch.LinkedCache
open Luminosity.Launch.Resolver
open Luminosity.Launch.Deliveries
open Luminosity.Launch.Resolver.FetchVerifyCacheResolver

variable {libraries : Libraries} (keys : TrustedKeys libraries)

/-! ## Genuine binaries -/

/-- The file name ends with the digest of the bytes, and they are signed. -/
def Genuine (path : Path) (bytes : Bytes) : Prop :=
  Ends path (sha256Hex libraries bytes) ∧
    ∃ signature, keys.verifies bytes signature = true

/-- What passes the checks under the digest of its entry is genuine. -/
theorem genuine_of_verified
    {keys : TrustedKeys libraries} {root : Path} {name version : Text}
    {cached : CachedBinary} (entry : EntryOf root name version cached)
    {bytes : Bytes} {signature : Text}
    (digest : sha256Hex libraries bytes = cached.sha256)
    (verified : keys.verifies bytes signature = true) :
    Genuine keys cached.path bytes := by
  refine ⟨?_, signature, verified⟩
  rw [digest]
  exact entry.ends

/-- The file is absent or genuine. -/
def Settled (path : Path) (volume : Volume) : Prop :=
  ∀ bytes, volume.Holds path bytes → Genuine keys path bytes

/-- The file is absent, as it was read, or genuine. -/
def SettledFrom (read : Bytes) (path : Path) (volume : Volume) : Prop :=
  ∀ bytes, volume.Holds path bytes →
    bytes = read ∨ Genuine keys path bytes

/-! ## The rules of one process -/

/-- What has the name of a binary held it before, or is genuine. -/
def KeepsBinaries (before after : Volume) : Prop :=
  ∀ path bytes, BinaryNamed path → after.Holds path bytes →
    before.Holds path bytes ∨ Genuine keys path bytes

def rules (unique : UInt32) : Rules Volume where
  invariant _ := True
  rely before after :=
    KeepsBinaries keys before after ∧ Leaves unique before after
  guarantee before after :=
    KeepsBinaries keys before after ∧
      ∀ other, other ≠ unique → Leaves other before after

variable {keys} {unique : UInt32}

theorem KeepsBinaries.settled
    {before after : Volume} {path : Path}
    (keeps : KeepsBinaries keys before after) (named : BinaryNamed path)
    (settled : Settled keys path before) :
    Settled keys path after := by
  intro bytes holds
  rcases keeps path bytes named holds with earlier | genuine
  · exact settled bytes earlier
  · exact genuine

theorem stable_settled {path : Path} (named : BinaryNamed path) :
    (rules keys unique).Stable (Settled keys path) := by
  intro before after _ _ moves settled
  exact moves.1.settled named settled

theorem stable_settledFrom
    {path : Path} (named : BinaryNamed path) (read : Bytes) :
    (rules keys unique).Stable (SettledFrom keys read path) := by
  intro before after _ _ moves settled bytes holds
  rcases moves.1 path bytes named holds with earlier | genuine
  · exact settled bytes earlier
  · exact Or.inr genuine

theorem stable_writes
    {path : Path} (scratch : ScratchOf unique path) (bytes : Bytes) :
    (rules keys unique).Stable (Writes CacheNamed unique path bytes) := by
  intro before after _ _ moves writes
  exact moves.2.writes scratch writes

/-! ## The calls of one process -/

theorem guarantee_refl (volume : Volume) :
    (rules keys unique).guarantee volume volume :=
  ⟨fun _ _ _ holds => Or.inl holds, fun other _ => leaves_refl other volume⟩

variable {surroundings : Surroundings} {before after : Volume}

/-- Opening a scratch file which shares nothing with other names. -/
theorem guarantee_opens
    {temp last : Path} (scratch : ScratchOf unique temp)
    (spares : Careful (.create temp) before) {inode : Nat}
    (arrives : Arrives before.target temp last)
    (opens : before.Opens unique last inode after) :
    (rules keys unique).guarantee before after := by
  constructor
  · intro path bytes named holds
    have different : path ≠ temp := by
      rintro rfl
      exact named.not_scratchOf unique scratch
    exact Or.inl (opens.holds_of_not_meets arrives
      (spares path (Or.inl named) different) holds)
  · intro other different
    apply leaves_opens different _ spares arrives opens
    intro others
    exact different (others.unique scratch)

/-- Writing to it. -/
theorem guarantee_write
    {temp : Path} (scratch : ScratchOf unique temp) {inode position : Nat}
    (sole : Sole CacheNamed before temp inode) {bytes : Bytes}
    (isFile : before.node inode = .file bytes) (byte : UInt8) :
    (rules keys unique).guarantee before
      (before.write unique inode position bytes byte) := by
  constructor
  · intro path held named holds
    apply Or.inl (Volume.holds_of_write isFile _ holds)
    intro finds
    have same := sole.only path (Or.inl named) finds
    exact named.not_scratchOf unique (same ▸ scratch)
  · intro other different
    apply leaves_write different isFile
    intro path named finds others
    rw [sole.only path named finds] at others
    exact different (others.unique scratch)

/-- Removing a file of the cache, if it is no scratch file of another. -/
theorem guarantee_remove
    {path : Path} (named : CacheNamed path)
    (own : ∀ other, other ≠ unique → ¬ ScratchOf other path) :
    (rules keys unique).guarantee before (before.remove path) := by
  constructor
  · intro other bytes _ holds
    exact Or.inl (Volume.holds_of_remove holds)
  · intro other different
    apply leaves_remove
    intro scratch inode isScratch sole
    apply sole.avoids named
    rintro rfl
    exact own other different isScratch

/-- Looking around and removing what is no scratch file. -/
theorem guarantee_tidies
    {call : Call} (tidies : Tidies call) {answer : call.Answer}
    (step : careful surroundings unique call before answer after) :
    (rules keys unique).guarantee before after := by
  rcases tidies.reads_or_removes with reads | ⟨path, rfl, named⟩
  · rw [linked_reads reads step.1]
    exact guarantee_refl before
  · cases linked_effect step.1 with
    | idle call => exact guarantee_refl before
    | removeFile path =>
        apply guarantee_remove
        · exact named.imp_right Or.inl
        · intro other _ scratch
          rcases named with binary | signature
          · exact binary.not_scratchOf other scratch
          · exact signature.not_scratchOf other scratch

/-! ## The operations of one process -/

/-- Nothing is known of the volume. -/
abbrev Anything : Volume → Prop := fun _ => True

theorem abides_calm
    {α : Type} {program : HostProgram α} {allowed : Call → Prop}
    (asks : Asks allowed program)
    (calm : ∀ call before answer after, allowed call →
      careful surroundings unique call before answer after → after = before)
    {assertion : Volume → Prop}
    (stable : (rules keys unique).Stable assertion) :
    Abides (careful surroundings unique) (rules keys unique)
      assertion program fun _ => assertion := by
  apply Abides.frame asks stable
  intro call before answer after permitted _ holds step
  rw [calm call before answer after permitted step]
  exact ⟨guarantee_refl before, fun _ => holds⟩

theorem abides_reads
    {α : Type} {program : HostProgram α} (asks : Asks Call.Reads program)
    {assertion : Volume → Prop}
    (stable : (rules keys unique).Stable assertion) :
    Abides (careful surroundings unique) (rules keys unique)
      assertion program fun _ => assertion :=
  abides_calm asks (fun _ _ _ _ reads step => linked_reads reads step.1)
    stable

theorem abides_reads_except
    {ε α : Type} {computation : HostExcept ε α}
    (asks : Asks Call.Reads computation.run) :
    Abides (careful surroundings unique) (rules keys unique)
      Anything computation.run
      (onOk (fun _ => Anything) fun _ => Anything) := by
  apply (abides_reads asks (Rules.Stable.const True)).weaken
  · exact fun _ _ _ => trivial
  · intro result _ _ _
    cases result <;> trivial

/-- Tidying keeps what every step of a resolver keeps. -/
theorem abides_tidies
    {α : Type} {program : HostProgram α} (asks : Asks Tidies program)
    {assertion : Volume → Prop}
    (stable : (rules keys unique).Stable assertion)
    (kept : ∀ before after, (rules keys unique).guarantee before after →
      assertion before → assertion after) :
    Abides (careful surroundings unique) (rules keys unique)
      assertion program fun _ => assertion := by
  apply Abides.frame asks stable
  intro call before answer after tidies _ holds step
  have guaranteed : (rules keys unique).guarantee before after :=
    guarantee_tidies tidies step
  exact ⟨guaranteed, fun _ => kept before after guaranteed holds⟩

/-- The scratch file is written, or writing it failed. -/
theorem abides_writeFile_scratch
    {temp : Path} (scratch : ScratchOf unique temp) (bytes : Bytes) :
    Abides (careful surroundings unique) (rules keys unique)
      Anything (writeFile temp bytes)
      (onOk (fun _ => Writes CacheNamed unique temp bytes)
        fun _ => Anything) := by
  apply @abides_writeFile _ _ _ temp Anything (Writes CacheNamed unique temp)
    fun _ => Anything
  · exact Rules.Stable.const True
  · exact stable_writes scratch
  · intro error
    exact Rules.Stable.const True
  · rintro before answer after _ _ ⟨step, spares⟩
    cases answer with
    | error error =>
        cases step
        exact ⟨guarantee_refl _, fun _ => trivial⟩
    | ok _ =>
        rcases step with ⟨last, inode, arrives, opens⟩
        exact ⟨guarantee_opens scratch spares arrives opens,
          fun _ => writes_opens spares arrives opens⟩
  · rintro written byte before answer after _ writes ⟨step, _⟩
    cases answer with
    | error error =>
        cases step
        exact ⟨guarantee_refl _, fun _ => trivial⟩
    | ok _ =>
        rcases step with ⟨inode, position, held, opened, isFile, rfl⟩
        exact ⟨guarantee_write scratch (writes.sole opened) isFile byte,
          fun _ => writes.write opened isFile⟩

/-- What a scratch file may be renamed to. -/
def MayName (keys : TrustedKeys libraries) (bytes : Bytes) (target : Path) :
    Prop :=
  SignatureNamed target ∨ BinaryNamed target ∧ Genuine keys target bytes

theorem MayName.cacheNamed
    {bytes : Bytes} {target : Path} (mayName : MayName keys bytes target) :
    CacheNamed target := by
  rcases mayName with signature | ⟨binary, _⟩
  · exact .inr (.inl signature)
  · exact .inl binary

theorem MayName.not_scratchOf
    {bytes : Bytes} {target : Path} (mayName : MayName keys bytes target)
    (other : UInt32) :
    ¬ ScratchOf other target := by
  rcases mayName with signature | ⟨binary, _⟩
  · exact signature.not_scratchOf other
  · exact binary.not_scratchOf other

theorem MayName.genuine
    {bytes : Bytes} {target : Path} (mayName : MayName keys bytes target)
    (binary : BinaryNamed target) :
    Genuine keys target bytes := by
  rcases mayName with signature | ⟨_, genuine⟩
  · exact absurd signature binary.not_signatureNamed
  · exact genuine

section Renaming

variable {temp target : Path} {bytes : Bytes}
variable (scratch : ScratchOf unique temp)
variable (mayName : MayName keys bytes target)

include scratch mayName

theorem ne_of_mayName : temp ≠ target := by
  rintro rfl
  exact mayName.not_scratchOf unique scratch

/-- The file which was written is what its new name holds. -/
theorem holds_renamed
    (writes : Writes CacheNamed unique temp bytes before) {named : Nat}
    (present : before.entry temp = some named) {held : Bytes}
    (holds : (before.rename temp target named).Holds target held) :
    held = bytes := by
  rcases writes with ⟨inode, sole, _, isFile⟩
  rcases holds with ⟨found, finds, isHeld⟩
  have moved :
      (before.rename temp target named).Finds target inode :=
    Volume.finds_rename_target present
      (sole.avoids mayName.cacheNamed
        (Ne.symm (ne_of_mayName scratch mayName)))
      sole.finds
  rw [Volume.rename_node, finds.unique moved, isFile] at isHeld
  exact (Node.file.inj isHeld).symm

theorem guarantee_rename
    (spares : Careful (.rename temp target) before)
    (writes : Writes CacheNamed unique temp bytes before) {named : Nat}
    (present : before.entry temp = some named) :
    (rules keys unique).guarantee before
      (before.rename temp target named) := by
  have distinct := ne_of_mayName scratch mayName
  constructor
  · intro path held binary holds
    by_cases isTarget : path = target
    · subst isTarget
      rw [holds_renamed scratch mayName writes present holds]
      exact Or.inr (mayName.genuine binary)
    · exact Or.inl (Volume.holds_of_rename distinct
        (spares trivial path binary isTarget) holds)
  · intro other different
    rcases writes with ⟨inode, sole, _, _⟩
    exact leaves_rename sole scratch different mayName.cacheNamed
      (mayName.not_scratchOf other) distinct present

end Renaming

theorem abides_setExecutable
    {temp : Path} {assertion : Volume → Prop}
    (stable : (rules keys unique).Stable assertion) :
    Abides (careful surroundings unique) (rules keys unique)
      assertion (setExecutable temp).run
      (onOk (fun _ => assertion) fun _ => Anything) := by
  have marked :
      Abides (careful surroundings unique) (rules keys unique)
        assertion
        (invoke (.setPermissions temp 0o755) :
          ResolutionProgram (Except IoError Unit)).run
        (onOk (fun _ => assertion) fun _ => Anything) := by
    apply Abides.run_call stable
    · intro answer
      exact stable
    · rintro before answer after _ holds ⟨step, _⟩
      cases step
      exact ⟨guarantee_refl _, fun _ => holds⟩
  apply Abides.run_bind marked
  intro answer
  cases answer with
  | ok _ => exact Abides.run_pure stable fun _ _ holds => holds
  | error error =>
      exact Abides.run_throw (Rules.Stable.const True) fun _ _ _ => trivial

/-- A binary which is renamed into place is settled. -/
theorem abides_rename
    {temp target : Path} {bytes : Bytes}
    (scratch : ScratchOf unique temp) (mayName : MayName keys bytes target) :
    Abides (careful surroundings unique) (rules keys unique)
      (Writes CacheNamed unique temp bytes)
      (invoke (.rename temp target) :
        ResolutionProgram (Except IoError Unit)).run
      (onOk
        (onOk
          (fun _ volume => BinaryNamed target → Settled keys target volume)
          fun _ => Anything)
        fun _ => Anything) := by
  apply Abides.run_call (stable_writes scratch bytes)
  · intro answer
    cases answer with
    | ok _ => exact Rules.Stable.imp stable_settled
    | error error => exact Rules.Stable.const True
  · rintro before answer after _ writes ⟨step, spares⟩
    cases answer with
    | error error =>
        cases step
        exact ⟨guarantee_refl _, fun _ => trivial⟩
    | ok _ =>
        rcases step with ⟨named, present, _, _, rfl⟩
        apply And.intro (guarantee_rename scratch mayName spares writes present)
        intro _ binary held holds
        rw [holds_renamed scratch mayName writes present holds]
        exact mayName.genuine binary

theorem guarantee_removeScratch
    {temp : Path} (scratch : ScratchOf unique temp)
    {answer : Except IoError Unit}
    (step : linked surroundings unique (.removeFile temp) before answer
      after) :
    (rules keys unique).guarantee before after := by
  cases linked_effect step with
  | idle call => exact guarantee_refl before
  | removeFile path =>
      apply guarantee_remove (cacheNamed_scratch scratch)
      intro other different others
      exact different (others.unique scratch)

theorem abides_removeScratch
    {temp : Path} (scratch : ScratchOf unique temp) :
    Abides (careful surroundings unique) (rules keys unique)
      Anything
      (invoke (.removeFile temp) :
        ResolutionProgram (Except IoError Unit)).run
      (onOk (fun _ => Anything) fun _ => Anything) := by
  apply Abides.run_call (Rules.Stable.const True)
  · intro answer
    exact Rules.Stable.const True
  · rintro before answer after _ _ ⟨step, _⟩
    exact ⟨guarantee_removeScratch scratch step, fun _ => trivial⟩

/-- A binary which was written and renamed into place is settled. -/
theorem abides_writeThenRename
    {temp target : Path} {bytes : Bytes} (executable : Bool)
    (scratch : ScratchOf unique temp) (mayName : MayName keys bytes target) :
    Abides (careful surroundings unique) (rules keys unique)
      Anything (writeThenRename temp target bytes executable).run
      (onOk
        (fun _ volume => BinaryNamed target → Settled keys target volume)
        fun _ => Anything) := by
  have staged := @stable_writes _ keys unique temp scratch bytes
  have anything : (rules keys unique).Stable Anything :=
    Rules.Stable.const True
  rw [writeThenRename]
  apply Abides.run_bind
    (Abides.run_lift (abides_writeFile_scratch scratch bytes))
  intro written
  cases written with
  | error error => exact Abides.run_throw anything fun _ _ _ => trivial
  | ok _ =>
      have marked :
          Abides (careful surroundings unique) (rules keys unique)
            (Writes CacheNamed unique temp bytes)
            (if executable then setExecutable temp else pure ()).run
            (onOk (fun _ => Writes CacheNamed unique temp bytes)
              fun _ => Anything) := by
        cases executable with
        | false => exact Abides.run_pure staged fun _ _ holds => holds
        | true => exact abides_setExecutable staged
      apply Abides.run_bind marked
      intro _
      apply Abides.run_bind (abides_rename scratch mayName)
      intro answer
      cases answer with
      | ok _ =>
          apply Abides.run_pure
          · exact Rules.Stable.imp stable_settled
          · exact fun _ _ holds => holds
      | error error =>
          apply Abides.run_bind (abides_removeScratch scratch)
          intro _
          exact Abides.run_throw anything fun _ _ _ => trivial

/-- What is known of the path a resolver computes. -/
def Outcome (keys : TrustedKeys libraries) :
    Except ResolutionError Path → Volume → Prop :=
  onOk (fun path volume => BinaryNamed path ∧ Settled keys path volume)
    fun _ => Anything

theorem stable_named_settled (path : Path) :
    (rules keys unique).Stable fun volume =>
      BinaryNamed path ∧ Settled keys path volume := by
  intro before after first last moves holds
  exact ⟨holds.1,
    stable_settled holds.1 before after first last moves holds.2⟩

/-- The process learns its own number. -/
theorem abides_processId :
    Abides (careful surroundings unique) (rules keys unique)
      Anything (invoke .processId : ResolutionProgram UInt32).run
      (onOk (fun answer _ => answer = unique) fun _ => Anything) := by
  apply Abides.run_call (Rules.Stable.const True)
  · intro answer
    exact Rules.Stable.const _
  · rintro before answer after _ _ ⟨⟨rfl, answered⟩, _⟩
    exact ⟨guarantee_refl _, fun _ => answered⟩

/-- A genuine binary is settled once it is renamed to its entry. -/
theorem abides_storeBinary
    {root : Path} {stem : Text} {bytes : Bytes}
    (binary : BinaryNamed (root.join stem))
    (genuine : Genuine keys (root.join stem) bytes) :
    Abides (careful surroundings unique) (rules keys unique) Anything
      (writeThenRename (root.join (tempName stem unique)) (root.join stem)
        bytes true).run
      (onOk (fun _ => Settled keys (root.join stem)) fun _ => Anything) := by
  have renamed :=
    @abides_writeThenRename _ keys unique surroundings _ _ bytes true
      (scratchOf_tempName root stem unique) (Or.inr ⟨binary, genuine⟩)
  apply renamed.weaken
  · exact fun _ _ _ => trivial
  · intro result volume _ holds
    cases result with
    | ok _ => exact holds binary
    | error error => trivial

/-- Writing the signature keeps the binary settled. -/
theorem abides_storeSignature
    {root : Path} {stem signature : Text}
    (binary : BinaryNamed (root.join stem))
    (signed : SignatureNamed (root.join (signatureName stem))) :
    Abides (careful surroundings unique) (rules keys unique)
      (Settled keys (root.join stem))
      (writeThenRename (root.join (tempSignatureName stem unique))
        (root.join (signatureName stem)) (encode signature) false).run
      (onOk (fun _ => Settled keys (root.join stem)) fun _ => Anything) := by
  have renamed :=
    @abides_writeThenRename _ keys unique surroundings _ _
      (encode signature) false (scratchOf_tempSignatureName root stem unique)
      (Or.inl signed)
  have kept :=
    renamed.keep (stable_settled binary) fun _ _ guarantee settled =>
      guarantee.1.settled binary settled
  apply kept.weaken
  · intro volume _ settled
    exact ⟨trivial, settled⟩
  · intro result volume _ holds
    cases result with
    | ok _ => exact holds.2
    | error error => trivial

/-- A verified binary is stored under its own digest. -/
theorem abides_store
    {root : Path} {name version sha256 signature : Text} {bytes : Bytes}
    (digest : sha256Hex libraries bytes = sha256)
    (verified : keys.verifies bytes signature = true) :
    Abides (careful surroundings unique) (rules keys unique)
      Anything (store root name version sha256 bytes signature).run
      (onOk
        (fun cached volume =>
          BinaryNamed cached.path ∧ Settled keys cached.path volume)
        fun _ => Anything) := by
  have anything : (rules keys unique).Stable Anything :=
    Rules.Stable.const True
  have hex : isSha256Hex sha256 = true := by
    rw [← digest]
    exact isSha256Hex_sha256Hex libraries bytes
  have entry := @EntryOf.of_digest root name version sha256 hex
  have binary := entry.binaryNamed
  have genuine := genuine_of_verified entry digest verified
  have made :
      Abides (careful surroundings unique) (rules keys unique) Anything
        (createDirAll root) fun _ => Anything :=
    abides_calm (asks_createDirAll root)
      (fun _ _ _ _ scaffolds step => linked_scaffolds scaffolds step.1)
      anything
  rw [store]
  apply Abides.run_bind (Abides.run_lift made)
  intro created
  cases created with
  | error error => exact Abides.run_throw anything fun _ _ _ => trivial
  | ok _ =>
      apply Abides.run_bind abides_processId
      intro answer
      apply Abides.assume
      rintro rfl
      apply Abides.run_bind (abides_storeBinary binary genuine)
      intro _
      apply Abides.run_bind
        (abides_storeSignature binary entry.signatureNamed)
      intro _
      apply Abides.run_pure
      · exact stable_named_settled _
      · intro volume _ settled
        exact ⟨binary, settled⟩

/-- What verifies again is settled. -/
theorem abides_reverify
    (resolver : FetchVerifyCacheResolver libraries)
    {root : Path} {name version : Text} {cached : CachedBinary}
    (entry : EntryOf root name version cached) :
    Abides (careful surroundings unique) (rules resolver.keys unique)
      Anything (resolver.reverify cached).run
      (onOk (fun _ => Settled resolver.keys cached.path)
        fun _ => Anything) := by
  have anything : (rules resolver.keys unique).Stable Anything :=
    Rules.Stable.const True
  have read :
      Abides (careful surroundings unique) (rules resolver.keys unique)
        Anything
        (invoke (.read cached.path) :
          ResolutionProgram (Except IoError Bytes)).run
        (onOk
          (onOk
            (fun bytes => SettledFrom resolver.keys bytes cached.path)
            fun _ => Anything)
          fun _ => Anything) := by
    apply Abides.run_call anything
    · intro answer
      cases answer with
      | ok bytes => exact stable_settledFrom entry.binaryNamed bytes
      | error error => exact anything
    · rintro before answer after _ _ ⟨⟨rfl, answered⟩, _⟩
      apply And.intro (guarantee_refl _)
      intro _
      cases answer with
      | error error => trivial
      | ok bytes =>
          intro found present
          exact Or.inl (present.unique answered)
  rw [reverify]
  apply Abides.run_bind read
  intro answer
  cases answer with
  | error error => exact Abides.run_throw anything fun _ _ _ => trivial
  | ok bytes =>
      have signed :
          Abides (careful surroundings unique) (rules resolver.keys unique)
            (SettledFrom resolver.keys bytes cached.path)
            (readToString cached.signaturePath)
            fun _ => SettledFrom resolver.keys bytes cached.path :=
        abides_reads (asks_readToString trivial)
          (stable_settledFrom entry.binaryNamed bytes)
      apply Abides.run_bind (Abides.run_lift signed)
      intro text
      cases text with
      | error error => exact Abides.run_throw anything fun _ _ _ => trivial
      | ok signature =>
          apply Abides.run_except
          · cases checked : verifyBinary (fileName cached.path) bytes
                cached.sha256 signature resolver.keys with
            | ok _ => exact stable_settled entry.binaryNamed
            | error error => exact anything
          · intro volume _ settled
            cases checked : verifyBinary (fileName cached.path) bytes
                cached.sha256 signature resolver.keys with
            | error error => trivial
            | ok _ =>
                intro found present
                rcases settled found present with rfl | genuine
                · have passed := verifyBinary_ok_iff.mp checked
                  exact genuine_of_verified entry passed.1 passed.2
                · exact genuine

theorem abides_fetchVerifyStore
    (resolver : FetchVerifyCacheResolver libraries) (name : Text) :
    Abides (careful surroundings unique) (rules resolver.keys unique)
      Anything (resolver.fetchVerifyStore name).run
      (Outcome resolver.keys) := by
  have anything : (rules resolver.keys unique).Stable Anything :=
    Rules.Stable.const True
  rw [fetchVerifyStore]
  apply Abides.run_bind (abides_reads_except resolver.asks_loadManifest)
  intro manifest
  cases manifest.platformEntry name resolver.config.platform with
  | none => exact Abides.run_throw anything fun _ _ _ => trivial
  | some entry =>
      apply Abides.run_bind (abides_reads_except (asks_fetch _ _ _))
      intro bytes
      have checked :
          Abides (careful surroundings unique) (rules resolver.keys unique)
            Anything
            (monadLift (verifyBinary (resolver.assetName name) bytes
              entry.sha256 entry.signature resolver.keys) :
                ResolutionProgram Unit).run
            (onOk
              (fun _ _ =>
                sha256Hex libraries bytes = entry.sha256 ∧
                  resolver.keys.verifies bytes entry.signature = true)
              fun _ => Anything) := by
        apply Abides.run_except
        · cases verifyBinary (resolver.assetName name) bytes entry.sha256
              entry.signature resolver.keys with
          | ok _ => exact Rules.Stable.const _
          | error error => exact anything
        · intro volume _ _
          cases passed : verifyBinary (resolver.assetName name) bytes
              entry.sha256 entry.signature resolver.keys with
          | ok _ => exact verifyBinary_ok_iff.mp passed
          | error error => trivial
      apply Abides.run_bind checked
      intro _
      apply Abides.assume
      intro passed
      apply Abides.run_bind (abides_store passed.1 passed.2)
      intro cached
      have tidied :
          Abides (careful surroundings unique) (rules resolver.keys unique)
            (fun volume =>
              BinaryNamed cached.path ∧
                Settled resolver.keys cached.path volume)
            (enforceRetentionCap resolver.config.cacheRoot name
              resolver.config.retainedVersions)
            fun _ volume =>
              BinaryNamed cached.path ∧
                Settled resolver.keys cached.path volume := by
        apply abides_tidies (asks_enforceRetentionCap _)
        · exact stable_named_settled _
        · intro before after guaranteed holds
          exact ⟨holds.1, guaranteed.1.settled holds.1 holds.2⟩
      apply Abides.run_bind (Abides.run_lift tidied)
      intro _
      exact Abides.run_pure (stable_named_settled _) fun _ _ holds => holds

/-- Resolving keeps the rules, and computes a settled path. -/
theorem abides_resolve
    (resolver : FetchVerifyCacheResolver libraries)
    (command : ExternalCommand) :
    Abides (careful surroundings unique) (rules resolver.keys unique)
      Anything (resolver.resolve command).run
      (Outcome resolver.keys) := by
  have anything : (rules resolver.keys unique).Stable Anything :=
    Rules.Stable.const True
  rw [resolve]
  split
  · exact Abides.run_throw anything fun _ _ _ => trivial
  · rename_i name _
    have found :
        Abides (careful surroundings unique) (rules resolver.keys unique)
          Anything
          (find resolver.config.cacheRoot name
            resolver.config.expectedVersion)
          fun found _ => ∀ cached, found = some cached →
            EntryOf resolver.config.cacheRoot name
              resolver.config.expectedVersion cached := by
      apply ((abides_reads asks_find anything).returning returns_find).weaken
      · exact fun _ _ _ => trivial
      · exact fun _ _ _ holds => holds.1
    apply Abides.run_bind (Abides.run_lift found)
    intro result
    apply Abides.assume
    intro entries
    cases result with
    | none => exact abides_fetchVerifyStore resolver name
    | some cached =>
        have entry := entries cached rfl
        apply Abides.run_bind (Abides.run_lift (abides_reverify resolver entry))
        intro verified
        cases verified with
        | ok _ =>
            apply Abides.run_pure
            · exact stable_named_settled cached.path
            · intro volume _ settled
              exact ⟨entry.binaryNamed, settled⟩
        | error error =>
            have evicted :
                Abides (careful surroundings unique)
                  (rules resolver.keys unique) Anything (evict cached)
                  fun _ => Anything :=
              abides_tidies (asks_evict entry) anything
                fun _ _ _ _ => trivial
            apply Abides.run_bind (Abides.run_lift evicted)
            intro _
            exact abides_fetchVerifyStore resolver name

/-! ## All resolvers together -/

/-- Resolvers in different processes, and the volume they start from. -/
structure Resolvers (ι : Type) (libraries : Libraries) where
  keys : TrustedKeys libraries
  config : ι → ResolverConfig
  command : ι → ExternalCommand
  process : ι → UInt32
  distinct : Function.Injective process
  surroundings : Surroundings
  initial : Volume

namespace Resolvers

variable {ι : Type} (resolvers : Resolvers ι libraries)

/-- The program of one resolver. -/
def program (actor : ι) : HostProgram (Except ResolutionError Path) :=
  (FetchVerifyCacheResolver.resolve
    { config := resolvers.config actor, keys := resolvers.keys }
    (resolvers.command actor)).run

abbrev calls : ι → Semantics host Volume :=
  fun actor => linked resolvers.surroundings (resolvers.process actor)

/-- The calls which spare all other names of the cache. -/
abbrev carefulCalls : ι → Semantics host Volume :=
  fun actor => careful resolvers.surroundings (resolvers.process actor)

/-- All resolvers before their first call. -/
def start : Machine host ι Volume (Except ResolutionError Path) where
  state := resolvers.initial
  thread actor := some (resolvers.program actor)

theorem compatible :
    Compatible resolvers.carefulCalls
      (fun actor => rules resolvers.keys (resolvers.process actor))
      Anything where
  shared _ := rfl
  preserved _ _ _ _ _ _ _ _ := trivial
  tolerated actor other before after different _ _ guaranteed := by
    apply And.intro guaranteed.1
    apply guaranteed.2
    intro same
    exact different (resolvers.distinct same)

theorem verified_start :
    Verified resolvers.carefulCalls
      (fun actor => rules resolvers.keys (resolvers.process actor))
      Anything (fun _ => Outcome resolvers.keys) resolvers.start := by
  apply And.intro trivial
  rintro actor _ ⟨⟩
  exact abides_resolve
    { config := resolvers.config actor, keys := resolvers.keys }
    (resolvers.command actor) resolvers.initial trivial trivial

end Resolvers

/--
The name of the file ends with a digest; the file is absent, or has this digest
and is signed under a trusted key.
-/
def IsVerified (keys : TrustedKeys libraries) (path : Path)
    (volume : Volume) : Prop :=
  ∃ start sha256,
    path.fileName = some (start ++ '-' :: sha256) ∧
      isSha256Hex sha256 = true ∧
        ∀ bytes, volume.Holds path bytes →
          sha256Hex libraries bytes = sha256 ∧
            ∃ signature, keys.verifies bytes signature = true

theorem isVerified_of_settled
    {path : Path} {volume : Volume} (named : BinaryNamed path)
    (settled : Settled keys path volume) :
    IsVerified keys path volume := by
  rcases named with ⟨sha256, hex, undashed, start, named⟩
  refine ⟨start, sha256, named, hex, ?_⟩
  intro bytes holds
  rcases settled bytes holds with ⟨digestEnds, signed⟩
  exact ⟨digestEnds.unique ⟨undashed, start, named⟩, signed⟩

/--
In a run whose steps spare all other names of the cache: from the moment a
resolver returns a path, and however the others go on, the file is absent or
has the digest its name ends with and is signed under a trusted key.
-/
theorem resolved_stays_verified [DecidableEq ι]
    (resolvers : Resolvers ι libraries)
    {returned later : Machine host ι Volume (Except ResolutionError Path)}
    (reaches : Reaches resolvers.carefulCalls resolvers.start returned)
    {actor : ι} {path : Path}
    (resolved : returned.thread actor = some (.done (.ok path)))
    (further : Reaches resolvers.carefulCalls returned later) :
    IsVerified resolvers.keys path later.state := by
  have still : later.thread actor = some (.done (.ok path)) :=
    further.returned resolved
  have whole : Reaches resolvers.carefulCalls resolvers.start later :=
    reaches.trans further
  have verified := whole.verified resolvers.compatible resolvers.verified_start
  rcases verified.returned resolvers.compatible still with ⟨named, settled⟩
  exact isVerified_of_settled named settled

/-! ## Two launchers of one command -/

/-- What a listing of the cache shows: an entry of the command, or nothing. -/
def smallSurroundings : Surroundings where
  network := Published
  listing _ _ entries :=
    entries = [.ok (.unicode (stem "foo".toList "2.0.0".toList
      (sha256Hex smallLibraries currentBinary)))]

/-- The name of the scratch file under which a process stores the binary. -/
def plantedPath (unique : UInt32) : Path :=
  smallResolver.config.cacheRoot.join
    (tempName (stem "foo".toList "2.0.0".toList currentEntry.sha256) unique)

def plantedEntry (unique : UInt32) (path : Path) : Option Nat :=
  if path = (smallEntry currentBinary).path then
    some 0
  else if path = (smallEntry currentBinary).signaturePath then
    some 1
  else if path = plantedPath unique then
    some 2
  else
    none

theorem plantedEntry_lt (unique : UInt32) (path : Path) (inode : Nat)
    (present : plantedEntry unique path = some inode) : inode < 3 := by
  rw [plantedEntry] at present
  split_ifs at present <;> cases present <;> decide

/-- The entry of the command, and a link of a scratch file's name to it. -/
def plantedVolume (unique : UInt32) : Volume where
  entry := plantedEntry unique
  node
    | 0 => .file currentBinary
    | 1 => .file (encode "current".toList)
    | _ => .link (smallEntry currentBinary).path
  opened _ := none
  counter _ := 0
  roomy := roomy_of_lt (plantedEntry_lt unique)

section Planted

variable {unique : UInt32}

theorem planted_binary :
    (plantedVolume unique).entry (smallEntry currentBinary).path =
      some 0 := by
  simp only [plantedVolume, plantedEntry, if_true]

theorem planted_signature :
    (plantedVolume unique).entry (smallEntry currentBinary).signaturePath =
      some 1 := by
  have different :
      (smallEntry currentBinary).signaturePath ≠
        (smallEntry currentBinary).path := by
    intro equal
    have entry := smallEntry_of currentBinary
    exact entry.binaryNamed.not_signatureNamed
      (equal ▸ entry.signatureNamed)
  simp only [plantedVolume, plantedEntry, if_neg different, if_true]

theorem planted_link :
    (plantedVolume unique).entry (plantedPath unique) = some 2 := by
  have scratch : ScratchOf unique (plantedPath unique) :=
    scratchOf_tempName _ _ _
  have entry := smallEntry_of currentBinary
  have notBinary :
      plantedPath unique ≠ (smallEntry currentBinary).path := by
    intro equal
    exact entry.binaryNamed.not_scratchOf unique (equal ▸ scratch)
  have notSignature :
      plantedPath unique ≠ (smallEntry currentBinary).signaturePath := by
    intro equal
    exact entry.signatureNamed.not_scratchOf unique (equal ▸ scratch)
  simp only [plantedVolume, plantedEntry, if_neg notBinary,
    if_neg notSignature, if_true]

theorem planted_arrives :
    Arrives (plantedVolume unique).target (smallEntry currentBinary).path
      (smallEntry currentBinary).path :=
  arrives_self (Volume.target_eq_none_of_file planted_binary rfl)

/-- Opening the scratch file opens the binary. -/
theorem planted_opens :
    linked smallSurroundings unique (.create (plantedPath unique))
      (plantedVolume unique) (.ok ())
      ((plantedVolume unique).truncate unique 0) := by
  refine ⟨_, 0, Arrives.head ?_ planted_arrives, ?_⟩
  · exact Volume.target_eq_some_iff.mpr ⟨2, planted_link, rfl⟩
  · exact .existing planted_binary rfl

theorem planted_holds :
    (plantedVolume unique).Holds (smallEntry currentBinary).path
      currentBinary :=
  ⟨0, ⟨_, planted_arrives, planted_binary⟩, rfl⟩

theorem planted_holds_signature :
    (plantedVolume unique).Holds (smallEntry currentBinary).signaturePath
      (encode "current".toList) :=
  ⟨1, ⟨_, arrives_self (Volume.target_eq_none_of_file planted_signature rfl),
    planted_signature⟩, rfl⟩

/-- Then the binary is empty. -/
theorem truncated_holds :
    ((plantedVolume unique).truncate unique 0).Holds
      (smallEntry currentBinary).path [] := by
  have empty :
      ((plantedVolume unique).truncate unique 0).node 0 = .file [] := by
    simp only [Volume.truncate, Function.update_self]
  have present :
      ((plantedVolume unique).truncate unique 0).entry
        (smallEntry currentBinary).path = some 0 :=
    @planted_binary unique
  exact ⟨0, ⟨_, arrives_self (Volume.target_eq_none_of_file present empty),
    present⟩, empty⟩

/-- A process which lists the cache resolves the entry. -/
theorem runs_planted_hit {process : UInt32} :
    Runs (careful smallSurroundings process)
      (smallResolver.resolve
        { name := .unicode "foo".toList, args := [] }).run
      (plantedVolume unique) (.ok (smallEntry currentBinary).path)
      (plantedVolume unique) := by
  apply smallResolver.runs_cached (smallEntry_of currentBinary)
    ⟨⟨rfl, rfl⟩, trivial⟩ _ ⟨⟨rfl, planted_holds⟩, trivial⟩
    ⟨⟨rfl, planted_holds_signature⟩, trivial⟩
    (decode_encode "current".toList)
  · apply verifyBinary_ok_iff.mpr
    exact ⟨rfl, (smallKeys_verifies_iff _ _).mpr (by decide)⟩
  · rcases planted_holds_signature with ⟨inode, finds, _⟩
    exact ⟨⟨rfl, fun _ => ⟨inode, finds⟩⟩, trivial⟩

def denied : IoError where
  kind := .other
  detail := "denied".toList

/-- One which cannot list it fetches, and may fail after it opened a file. -/
theorem runs_planted_interrupted :
    Runs (linked smallSurroundings unique)
      (smallResolver.resolve
        { name := .unicode "foo".toList, args := [] }).run
      (plantedVolume unique)
      (.error (cacheError (plantedPath unique) denied))
      ((plantedVolume unique).truncate unique 0) := by
  have unlisted :
      linked smallSurroundings unique
        (.readDir smallResolver.config.cacheRoot) (plantedVolume unique)
        (.error denied) (plantedVolume unique) :=
    ⟨rfl, trivial⟩
  apply runs_resolve_delivered unlisted _ deliverable_published
  · exact runs_storing_interrupted (fun _ => rfl) ⟨rfl, rfl⟩ planted_opens
      fun _ => rfl
  · exact fun url bytes served => ⟨rfl, served⟩

end Planted

theorem processes_distinct :
    Function.Injective fun actor : Fin 2 => UInt32.ofNat actor.val := by
  intro first second equal
  have small (actor : Fin 2) : actor.val < UInt32.size :=
    Nat.lt_trans actor.isLt (by decide)
  have values := congrArg UInt32.toNat equal
  simp only [UInt32.toNat_ofNat_of_lt' (small _)] at values
  exact Fin.ext values

/-- Two launchers of one command, and a link of the second's scratch file. -/
def pair : Resolvers (Fin 2) smallLibraries where
  keys := smallKeys
  config _ := smallResolver.config
  command _ := { name := .unicode "foo".toList, args := [] }
  process actor := UInt32.ofNat actor.val
  distinct := processes_distinct
  surroundings := smallSurroundings
  initial := plantedVolume (UInt32.ofNat (1 : Fin 2).val)

/-- The first launcher has resolved the entry of the cache. -/
def firstResolved :
    Machine host (Fin 2) Volume (Except ResolutionError Path) where
  state := pair.initial
  thread := Function.update pair.start.thread 0
    (some (.done (.ok (smallEntry currentBinary).path)))

theorem firstResolved_reached :
    Reaches pair.carefulCalls pair.start firstResolved := by
  have runs :
      Runs (pair.carefulCalls 0) (pair.program 0) pair.initial
        (.ok (smallEntry currentBinary).path) pair.initial :=
    runs_planted_hit
  exact Reaches.alone (Runs.advances runs) rfl rfl

theorem firstResolved_thread :
    firstResolved.thread 0 =
      some (.done (.ok (smallEntry currentBinary).path)) := by
  simp [firstResolved]

/-- Both launchers have. -/
theorem resolved_stays_verified_pair :
    ∃ later,
      Reaches pair.carefulCalls firstResolved later ∧
        later.thread 1 =
            some (.done (.ok (smallEntry currentBinary).path)) ∧
          IsVerified pair.keys (smallEntry currentBinary).path
            later.state := by
  have runs :
      Runs (pair.carefulCalls 1) (pair.program 1) firstResolved.state
        (.ok (smallEntry currentBinary).path) firstResolved.state :=
    runs_planted_hit
  have further :
      Reaches pair.carefulCalls firstResolved
        { firstResolved with
          thread := Function.update firstResolved.thread 1
            (some (.done (.ok (smallEntry currentBinary).path))) } :=
    Reaches.alone (Runs.advances runs) rfl rfl
  refine ⟨_, further, ?_, resolved_stays_verified pair firstResolved_reached
    firstResolved_thread further⟩
  simp only [Function.update_self]

/--
When the second launcher stores the binary once more, it opens its scratch file
by a link, and empties the file which the first one has resolved.
-/
theorem planted_link_followed :
    ∃ returned later,
      Reaches pair.calls pair.start returned ∧
        returned.thread 0 =
            some (.done (.ok (smallEntry currentBinary).path)) ∧
          Reaches pair.calls returned later ∧
            ¬ IsVerified pair.keys (smallEntry currentBinary).path
              later.state := by
  have hit :
      Runs (pair.calls 0) (pair.program 0) pair.initial
        (.ok (smallEntry currentBinary).path) pair.initial :=
    runs_planted_hit.mono fun _ _ _ _ step => step.1
  have first : Reaches pair.calls pair.start firstResolved :=
    Reaches.alone (Runs.advances hit) rfl rfl
  have interrupted :
      Runs (pair.calls 1) (pair.program 1) firstResolved.state
        (.error (cacheError (plantedPath (UInt32.ofNat 1)) denied))
        (pair.initial.truncate (UInt32.ofNat 1) 0) :=
    runs_planted_interrupted
  refine ⟨_, _, first, firstResolved_thread,
    Reaches.alone (Runs.advances interrupted) rfl rfl, ?_⟩
  rintro ⟨start, sha256, named, hex, verified⟩
  have digest := (verified [] truncated_holds).1
  have ends :
      Ends (smallEntry currentBinary).path
        (sha256Hex smallLibraries currentBinary) :=
    (smallEntry_of currentBinary).ends
  have other : Ends (smallEntry currentBinary).path sha256 :=
    ⟨notMem_sha256 hex rfl, start, named⟩
  rw [other.unique ends] at digest
  exact absurd digest (by decide +kernel)

end Luminosity.Launch.ResolverConcurrency
