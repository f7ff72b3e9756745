import Luminosity.Launch.Verifier
import Luminosity.Host.FlatDisk

/-!
# The binary cache

A cached binary is a file named by its command, its version and its digest,
with its signature in a second file next to it.  A new entry is written to
scratch files which carry the process number and are then renamed.

What a path can be is decided by the end of its file name, after the last
dash: sixty-four hexadecimal digits for a binary, the same with an extension
for a signature, and a process number, with or without that extension, for a
scratch file.  No path is of two kinds, and no two processes share a scratch
file, whatever the command and the version are.
-/

namespace Luminosity.Launch.Cache

open Luminosity.Foundation.TextSegments
open Luminosity.Foundation.EffectPrograms
open Luminosity.Host.Paths
open Luminosity.Host.Calls
open Luminosity.Host.FlatDisk
open Luminosity.Launch.Core
open Luminosity.Launch.Verifier

/-- An operation of the resolver over the host. -/
abbrev ResolutionProgram := HostExcept ResolutionError

structure CachedBinary where
  path : Path
  sha256 : Text
  signaturePath : Path
deriving DecidableEq

/-! ## Names -/

/-- The digits `is_ascii_hexdigit` accepts. -/
def isHexDigit (character : Char) : Bool :=
  ('0' ≤ character && character ≤ '9') ||
    ('A' ≤ character && character ≤ 'F') ||
      ('a' ≤ character && character ≤ 'f')

-- Hexadecimal digits are single bytes, so the source's byte length is the
-- number of characters.
def isSha256Hex (candidate : Text) : Bool :=
  candidate.length = 64 && candidate.all isHexDigit

def stem (name version sha256 : Text) : Text :=
  name ++ "-".toList ++ version ++ "-".toList ++ sha256

def signatureName (stem : Text) : Text :=
  stem ++ ".minisig".toList

def tempName (stem : Text) (unique : UInt32) : Text :=
  ".tmp-".toList ++ stem ++ "-".toList ++ decimal unique.toNat

def tempSignatureName (stem : Text) (unique : UInt32) : Text :=
  ".tmp-".toList ++ stem ++ "-".toList ++ decimal unique.toNat ++
    ".minisig".toList

def cacheError (path : Path) (error : IoError) : ResolutionError :=
  .cache path error.detail

/-! ## Finding an entry -/

def findAmong (root : Path) (front : Text) :
    List (Except IoError OsText) → HostProgram (Option CachedBinary)
  | [] => return none
  | .error _ :: rest => findAmong root front rest
  | .ok fileName :: rest =>
      match fileName.toStr with
      | none => return none
      | some file =>
          match file.dropPrefix? front with
          | none => findAmong root front rest
          | some sha256 =>
              if isSha256Hex sha256 then do
                let signaturePath := root.join (signatureName file)
                match ← issue (.pathExists signaturePath) with
                | true =>
                    return some
                      { path := root.join file, sha256, signaturePath }
                | false => findAmong root front rest
              else
                findAmong root front rest

def find (root : Path) (name version : Text) :
    HostProgram (Option CachedBinary) := do
  match ← issue (.readDir root) with
  | .error _ => return none
  | .ok entries =>
      findAmong root (name ++ "-".toList ++ version ++ "-".toList) entries

/-! ## Storing an entry -/

def setExecutable (path : Path) : ResolutionProgram Unit := do
  match ← invoke (.setPermissions path 0o755) with
  | .ok () => return ()
  | .error error => throw (cacheError path error)

def writeThenRename
    (temp finalPath : Path) (bytes : Bytes) (executable : Bool) :
    ResolutionProgram Unit := do
  match ← ExceptT.lift (writeFile temp bytes) with
  | .error error => throw (cacheError temp error)
  | .ok () => do
      let _ ← (if executable then setExecutable temp else pure ())
      match ← invoke (.rename temp finalPath) with
      | .ok () => return ()
      | .error error => do
          let _ ← invoke (.removeFile temp)
          throw (cacheError finalPath error)

/-- The caller must have verified the bytes. -/
def store
    (root : Path) (name version sha256 : Text) (bytes : Bytes)
    (signature : Text) : ResolutionProgram CachedBinary := do
  match ← ExceptT.lift (createDirAll root) with
  | .error error => throw (cacheError root error)
  | .ok () => do
      let stem := stem name version sha256
      let finalPath := root.join stem
      let signaturePath := root.join (signatureName stem)
      let unique ← invoke .processId
      let tempBinary := root.join (tempName stem unique)
      let tempSignature := root.join (tempSignatureName stem unique)
      writeThenRename tempBinary finalPath bytes true
      writeThenRename tempSignature signaturePath (encode signature) false
      return { path := finalPath, sha256, signaturePath }

/-! ## Removing entries -/

def evict (binary : CachedBinary) : HostProgram Unit := do
  let _ ← issue (.removeFile binary.path)
  let _ ← issue (.removeFile binary.signaturePath)
  return ()

/-- The file an entry names, when it is a binary of the family. -/
def retained (front : Text) : Except IoError OsText → Option Text
  | .error _ => none
  | .ok fileName => do
      let file ← fileName.toStr
      let rest ← file.dropPrefix? front
      let (_, sha256) ← rsplitOnce '-' rest
      if isSha256Hex sha256 then some file else none

/-- A binary in the cache, with the time it was modified. -/
structure Candidate where
  modified : Int
  binary : Path
  signature : Path

/-- The binaries of the family; an unknown time counts as the epoch. -/
def binariesAmong (root : Path) (front : Text) :
    List (Except IoError OsText) → HostProgram (List Candidate)
  | [] => return []
  | entry :: rest =>
      match retained front entry with
      | none => binariesAmong root front rest
      | some file => do
          let modified ← issue (.modified (root.join file))
          let others ← binariesAmong root front rest
          return {
            modified := modified.toOption.getD 0
            binary := root.join file
            signature := root.join (signatureName file) } :: others

def removeAll : List Candidate → HostProgram Unit
  | [] => return ()
  | candidate :: rest => do
      let _ ← issue (.removeFile candidate.binary)
      let _ ← issue (.removeFile candidate.signature)
      removeAll rest

/-- Remove the oldest binaries beyond the cap. -/
def enforceRetentionCap (root : Path) (name : Text) (cap : Nat) :
    HostProgram Unit := do
  match ← issue (.readDir root) with
  | .error _ => return ()
  | .ok entries => do
      let binaries ← binariesAmong root (name ++ "-".toList) entries
      if binaries.length ≤ cap then
        return ()
      else
        let oldest := binaries.mergeSort fun left right =>
          left.modified ≤ right.modified
        removeAll (oldest.take (binaries.length - cap))

/-! ## What the end of a file name tells -/

/-- The file name ends with this text after its last dash. -/
def Ends (path : Path) (ending : Text) : Prop :=
  '-' ∉ ending ∧ ∃ start, path.fileName = some (start ++ '-' :: ending)

def BinaryNamed (path : Path) : Prop :=
  ∃ sha256, isSha256Hex sha256 = true ∧ Ends path sha256

def SignatureNamed (path : Path) : Prop :=
  ∃ sha256, isSha256Hex sha256 = true ∧ Ends path (signatureName sha256)

/-- A scratch file of this process, for a binary or for a signature. -/
def ScratchOf (unique : UInt32) (path : Path) : Prop :=
  Ends path (decimal unique.toNat) ∨
    Ends path (signatureName (decimal unique.toNat))

theorem Ends.unique
    {path : Path} {ending other : Text}
    (ends : Ends path ending) (otherEnds : Ends path other) :
    ending = other := by
  rcases ends with ⟨fresh, start, named⟩
  rcases otherEnds with ⟨otherFresh, otherStart, otherNamed⟩
  have equal : start ++ '-' :: ending = otherStart ++ '-' :: other :=
    Option.some.inj (named.symm.trans otherNamed)
  exact (append_cons_inj_last fresh otherFresh equal).2

theorem ends_join
    (root : Path) (front : Text) {ending : Text}
    (undashed : '-' ∉ ending) (unseparated : '/' ∉ ending) :
    Ends (root.join (front ++ '-' :: ending)) ending := by
  apply And.intro undashed
  apply fileName_join_append root front (by decide)
  simpa using unseparated

theorem isSha256Hex_iff (candidate : Text) :
    isSha256Hex candidate = true ↔
      candidate.length = 64 ∧
        ∀ character ∈ candidate, isHexDigit character = true := by
  simp [isSha256Hex]

theorem notMem_sha256
    {sha256 : Text} (hex : isSha256Hex sha256 = true)
    {character : Char} (notDigit : isHexDigit character = false) :
    character ∉ sha256 := by
  intro member
  have digit := ((isSha256Hex_iff sha256).mp hex).2 character member
  rw [notDigit] at digit
  cases digit

theorem isHexDigit_digitChar {digit : Nat} (small : digit < 16) :
    isHexDigit (Nat.digitChar digit) = true := by
  revert digit
  decide

theorem isSha256Hex_sha256Hex (libraries : Libraries) (bytes : Bytes) :
    isSha256Hex (sha256Hex libraries bytes) = true := by
  apply (isSha256Hex_iff _).mpr
  apply And.intro (length_sha256Hex bytes)
  intro character member
  rcases List.mem_flatMap.mp member with ⟨byte, _, inside⟩
  have bound := byte.toNat_lt
  rcases List.mem_pair.mp inside with rfl | rfl
  · exact isHexDigit_digitChar (by omega)
  · exact isHexDigit_digitChar (by omega)

theorem notMem_signatureName
    {character : Char} {stem : Text} (fresh : character ∉ stem)
    (notExtension : character ∉ ".minisig".toList) :
    character ∉ signatureName stem := by
  rw [signatureName, List.mem_append]
  exact not_or.mpr ⟨fresh, notExtension⟩

@[simp]
theorem length_signatureName (stem : Text) :
    (signatureName stem).length = stem.length + 8 := by
  simp [signatureName]

theorem plain_signatureName {file : Text} (plain : Plain file) :
    Plain (signatureName file) := by
  rcases plain with ⟨nonempty, _, _, unseparated⟩
  refine ⟨?_, ?_, ?_, ?_⟩
  · simp [signatureName]
  · intro same
    simpa using congrArg List.length same
  · intro same
    simpa using congrArg List.length same
  · exact notMem_signatureName unseparated (by decide)

theorem length_decimal_process (unique : UInt32) :
    (decimal unique.toNat).length ≤ 10 := by
  apply length_decimal_le (by decide)
  have bound := unique.toNat_lt
  omega

/-! ### No path is of two kinds -/

theorem BinaryNamed.not_signatureNamed
    {path : Path} (binary : BinaryNamed path) :
    ¬ SignatureNamed path := by
  rcases binary with ⟨sha256, hex, ends⟩
  rintro ⟨other, otherHex, otherEnds⟩
  have lengths := congrArg List.length (ends.unique otherEnds)
  rw [length_signatureName, ((isSha256Hex_iff _).mp hex).1,
    ((isSha256Hex_iff _).mp otherHex).1] at lengths
  omega

theorem ScratchOf.short
    {unique : UInt32} {path : Path} (scratch : ScratchOf unique path)
    {ending : Text} (ends : Ends path ending) :
    ending.length ≤ 18 := by
  have bound := length_decimal_process unique
  rcases scratch with plain | extended
  · rw [ends.unique plain]
    omega
  · rw [ends.unique extended, length_signatureName]
    omega

theorem BinaryNamed.not_scratchOf
    {path : Path} (binary : BinaryNamed path) (unique : UInt32) :
    ¬ ScratchOf unique path := by
  rcases binary with ⟨sha256, hex, ends⟩
  intro scratch
  have bound := scratch.short ends
  have length := ((isSha256Hex_iff _).mp hex).1
  omega

theorem SignatureNamed.not_scratchOf
    {path : Path} (signature : SignatureNamed path) (unique : UInt32) :
    ¬ ScratchOf unique path := by
  rcases signature with ⟨sha256, hex, ends⟩
  intro scratch
  have bound := scratch.short ends
  have length := ((isSha256Hex_iff _).mp hex).1
  rw [length_signatureName] at bound
  omega

theorem decimal_ne_signatureName (number : Nat) (stem : Text) :
    decimal number ≠ signatureName stem := by
  intro equal
  have dotted : '.' ∈ decimal number := by
    rw [equal]
    simp [signatureName]
  exact notMem_decimal rfl number dotted

/-- No two processes share a scratch file. -/
theorem ScratchOf.unique
    {first second : UInt32} {path : Path}
    (scratch : ScratchOf first path) (other : ScratchOf second path) :
    first = second := by
  have numbers : decimal first.toNat = decimal second.toNat := by
    rcases scratch with plain | extended
    · rcases other with otherPlain | otherExtended
      · exact plain.unique otherPlain
      · exact absurd (plain.unique otherExtended)
          (decimal_ne_signatureName _ _)
    · rcases other with otherPlain | otherExtended
      · exact absurd (otherPlain.unique extended)
          (decimal_ne_signatureName _ _)
      · exact List.append_cancel_right (extended.unique otherExtended)
  exact UInt32.toNat_inj.mp (decimal_injective numbers)

/-! ### The paths the cache uses -/

section Paths

variable (root : Path) (front : Text)

theorem binaryNamed_join {sha256 : Text} (hex : isSha256Hex sha256 = true) :
    BinaryNamed (root.join (front ++ '-' :: sha256)) :=
  ⟨sha256, hex,
    ends_join root front (notMem_sha256 hex rfl) (notMem_sha256 hex rfl)⟩

theorem signatureNamed_join
    {sha256 : Text} (hex : isSha256Hex sha256 = true) :
    SignatureNamed (root.join (signatureName (front ++ '-' :: sha256))) := by
  refine ⟨sha256, hex, ?_⟩
  rw [signatureName, List.append_assoc]
  apply ends_join root front
  · apply notMem_signatureName
    · exact notMem_sha256 hex rfl
    · decide
  · apply notMem_signatureName
    · exact notMem_sha256 hex rfl
    · decide

theorem ends_tempName (stem : Text) (unique : UInt32) :
    Ends (root.join (tempName stem unique)) (decimal unique.toNat) := by
  have split :
      tempName stem unique =
        (".tmp-".toList ++ stem) ++ '-' :: decimal unique.toNat := by
    unfold tempName
    generalize decimal unique.toNat = digits
    simp
  rw [split]
  apply ends_join root
  · exact notMem_decimal rfl _
  · exact notMem_decimal rfl _

theorem exists_tempName (stem : Text) (unique : UInt32) :
    ∃ rest, tempName stem unique = ".tmp-".toList ++ rest := by
  unfold tempName
  generalize decimal unique.toNat = digits
  exact ⟨stem ++ ("-".toList ++ digits), by simp only [List.append_assoc]⟩

theorem exists_tempSignatureName (stem : Text) (unique : UInt32) :
    ∃ rest, tempSignatureName stem unique = ".tmp-".toList ++ rest := by
  unfold tempSignatureName
  generalize decimal unique.toNat = digits
  exact ⟨stem ++ ("-".toList ++ (digits ++ ".minisig".toList)),
    by simp only [List.append_assoc]⟩

theorem scratchOf_tempName (stem : Text) (unique : UInt32) :
    ScratchOf unique (root.join (tempName stem unique)) :=
  Or.inl (ends_tempName root stem unique)

theorem ends_tempSignatureName (stem : Text) (unique : UInt32) :
    Ends (root.join (tempSignatureName stem unique))
      (signatureName (decimal unique.toNat)) := by
  have split :
      tempSignatureName stem unique =
        (".tmp-".toList ++ stem) ++
          '-' :: signatureName (decimal unique.toNat) := by
    unfold tempSignatureName signatureName
    generalize decimal unique.toNat = digits
    simp
  rw [split]
  apply ends_join root
  · apply notMem_signatureName
    · exact notMem_decimal rfl _
    · decide
  · apply notMem_signatureName
    · exact notMem_decimal rfl _
    · decide

theorem scratchOf_tempSignatureName (stem : Text) (unique : UInt32) :
    ScratchOf unique (root.join (tempSignatureName stem unique)) :=
  Or.inr (ends_tempSignatureName root stem unique)

theorem stem_eq (name version sha256 : Text) :
    stem name version sha256 =
      (name ++ '-' :: version) ++ '-' :: sha256 := by
  simp [stem]

end Paths

/-! ## What the operations find and ask for -/

/-- The entry has the paths its digest gives it. -/
structure EntryOf (root : Path) (name version : Text)
    (cached : CachedBinary) : Prop where
  hex : isSha256Hex cached.sha256 = true
  path : cached.path = root.join (stem name version cached.sha256)
  signaturePath :
    cached.signaturePath =
      root.join (signatureName (stem name version cached.sha256))

section Operations

variable {root : Path} {name version : Text} {cached : CachedBinary}

/-- The entry a digest names. -/
theorem EntryOf.of_digest {sha256 : Text}
    (hex : isSha256Hex sha256 = true) :
    EntryOf root name version
      { path := root.join (stem name version sha256)
        sha256
        signaturePath :=
          root.join (signatureName (stem name version sha256)) } :=
  ⟨hex, rfl, rfl⟩

/-- The name of the binary ends with the digest. -/
theorem EntryOf.ends (entry : EntryOf root name version cached) :
    Ends cached.path cached.sha256 := by
  rw [entry.path, stem_eq]
  exact ends_join root _ (notMem_sha256 entry.hex rfl)
    (notMem_sha256 entry.hex rfl)

theorem EntryOf.binaryNamed (entry : EntryOf root name version cached) :
    BinaryNamed cached.path := by
  rw [entry.path, stem_eq]
  exact binaryNamed_join root _ entry.hex

theorem EntryOf.signatureNamed (entry : EntryOf root name version cached) :
    SignatureNamed cached.signaturePath := by
  rw [entry.signaturePath, stem_eq]
  exact signatureNamed_join root _ entry.hex

/-- What is found is an entry of the command which was listed. -/
theorem returns_findAmong (entries : List (Except IoError OsText)) :
    Returns
      (fun found => ∀ cached, found = some cached →
        EntryOf root name version cached ∧
          .ok (.unicode (stem name version cached.sha256)) ∈ entries)
      (findAmong root (name ++ "-".toList ++ version ++ "-".toList)
        entries) := by
  induction entries with
  | nil =>
      rintro cached ⟨⟩
  | cons entry rest induction =>
      have later :
          Returns
            (fun found => ∀ cached, found = some cached →
              EntryOf root name version cached ∧
                .ok (.unicode (stem name version cached.sha256)) ∈
                  entry :: rest)
            (findAmong root (name ++ "-".toList ++ version ++ "-".toList)
              rest) := by
        apply induction.mono
        intro found known cached same
        rcases known cached same with ⟨known, member⟩
        exact ⟨known, List.mem_cons_of_mem entry member⟩
      cases entry with
      | error error => exact later
      | ok fileName =>
          rw [findAmong]
          split
          · rintro cached ⟨⟩
          · rename_i file listed
            split
            · exact later
            · rename_i sha256 stripped
              split_ifs with hex
              · rcases List.dropPrefix?_eq_some_iff.mp stripped with
                  ⟨front, rfl, same⟩
                rw [eq_of_beq same] at listed ⊢
                intro answer
                cases answer with
                | false => exact later
                | true =>
                    rintro cached ⟨⟩
                    refine ⟨⟨hex, rfl, rfl⟩, ?_⟩
                    cases fileName with
                    | unicode text =>
                        cases listed
                        exact List.mem_cons_self
                    | other bytes => cases listed
              · exact later

theorem returns_find :
    Returns
      (fun found => ∀ cached, found = some cached →
        EntryOf root name version cached)
      (find root name version) := by
  intro answer
  cases answer with
  | error error =>
      rintro cached ⟨⟩
  | ok entries =>
      apply (returns_findAmong entries).mono
      intro found known cached same
      exact (known cached same).1

theorem asks_findAmong
    (front : Text) (entries : List (Except IoError OsText)) :
    Asks Call.Reads (findAmong root front entries) := by
  induction entries with
  | nil => trivial
  | cons entry rest induction =>
      cases entry with
      | error error => exact induction
      | ok fileName =>
          rw [findAmong]
          split
          · trivial
          · split
            · exact induction
            · split_ifs
              · apply Asks.bind ((asks_issue _).mpr trivial)
                intro present
                cases present with
                | false => exact induction
                | true => trivial
              · exact induction

theorem asks_find : Asks Call.Reads (find root name version) := by
  apply Asks.bind ((asks_issue _).mpr trivial)
  intro answer
  cases answer with
  | error error => trivial
  | ok entries => exact asks_findAmong _ entries

/-- The calls which look around or remove one of these files. -/
def Removes (among : Path → Prop) : Call → Prop
  | .removeFile path => among path
  | call => call.Reads

/-- The calls which look around or remove what is no scratch file. -/
abbrev Tidies : Call → Prop :=
  Removes fun path => BinaryNamed path ∨ SignatureNamed path

theorem Removes.of_reads
    {among : Path → Prop} {call : Call} (reads : call.Reads) :
    Removes among call := by
  cases call with
  | removeFile path => exact reads.elim
  | _ => exact reads

theorem Removes.reads_or_removes
    {among : Path → Prop} {call : Call} (removes : Removes among call) :
    call.Reads ∨ ∃ path, call = .removeFile path ∧ among path := by
  cases call with
  | removeFile path => exact Or.inr ⟨path, rfl, removes⟩
  | _ => exact Or.inl removes

theorem Removes.mono
    {among wider : Path → Prop} (weaken : ∀ path, among path → wider path)
    {call : Call} (removes : Removes among call) :
    Removes wider call := by
  cases call with
  | removeFile path => exact weaken path removes
  | _ => exact removes

/-- Such a call leaves a file alone or removes it. -/
theorem Removes.step
    {among : Path → Prop} {call : Call} (removes : Removes among call)
    {surroundings : Surroundings} {unique : UInt32} {before after : Disk}
    {answer : call.Answer}
    (step : flat surroundings unique call before answer after)
    (path : Path) :
    after.file path = before.file path ∨
      among path ∧ after.file path = none := by
  rcases removes.reads_or_removes with reads | ⟨removed, rfl, named⟩
  · rw [flat_reads reads step]
    exact Or.inl rfl
  · cases answer with
    | error error =>
        rw [step.1]
        exact Or.inl rfl
    | ok _ =>
        rw [step.2]
        by_cases same : path = removed
        · subst same
          exact Or.inr ⟨named, before.remove_file_self⟩
        · exact Or.inl (before.remove_file_of_ne same)

theorem asks_evict_paths (cached : CachedBinary) :
    Asks
      (Removes fun path => path = cached.path ∨ path = cached.signaturePath)
      (evict cached) := by
  apply Asks.bind ((asks_issue _).mpr (Or.inl rfl))
  intro _
  apply Asks.bind ((asks_issue _).mpr (Or.inr rfl))
  intro _
  trivial

theorem asks_evict (entry : EntryOf root name version cached) :
    Asks Tidies (evict cached) := by
  apply (asks_evict_paths cached).mono
  intro call
  apply Removes.mono
  rintro path (rfl | rfl)
  · exact Or.inl entry.binaryNamed
  · exact Or.inr entry.signatureNamed

/-- The files of the candidate are a binary and a signature. -/
def Candidate.Named (candidate : Candidate) : Prop :=
  BinaryNamed candidate.binary ∧ SignatureNamed candidate.signature

theorem retained_named
    {front : Text} {entry : Except IoError OsText} {file : Text}
    (kept : retained front entry = some file) :
    BinaryNamed (root.join file) ∧
      SignatureNamed (root.join (signatureName file)) := by
  cases entry with
  | error error => cases kept
  | ok fileName =>
      simp only [retained, Option.bind_eq_bind, Option.bind_eq_some_iff] at kept
      rcases kept with
        ⟨listed, _, rest, stripped, ⟨family, sha256⟩, divided, hex⟩
      rcases rsplitOnce_some divided with ⟨parts, _⟩
      rcases List.dropPrefix?_eq_some_iff.mp stripped with ⟨front, rfl, _⟩
      split_ifs at hex with digits
      cases hex
      rw [parts, ← List.append_assoc]
      exact ⟨binaryNamed_join root _ digits, signatureNamed_join root _ digits⟩

theorem asks_binariesAmong
    (front : Text) (entries : List (Except IoError OsText)) :
    Asks Call.Reads (binariesAmong root front entries) := by
  induction entries with
  | nil => trivial
  | cons entry rest induction =>
      rw [binariesAmong]
      split
      · exact induction
      · apply Asks.bind ((asks_issue _).mpr trivial)
        intro modified
        apply induction.bind
        intro others
        trivial

theorem returns_binariesAmong
    (front : Text) (entries : List (Except IoError OsText)) :
    Returns (fun binaries => ∀ candidate ∈ binaries, candidate.Named)
      (binariesAmong root front entries) := by
  induction entries with
  | nil =>
      intro candidate member
      cases member
  | cons entry rest induction =>
      rw [binariesAmong]
      split
      · exact induction
      · rename_i file kept
        intro modified
        apply induction.bind
        intro others named candidate member
        rcases List.mem_cons.mp member with rfl | later
        · exact retained_named kept
        · exact named candidate later

theorem asks_removeAll
    {among : Path → Prop} {candidates : List Candidate}
    (each : ∀ candidate ∈ candidates,
      among candidate.binary ∧ among candidate.signature) :
    Asks (Removes among) (removeAll candidates) := by
  induction candidates with
  | nil => trivial
  | cons candidate rest induction =>
      have first := each candidate List.mem_cons_self
      apply Asks.bind ((asks_issue _).mpr first.1)
      intro _
      apply Asks.bind ((asks_issue _).mpr first.2)
      intro _
      apply induction
      intro other member
      exact each other (List.mem_cons_of_mem candidate member)

theorem asks_enforceRetentionCap (cap : Nat) :
    Asks Tidies (enforceRetentionCap root name cap) := by
  apply Asks.bind ((asks_issue _).mpr trivial)
  intro answer
  cases answer with
  | error error => trivial
  | ok entries =>
      have reads :
          Asks Tidies (binariesAmong root (name ++ "-".toList) entries) :=
        (asks_binariesAmong _ entries).mono fun _ => Removes.of_reads
      apply reads.bind_returns (returns_binariesAmong _ entries)
      intro binaries named
      split_ifs
      · trivial
      · apply asks_removeAll
        intro candidate member
        have isNamed :=
          named candidate (List.mem_mergeSort.mp (List.mem_of_mem_take member))
        exact ⟨Or.inl isNamed.1, Or.inr isNamed.2⟩

end Operations

end Luminosity.Launch.Cache
