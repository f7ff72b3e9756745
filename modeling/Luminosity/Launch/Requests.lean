import Luminosity.Host.Placements
import Luminosity.Launch.Cache

/-!
# What is stored

An entry is stored as two files, each of which is written under the name of a
scratch file of the process and then renamed into place.
-/

namespace Luminosity.Launch.Requests

open Luminosity.Foundation.TextSegments
open Luminosity.Host.Paths
open Luminosity.Launch.Core
open Luminosity.Launch.Cache

/-- The files of an entry. -/
inductive Item
  | binary
  | signature
deriving DecidableEq

/-- An entry which a process stores. -/
structure Request where
  root : Path
  name : Text
  version : Text
  sha256 : Text
  hex : isSha256Hex sha256 = true
  bytes : Bytes
  signature : Text
  unique : UInt32

namespace Request

variable (request : Request)

/-- The path of a binary of the command. -/
def binaryOf (sha256 : Text) : Path :=
  request.root.join (stem request.name request.version sha256)

def signatureOf (sha256 : Text) : Path :=
  request.root.join
    (signatureName (stem request.name request.version sha256))

def entry : Text :=
  stem request.name request.version request.sha256

def scratch : Item → Path
  | .binary => request.root.join (tempName request.entry request.unique)
  | .signature =>
      request.root.join (tempSignatureName request.entry request.unique)

def placed : Item → Path
  | .binary => request.binaryOf request.sha256
  | .signature => request.signatureOf request.sha256

def contents : Item → Bytes
  | .binary => request.bytes
  | .signature => encode request.signature

/-- The program which places a file of the entry. -/
def placing (item : Item) : ResolutionProgram Unit :=
  writeThenRename (request.scratch item) (request.placed item)
    (request.contents item) (item = .binary)

/-- Storing the entry. -/
def storing : ResolutionProgram CachedBinary :=
  store request.root request.name request.version request.sha256
    request.bytes request.signature

/-- The entry as it is stored. -/
def stored : CachedBinary where
  path := request.placed .binary
  sha256 := request.sha256
  signaturePath := request.placed .signature

end Request

/-! ## The paths of an entry -/

section Paths

variable {request : Request}

theorem binaryNamed_binaryOf
    {sha256 : Text} (hex : isSha256Hex sha256 = true) :
    BinaryNamed (request.binaryOf sha256) := by
  rw [Request.binaryOf, stem_eq]
  exact binaryNamed_join request.root _ hex

theorem signatureNamed_signatureOf
    {sha256 : Text} (hex : isSha256Hex sha256 = true) :
    SignatureNamed (request.signatureOf sha256) := by
  rw [Request.signatureOf, stem_eq]
  exact signatureNamed_join request.root _ hex

theorem entryOf_stored :
    EntryOf request.root request.name request.version request.stored :=
  ⟨request.hex, rfl, rfl⟩

theorem scratchOf_scratch (item : Item) :
    ScratchOf request.unique (request.scratch item) := by
  cases item with
  | binary => exact scratchOf_tempName _ _ _
  | signature => exact scratchOf_tempSignatureName _ _ _

theorem binaryOf_ne_scratch
    {sha256 : Text} (hex : isSha256Hex sha256 = true) (item : Item) :
    request.binaryOf sha256 ≠ request.scratch item := by
  intro same
  have scratch := @scratchOf_scratch request item
  rw [← same] at scratch
  exact (binaryNamed_binaryOf hex).not_scratchOf _ scratch

theorem signatureOf_ne_scratch
    {sha256 : Text} (hex : isSha256Hex sha256 = true) (item : Item) :
    request.signatureOf sha256 ≠ request.scratch item := by
  intro same
  have scratch := @scratchOf_scratch request item
  rw [← same] at scratch
  exact (signatureNamed_signatureOf hex).not_scratchOf _ scratch

theorem signatureOf_ne_binaryOf
    {first second : Text}
    (firstHex : isSha256Hex first = true)
    (secondHex : isSha256Hex second = true) :
    request.signatureOf first ≠ request.binaryOf second := by
  intro same
  have signature := @signatureNamed_signatureOf request _ firstHex
  rw [same] at signature
  exact (binaryNamed_binaryOf secondHex).not_signatureNamed signature

/-- Binaries of different digests have different paths. -/
theorem binaryOf_injective
    {first second : Text}
    (firstHex : isSha256Hex first = true)
    (secondHex : isSha256Hex second = true)
    (same : request.binaryOf first = request.binaryOf second) :
    first = second := by
  have ends {sha256 : Text} (hex : isSha256Hex sha256 = true) :
      Ends (request.binaryOf sha256) sha256 := by
    rw [Request.binaryOf, stem_eq]
    exact ends_join _ _ (notMem_sha256 hex rfl) (notMem_sha256 hex rfl)
  have firstEnds := ends firstHex
  rw [same] at firstEnds
  exact firstEnds.unique (ends secondHex)

theorem scratch_inj {first second : Item} :
    request.scratch first = request.scratch second ↔ first = second := by
  have different :
      request.scratch .binary ≠ request.scratch .signature := by
    intro same
    have ends := ends_tempName request.root request.entry request.unique
    rw [show request.root.join (tempName request.entry request.unique) =
      request.scratch .signature from same] at ends
    exact decimal_ne_signatureName _ _
      (ends.unique (ends_tempSignatureName _ _ _))
  constructor
  · intro same
    cases first with
    | binary =>
        cases second with
        | binary => rfl
        | signature => exact absurd same different
    | signature =>
        cases second with
        | binary => exact absurd same.symm different
        | signature => rfl
  · rintro rfl
    rfl

theorem placed_inj {first second : Item} :
    request.placed first = request.placed second ↔ first = second := by
  have different : request.placed .signature ≠ request.placed .binary :=
    signatureOf_ne_binaryOf request.hex request.hex
  constructor
  · intro same
    cases first with
    | binary =>
        cases second with
        | binary => rfl
        | signature => exact absurd same.symm different
    | signature =>
        cases second with
        | binary => exact absurd same different
        | signature => rfl
  · rintro rfl
    rfl

theorem placed_ne_scratch (first second : Item) :
    request.placed first ≠ request.scratch second := by
  cases first with
  | binary => exact binaryOf_ne_scratch request.hex second
  | signature => exact signatureOf_ne_scratch request.hex second

end Paths

end Luminosity.Launch.Requests
