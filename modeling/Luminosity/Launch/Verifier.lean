import Luminosity.Launch.Core

/-!
# Verification

A binary is checked against a SHA-256 digest, and a binary and a manifest
against the trusted keys.  A manifest which verifies is then parsed, and has to
be of a supported schema and of the launcher's own version.

The digest, the signature scheme and the JSON parser are those of the
libraries the launcher links; nothing is assumed of them here.
-/

namespace Luminosity.Launch.Verifier

open Luminosity.Foundation.TextSegments
open Luminosity.Host.Paths
open Luminosity.Launch.Core

/-! ## The release manifest -/

structure PlatformEntry where
  sha256 : Text
  signature : Text
deriving DecidableEq

structure BinaryEntry where
  platforms : Text → Option PlatformEntry

structure Manifest where
  schemaVersion : UInt64
  version : Text
  binaries : Text → Option BinaryEntry

def Manifest.platformEntry (manifest : Manifest) (binary platform : Text) :
    Option PlatformEntry := do
  let entry ← manifest.binaries binary
  entry.platforms platform

/-- The manifest schema the launcher understands. -/
def supportedSchemaVersion : UInt64 := 1

/-! ## The linked libraries -/

/-- The functions of `sha2`, `minisign_verify` and `serde_json` in use. -/
structure Libraries where
  digest : Bytes → Vector UInt8 32
  PublicKey : Type
  Signature : Type
  decodeSignature : Text → Except Text Signature
  verify : PublicKey → Bytes → Signature → Bool → Except Text Unit
  fromSlice : Bytes → Except Text Manifest

variable (libraries : Libraries)

/-- A signature is accepted if any of the keys verifies it. -/
structure TrustedKeys where
  keys : List libraries.PublicKey

variable {libraries}

/-- A signature which does not parse verifies nothing. -/
def TrustedKeys.verifies
    (trusted : TrustedKeys libraries) (data : Bytes) (signature : Text) :
    Bool :=
  match libraries.decodeSignature signature with
  | .error _ => false
  | .ok parsed =>
      trusted.keys.any fun key => (libraries.verify key data parsed false).isOk

/-! ## Checks -/

/-- The two lowercase hexadecimal digits of a byte. -/
def hexByte (byte : UInt8) : Text :=
  [Nat.digitChar (byte.toNat / 16), Nat.digitChar (byte.toNat % 16)]

variable (libraries) in
def sha256Hex (bytes : Bytes) : Text :=
  (libraries.digest bytes).toList.flatMap hexByte

def verifyBinary
    (asset : Text) (bytes : Bytes) (expectedSha256 signature : Text)
    (trusted : TrustedKeys libraries) : Except ResolutionError Unit :=
  let actual := sha256Hex libraries bytes
  if actual ≠ expectedSha256 then
    .error (.checksumMismatch asset expectedSha256 actual)
  else if ¬ trusted.verifies bytes signature then
    .error (.signatureMismatch asset)
  else
    .ok ()

def verifyManifest
    (manifestBytes : Bytes) (manifestSignature : Text)
    (trusted : TrustedKeys libraries) : Except ResolutionError Unit :=
  if trusted.verifies manifestBytes manifestSignature then
    .ok ()
  else
    .error .manifestSignature

/-- The path an error about the manifest's text names. -/
def manifestPath : Path :=
  { absolute := false
    components := [.normal "manifest.json".toList] }

variable (libraries) in
/-- Call only after verifying the manifest signature. -/
def Manifest.parseAndValidate (bytes : Bytes) (expectedVersion : Text) :
    Except ResolutionError Manifest :=
  match libraries.fromSlice bytes with
  | .error error =>
      .error
        (.cache manifestPath ("manifest is not valid JSON: ".toList ++ error))
  | .ok manifest =>
      if supportedSchemaVersion < manifest.schemaVersion then
        .error
          (.unsupportedSchema manifest.schemaVersion supportedSchemaVersion)
      else if manifest.version ≠ expectedVersion then
        .error (.manifestVersionMismatch expectedVersion manifest.version)
      else
        .ok manifest

/-! ## What passes the checks -/

theorem verifyBinary_ok_iff
    {asset : Text} {bytes : Bytes} {expectedSha256 signature : Text}
    {trusted : TrustedKeys libraries} :
    verifyBinary asset bytes expectedSha256 signature trusted = .ok () ↔
      sha256Hex libraries bytes = expectedSha256 ∧
        trusted.verifies bytes signature = true := by
  rw [verifyBinary]
  split_ifs with differs verified
  · simp [differs]
  · simp [not_ne_iff.mp differs, verified]
  · simp [verified]

theorem verifyManifest_ok_iff
    {manifestBytes : Bytes} {manifestSignature : Text}
    {trusted : TrustedKeys libraries} :
    verifyManifest manifestBytes manifestSignature trusted = .ok () ↔
      trusted.verifies manifestBytes manifestSignature = true := by
  rw [verifyManifest]
  split_ifs with verified
  · simp [verified]
  · simp [verified]

theorem parseAndValidate_ok_iff
    {bytes : Bytes} {expectedVersion : Text} {manifest : Manifest} :
    Manifest.parseAndValidate libraries bytes expectedVersion =
        .ok manifest ↔
      libraries.fromSlice bytes = .ok manifest ∧
        manifest.schemaVersion ≤ supportedSchemaVersion ∧
          manifest.version = expectedVersion := by
  rw [Manifest.parseAndValidate]
  cases libraries.fromSlice bytes with
  | error error => simp
  | ok parsed =>
      simp only [Except.ok.injEq]
      split_ifs with newer other
      · simp only [false_iff]
        rintro ⟨rfl, supported, _⟩
        exact absurd newer (UInt64.not_lt.mpr supported)
      · simp only [false_iff]
        rintro ⟨rfl, _, same⟩
        exact other same
      · simp only [ne_eq, not_not] at other
        simp only [Except.ok.injEq]
        constructor
        · rintro rfl
          exact ⟨rfl, UInt64.not_lt.mp newer, other⟩
        · intro parts
          exact parts.1

theorem length_sha256Hex (bytes : Bytes) :
    (sha256Hex libraries bytes).length = 64 := by
  simp [sha256Hex, hexByte, List.length_flatMap]

end Luminosity.Launch.Verifier
