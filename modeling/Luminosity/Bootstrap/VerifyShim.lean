import Luminosity.Foundation.EffectPrograms
import Luminosity.Foundation.TextSegments

/-!
# The verify shim

A binary cannot verify itself.  The shim reads a public key, a signature and a
target, and exits with success exactly when the signature is one of the bytes
of the target under the key.
-/

namespace Luminosity.Bootstrap.VerifyShim

open Luminosity.Foundation.EffectPrograms
open Luminosity.Foundation.TextSegments

/-- The functions of `minisign_verify` in use. -/
structure Minisign where
  PublicKey : Type
  Signature : Type
  fromBase64 : Text → Except Text PublicKey
  decode : Text → Except Text Signature
  verify :
    PublicKey → Bytes → Signature → (allowLegacy : Bool) → Except Text Unit

/-- What reading a file gives, or why it cannot be read. -/
abbrev ReadFile := Text → Except Text Bytes

/-- `str::lines`: a carriage return before a line feed ends the line too. -/
def lines (text : Text) : List Text :=
  (splitInclusive '\n' text).map fun segment =>
    if segment.getLast? = some '\n' then
      stripLast '\r' segment.dropLast
    else
      segment

/-- `str::trim_start`. -/
def trimStart (text : Text) : Text :=
  text.dropWhile isWhitespace

/-- `str::trim`. -/
def trim (text : Text) : Text :=
  ((trimStart text).reverse.dropWhile isWhitespace).reverse

section Shim

variable (minisign : Minisign) (readFile : ReadFile)

/-- `parse_public_key`: the first line which is no comment. -/
def parsePublicKey (text : Text) : Except Text minisign.PublicKey :=
  let line := (lines text).find? fun line =>
    !"untrusted comment".toList.isPrefixOf (trimStart line)
  match (line.map trim).filter fun line => !line.isEmpty with
  | none => .error "public key file has no key line".toList
  | some base64 =>
      (minisign.fromBase64 base64).mapError fun error =>
        "invalid public key: ".toList ++ error

/-- What is said of a file which cannot be read. -/
def cannotRead (path error : Text) : Text :=
  "cannot read ".toList ++ path ++ ": ".toList ++ error

/-- `read`: the text of a file. -/
def read (path : Text) : Except Text Text := do
  let bytes ← (readFile path).mapError (cannotRead path)
  match decode bytes with
  | some text => .ok text
  | none =>
      .error (cannotRead path "stream did not contain valid UTF-8".toList)

/-- `run`. -/
def run : (args : List Text) → Except Text Unit
  | [publicKeyFile, signatureFile, targetFile] => do
      let publicKeyText ← read readFile publicKeyFile
      let publicKey ← parsePublicKey minisign publicKeyText
      let signatureText ← read readFile signatureFile
      let signature ←
        (minisign.decode signatureText).mapError fun error =>
          "invalid signature: ".toList ++ error
      let target ← (readFile targetFile).mapError (cannotRead targetFile)
      (minisign.verify publicKey target signature false).mapError
        fun error => "signature verification failed: ".toList ++ error
  | _ =>
      .error "usage: luminosity-verify <pubkey> <signature> <target>".toList

/-- The bytes of a signature file sign a target under those of a key file. -/
def Signs (publicKeyBytes signatureBytes target : Bytes) : Prop :=
  ∃ publicKeyText publicKey signatureText signature,
    decode publicKeyBytes = some publicKeyText ∧
      parsePublicKey minisign publicKeyText = .ok publicKey ∧
        decode signatureBytes = some signatureText ∧
          minisign.decode signatureText = .ok signature ∧
            minisign.verify publicKey target signature false = .ok ()

variable {minisign readFile}

theorem mapError_ok_iff
    {α : Type} {result : Except Text α} {describe : Text → Text}
    {value : α} :
    result.mapError describe = .ok value ↔ result = .ok value := by
  cases result with
  | ok other => rfl
  | error error => simp [Except.mapError]

theorem read_ok_iff (path text : Text) :
    read readFile path = .ok text ↔
      ∃ bytes, readFile path = .ok bytes ∧ decode bytes = some text := by
  rw [read, except_bind_ok]
  simp only [mapError_ok_iff]
  constructor
  · rintro ⟨bytes, present, decoded⟩
    refine ⟨bytes, present, ?_⟩
    cases whole : decode bytes with
    | none => simp [whole] at decoded
    | some other => simpa [whole] using decoded
  · rintro ⟨bytes, present, decoded⟩
    refine ⟨bytes, present, ?_⟩
    rw [decoded]

/-- The shim succeeds exactly on a target which the signature signs. -/
theorem run_ok_iff (publicKeyFile signatureFile targetFile : Text) :
    run minisign readFile [publicKeyFile, signatureFile, targetFile] =
        .ok () ↔
      ∃ publicKeyBytes signatureBytes target,
        readFile publicKeyFile = .ok publicKeyBytes ∧
          readFile signatureFile = .ok signatureBytes ∧
            readFile targetFile = .ok target ∧
              Signs minisign publicKeyBytes signatureBytes target := by
  simp only [run, except_bind_ok, read_ok_iff, mapError_ok_iff]
  constructor
  · rintro ⟨publicKeyText, ⟨publicKeyBytes, keyFile, keyDecoded⟩,
      publicKey, parsed, signatureText,
      ⟨signatureBytes, signatureRead, signatureDecoded⟩, signature, isSignature,
      target, targetRead, verified⟩
    exact ⟨publicKeyBytes, signatureBytes, target, keyFile, signatureRead,
      targetRead, publicKeyText, publicKey, signatureText, signature,
      keyDecoded, parsed, signatureDecoded, isSignature, verified⟩
  · rintro ⟨publicKeyBytes, signatureBytes, target, keyFile, signatureRead,
      targetRead, publicKeyText, publicKey, signatureText, signature,
      keyDecoded, parsed, signatureDecoded, isSignature, verified⟩
    exact ⟨publicKeyText, ⟨publicKeyBytes, keyFile, keyDecoded⟩, publicKey,
      parsed, signatureText,
      ⟨signatureBytes, signatureRead, signatureDecoded⟩, signature,
      isSignature, target, targetRead, verified⟩

end Shim

end Luminosity.Bootstrap.VerifyShim
