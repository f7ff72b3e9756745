import Luminosity.Launch.Verifier
import Luminosity.Bootstrap.VerifyShim

/-!
# Key files

The launcher parses the public keys it trusts from the files of the release
keys.  The verify shim parses one such file for itself, with other code, and
checks the launcher under it before the launcher runs.  Both come to the same
verdict, so whatever the one accepts under a key file is accepted by the other
when it trusts that file, and a key can be added before another is withdrawn.
-/

namespace Luminosity.Launch.KeyFiles

open Luminosity.Foundation.TextSegments
open Luminosity.Foundation.EffectPrograms
open Luminosity.Launch.Core
open Luminosity.Launch.Verifier
open Luminosity.Bootstrap.VerifyShim

variable {libraries : Libraries}

-- How the linked library parses a public key.
variable (fromBase64 : Text → Except Text libraries.PublicKey)

/-- The base64 line of a key file. -/
def keyLine (content : Text) : Except ResolutionError Text :=
  let line := (lines content).find? fun line =>
    !"untrusted comment".toList.isPrefixOf (trimStart line)
  match (line.map trim).filter fun line => !line.isEmpty with
  | none =>
      .error (.cacheRootUnavailable
        "trusted public key has no key line".toList)
  | some base64 => .ok base64

def keyOf (content : Text) :
    Except ResolutionError libraries.PublicKey := do
  let base64 ← keyLine content
  (fromBase64 base64).mapError fun error =>
    .cacheRootUnavailable ("invalid trusted public key: ".toList ++ error)

/-- The loop of `from_public_key_files`. -/
def keysOf :
    List Text → Except ResolutionError (List libraries.PublicKey)
  | [] => .ok []
  | content :: contents => do
      let key ← keyOf fromBase64 content
      let keys ← keysOf contents
      return key :: keys

def fromPublicKeyFiles (contents : List Text) :
    Except ResolutionError (TrustedKeys libraries) := do
  let keys ← keysOf fromBase64 contents
  return { keys }

/-- The library the shim links is the one the launcher links. -/
abbrev shimLibrary : Minisign where
  PublicKey := libraries.PublicKey
  Signature := libraries.Signature
  fromBase64
  decode := libraries.decodeSignature
  verify := libraries.verify

variable {fromBase64}

/-! ## One key file -/

/-- The launcher and the shim parse a file to the same key. -/
theorem keyOf_ok_iff (content : Text) (key : libraries.PublicKey) :
    keyOf fromBase64 content = .ok key ↔
      parsePublicKey (shimLibrary fromBase64) content = .ok key := by
  rw [keyOf, except_bind_ok, keyLine, parsePublicKey]
  cases (((lines content).find? fun line =>
      !"untrusted comment".toList.isPrefixOf (trimStart line)).map
        trim).filter fun line => !line.isEmpty with
  | none => simp
  | some base64 =>
      simp only [Except.ok.injEq, exists_eq_left']
      cases fromBase64 base64 with
      | error error => simp [Except.mapError]
      | ok other => simp [Except.mapError]

/-- A key verifies what the shim accepts under its file. -/
theorem signs_iff {content : Text} {key : libraries.PublicKey}
    (parsed : keyOf fromBase64 content = .ok key)
    (signature : Text) (data : Bytes) :
    Signs (shimLibrary fromBase64) (encode content) (encode signature) data ↔
      ∃ decoded, libraries.decodeSignature signature = .ok decoded ∧
        libraries.verify key data decoded false = .ok () := by
  have shimParsed := (keyOf_ok_iff content key).mp parsed
  constructor
  · rintro ⟨keyText, publicKey, signatureText, decoded, keyDecoded,
      keyParsed, signatureDecoded, isSignature, verified⟩
    rw [decode_encode] at keyDecoded signatureDecoded
    cases keyDecoded
    cases signatureDecoded
    rw [shimParsed] at keyParsed
    cases keyParsed
    exact ⟨decoded, isSignature, verified⟩
  · rintro ⟨decoded, isSignature, verified⟩
    exact ⟨content, key, signature, decoded, decode_encode content,
      shimParsed, decode_encode signature, isSignature, verified⟩

/-! ## All of them -/

theorem verifies_iff (trusted : TrustedKeys libraries) (data : Bytes)
    (signature : Text) :
    trusted.verifies data signature = true ↔
      ∃ key ∈ trusted.keys, ∃ decoded,
        libraries.decodeSignature signature = .ok decoded ∧
          libraries.verify key data decoded false = .ok () := by
  rw [TrustedKeys.verifies]
  cases libraries.decodeSignature signature with
  | error error => simp
  | ok decoded =>
      simp only [List.any_eq_true, Except.ok.injEq, exists_eq_left']
      constructor
      · rintro ⟨key, member, passes⟩
        refine ⟨key, member, ?_⟩
        cases outcome : libraries.verify key data decoded false with
        | error error =>
            rw [outcome] at passes
            cases passes
        | ok _ => rfl
      · rintro ⟨key, member, verified⟩
        refine ⟨key, member, ?_⟩
        rw [verified]
        rfl

/-- The keys are those of the files, in order. -/
theorem keysOf_ok_iff (contents : List Text)
    (keys : List libraries.PublicKey) :
    keysOf fromBase64 contents = .ok keys ↔
      List.Forall₂ (fun content key => keyOf fromBase64 content = .ok key)
        contents keys := by
  induction contents generalizing keys with
  | nil =>
      rw [keysOf, List.forall₂_nil_left_iff, Except.ok.injEq]
      exact eq_comm
  | cons content contents induction =>
      rw [keysOf, except_bind_ok]
      constructor
      · rintro ⟨key, parsed, rest⟩
        rcases except_bind_ok.mp rest with ⟨others, parsedRest, same⟩
        cases same
        exact .cons parsed ((induction others).mp parsedRest)
      · rintro (_ | ⟨parsed, rest⟩)
        refine ⟨_, parsed, except_bind_ok.mpr ⟨_, ?_, rfl⟩⟩
        exact (induction _).mpr rest

theorem exists_keysOf_iff (contents : List Text) :
    (∃ keys, keysOf fromBase64 contents = .ok keys) ↔
      ∀ content ∈ contents, ∃ key, keyOf fromBase64 content = .ok key := by
  induction contents with
  | nil => simp [keysOf]
  | cons content contents induction =>
      rw [List.forall_mem_cons, ← induction]
      simp only [keysOf_ok_iff, List.forall₂_cons_left_iff]
      constructor
      · rintro ⟨_, key, keys, parsed, rest, _⟩
        exact ⟨⟨key, parsed⟩, keys, rest⟩
      · rintro ⟨⟨key, parsed⟩, keys, rest⟩
        exact ⟨_, key, keys, parsed, rest, rfl⟩

theorem exists_keyOf_verifies_iff {contents : List Text}
    {trusted : TrustedKeys libraries}
    (parsed : fromPublicKeyFiles fromBase64 contents = .ok trusted)
    (data : Bytes) (signature : Text) :
    trusted.verifies data signature = true ↔
      ∃ content ∈ contents,
        Signs (shimLibrary fromBase64) (encode content) (encode signature)
          data := by
  rcases except_bind_ok.mp parsed with ⟨keys, found, same⟩
  cases same
  have matched := (keysOf_ok_iff contents keys).mp found
  rw [verifies_iff]
  clear found parsed
  show (∃ key ∈ keys, _) ↔ _
  induction matched with
  | nil => simp
  | cons head _ induction =>
      simp only [List.mem_cons, exists_eq_or_imp]
      rw [induction, signs_iff head]

/--
The launcher accepts a set of key files exactly when the shim can parse each
of them, and then trusts exactly what the shim accepts under one of them.
-/
theorem trusts_as_shim (contents : List Text) :
    ((∃ trusted, fromPublicKeyFiles fromBase64 contents = .ok trusted) ↔
        ∀ content ∈ contents, ∃ key,
          parsePublicKey (shimLibrary fromBase64) content = .ok key) ∧
      ∀ trusted, fromPublicKeyFiles fromBase64 contents = .ok trusted →
        ∀ data signature, trusted.verifies data signature = true ↔
          ∃ content ∈ contents,
            Signs (shimLibrary fromBase64) (encode content)
              (encode signature) data := by
  constructor
  · have each := @exists_keysOf_iff libraries fromBase64 contents
    simp only [keyOf_ok_iff] at each
    rw [← each]
    constructor
    · rintro ⟨trusted, parsed⟩
      rcases except_bind_ok.mp parsed with ⟨keys, found, _⟩
      exact ⟨keys, found⟩
    · rintro ⟨keys, found⟩
      exact ⟨{ keys }, except_bind_ok.mpr ⟨keys, found, rfl⟩⟩
  · intro trusted parsed data signature
    exact exists_keyOf_verifies_iff parsed data signature

end Luminosity.Launch.KeyFiles
