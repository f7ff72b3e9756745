import Luminosity.Host.Calls

/-!
# The dispatch core

An external command names a binary, and resolving it yields the path of an
executable or one of these errors.
-/

namespace Luminosity.Launch.Core

open Luminosity.Foundation.TextSegments
open Luminosity.Host.Paths
open Luminosity.Host.Calls

/-- The name is consumed for resolution; the arguments are forwarded. -/
structure ExternalCommand where
  name : OsText
  args : List OsText
deriving DecidableEq

inductive ResolutionError where
  | emptyCommand
  | unresolved (name : OsText)
  | fetch (target url : Text)
  | assetNotFound (target url : Text)
  | releaseUnavailable (target url : Text)
  | checksumMismatch (asset expected actual : Text)
  | signatureMismatch (asset : Text)
  | manifestSignature
  /-- A valid signature proves authenticity, not freshness. -/
  | manifestVersionMismatch (expected actual : Text)
  | unsupportedSchema (found supported : UInt64)
  | cache (path : Path) (detail : Text)
  | cacheRootUnavailable (detail : Text)
  | exec (program : Path) (source : IoError)
deriving DecidableEq

def ExternalCommand.fromRaw :
    List OsText → Except ResolutionError ExternalCommand
  | [] => .error .emptyCommand
  | name :: args => .ok { name, args }

def displayResolution : ResolutionError → Text
  | .emptyCommand => "no external subcommand was given".toList
  | .unresolved name =>
      "could not resolve subcommand '".toList ++ name.toStringLossy ++
        "' to a binary".toList
  | .fetch target url =>
      "could not fetch the ".toList ++ target ++ " asset from ".toList ++ url
  | .assetNotFound target url =>
      "no ".toList ++ target ++ " asset published at ".toList ++ url
  | .releaseUnavailable target url =>
      "the release for the ".toList ++ target ++
        " asset is unavailable at ".toList ++ url
  | .checksumMismatch asset expected actual =>
      asset ++ ": sha256 mismatch (expected ".toList ++ expected ++
        ", got ".toList ++ actual ++ ")".toList
  | .signatureMismatch asset =>
      asset ++
        ": minisign signature is not valid for any trusted key".toList
  | .manifestSignature =>
      "the release manifest signature is not valid for any ".toList ++
        "trusted key".toList
  | .manifestVersionMismatch expected actual =>
      "manifest version ".toList ++ actual ++
        " does not match expected ".toList ++ expected
  | .unsupportedSchema found supported =>
      "unsupported manifest schema_version ".toList ++
        decimal found.toNat ++ " (supported up to ".toList ++
          decimal supported.toNat ++ ")".toList
  | .cache path detail =>
      "cache error at ".toList ++ path.display ++ ": ".toList ++ detail
  | .cacheRootUnavailable detail =>
      "no usable cache directory: ".toList ++ detail
  | .exec program source =>
      "failed to exec ".toList ++ program.display ++ ": ".toList ++
        source.detail

end Luminosity.Launch.Core
