import Luminosity.Config.Domain

/-!
# Messages of the configuration core

How keys, levels and errors are displayed.
-/

namespace Luminosity.Config.Messages

open Luminosity.Foundation.TextSegments
open Luminosity.Config.Domain

def displayLevel : Level → Text
  | .team => "team".toList
  | .personal => "personal".toList

def displayKey (key : Key) : Text :=
  ".".toList.intercalate key.segments

def displayExisting : Existing → Text
  | .value => "value".toList
  | .section => "section".toList

def opposite : Existing → Text
  | .value => "section".toList
  | .section => "value".toList

def displayError : ConfigError → Text
  | .notFound key none =>
      "config key '".toList ++ displayKey key ++ "' is not set".toList
  | .notFound key (some level) =>
      "config key '".toList ++ displayKey key ++
        "' is not set at level '".toList ++ displayLevel level ++ "'".toList
  | .pathConflict key at_ existing =>
      "cannot set '".toList ++ displayKey key ++ "': '".toList ++ at_ ++
        "' is a ".toList ++ displayExisting existing ++ ", not a ".toList ++
          opposite existing
  | .malformedFrontmatter path detail =>
      "config file '".toList ++ path ++
        "' has malformed frontmatter: ".toList ++ detail
  | .io path detail =>
      "I/O error on config file '".toList ++ path ++ "': ".toList ++ detail
  | .invalidKey key =>
      "invalid config key '".toList ++ key ++
        "': expected dot-separated non-empty segments".toList
  | .invalidSkillName name =>
      "invalid skill name '".toList ++ name ++
        "': expected non-empty alphanumeric, '-', or '_'".toList
  | .unsafePath path =>
      "refused to read '".toList ++ path ++
        "': it resolves outside the .luminosity directory".toList

end Luminosity.Config.Messages
