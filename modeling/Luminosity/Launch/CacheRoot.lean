import Luminosity.Host.Directories
import Luminosity.Launch.Core

/-!
# The cache root of the launcher

The launcher keeps its cache in the directory which an override names, else
below the plugin root, else in the cache directory of the user.  It probes
each of them, since a directory which cannot be written to, or executed from,
is no use.
-/

namespace Luminosity.Launch.CacheRoot

open Luminosity.Foundation.TextSegments
open Luminosity.Host.Directories
open Luminosity.Launch.Core

/-- The variables which say where a cache may be. -/
structure Environment where
  luminosityCacheDir : Option Bytes
  claudePluginRoot : Option Bytes
  xdgCacheHome : Option Bytes
  home : Option Bytes
deriving DecidableEq, Repr

/-- The systems which are supported. -/
inductive HostOs
  | linux
  | macos
deriving DecidableEq, Repr

structure CacheRootConfig where
  cacheDirOverride : Option Bytes
  pluginRoot : Option Bytes
  xdgCacheHome : Option Bytes
  home : Option Bytes
deriving DecidableEq, Repr

namespace CacheRootConfig

/-- `CacheRootConfig::from_env`: an empty variable is an unset one. -/
def fromEnv (environment : Environment) : CacheRootConfig where
  cacheDirOverride :=
    environment.luminosityCacheDir.filter fun value => !value.isEmpty
  pluginRoot :=
    environment.claudePluginRoot.filter fun value => !value.isEmpty
  xdgCacheHome :=
    environment.xdgCacheHome.filter fun value => !value.isEmpty
  home := environment.home.filter fun value => !value.isEmpty

/-- `CacheRootConfig::xdg_fallback`. -/
def xdgFallback (hostOs : HostOs) (config : CacheRootConfig) :
    Option Bytes :=
  match config.xdgCacheHome with
  | some base => some (join base (encode "luminosity".toList))
  | none =>
      match config.home with
      | none => none
      | some home =>
          match hostOs with
          | .macos =>
              some (join home (encode "Library/Caches/luminosity".toList))
          | .linux => some (join home (encode ".cache/luminosity".toList))

end CacheRootConfig

section Resolve

-- The probe of a directory, which creates it, writes to it and executes.
variable (probeWritableAndExecutable : Directory → Bool)
variable (hostOs : HostOs)

/-- `cache_root::resolve`. -/
def resolve (config : CacheRootConfig) : Except ResolutionError Bytes :=
  match config.cacheDirOverride with
  | some overrideDir =>
      if probeWritableAndExecutable (directory overrideDir) then
        .ok overrideDir
      else
        .error (.cacheRootUnavailable
          ("LUMINOSITY_CACHE_DIR ".toList ++ decodeLossy overrideDir ++
            " is not writable+exec-capable".toList))
  | none =>
      match config.pluginRoot with
      | none =>
          .error (.cacheRootUnavailable
            "CLAUDE_PLUGIN_ROOT is not set".toList)
      | some pluginRoot =>
          let primary := join pluginRoot (encode "bin".toList)
          if probeWritableAndExecutable (directory primary) then
            .ok primary
          else
            match config.xdgFallback hostOs with
            | none =>
                .error (.cacheRootUnavailable
                  ("plugin root is not writable+exec and ".toList ++
                    "no XDG/HOME is set".toList))
            | some fallback =>
                if probeWritableAndExecutable (directory fallback) then
                  .ok fallback
                else
                  .error (.cacheRootUnavailable
                    ("neither the plugin root nor ".toList ++
                      decodeLossy fallback ++
                      " is writable+exec-capable".toList))

end Resolve

end Luminosity.Launch.CacheRoot
