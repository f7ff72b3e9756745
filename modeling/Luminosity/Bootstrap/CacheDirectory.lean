import Mathlib.Data.List.DropRight
import Luminosity.Launch.CacheRoot

/-!
# The cache directory of the bootstrap

The bootstrap chooses its cache directory before there is a launcher, by a
chain of its own: the override, else a directory below the plugin root, else
the cache directory of the user.

Both chains are the search for a first usable candidate.  Their candidates are
the same directories, but for one: without any variable which says where the
user keeps a cache, the launcher has no third candidate, while the bootstrap
expands the unset home to nothing and goes on to a directory below the root of
the file system.

The bootstrap prints its choice and takes it back from the output, which loses
the newlines at its end: an override which ends in one names another directory
there than in the launcher.
-/

namespace Luminosity.Bootstrap.CacheDirectory

open Luminosity.Foundation.TextSegments
open Luminosity.Host.Directories
open Luminosity.Launch.Core
open Luminosity.Launch.CacheRoot

/-! ## The chain of the bootstrap -/

/-- `${NAME:-}`: an unset variable expands to nothing. -/
def expansion (value : Option Bytes) : Bytes :=
  value.getD []

/-- What the fallback below the home is called. -/
def homeSuffix : HostOs → Bytes
  | .macos => encode "/Library/Caches/luminosity".toList
  | .linux => encode "/.cache/luminosity".toList

/-- The end of a line. -/
def newline : UInt8 :=
  10

/-- `printf '%s\n'`: the line which is printed. -/
def printed (path : Bytes) : Bytes :=
  path ++ [newline]

/-- `$(…)`: the output, without the newlines at its end. -/
def substituted (output : Bytes) : Bytes :=
  output.rdropWhile (· == newline)

section ResolveCacheDir

-- The probe of a directory, which creates it, writes to it and executes.
variable (probeDir : Directory → Bool)
variable (hostOs : HostOs)

/-- `resolve_cache_dir`: what it prints, when it succeeds. -/
def resolveCacheDir (environment : Environment) : Option Bytes :=
  if expansion environment.luminosityCacheDir ≠ [] then
    let chosen := expansion environment.luminosityCacheDir
    if probeDir (directory chosen) then some (printed chosen) else none
  else
    let primary :=
      expansion environment.claudePluginRoot ++ encode "/bin".toList
    if probeDir (directory primary) then
      some (printed primary)
    else
      let fallback :=
        if expansion environment.xdgCacheHome ≠ [] then
          expansion environment.xdgCacheHome ++ encode "/luminosity".toList
        else
          expansion environment.home ++ homeSuffix hostOs
      if probeDir (directory fallback) then some (printed fallback)
      else none

/-- `cache_dir=$(resolve_cache_dir)`. -/
def cacheDir (environment : Environment) : Option Bytes :=
  (resolveCacheDir probeDir hostOs environment).map substituted

end ResolveCacheDir

/-! ## What is lost in printing -/

theorem substituted_newline (output : Bytes) :
    substituted (output ++ [newline]) = substituted output :=
  List.rdropWhile_concat_pos _ _ _ (beq_self_eq_true newline)

/-- A path which ends in no newline is printed and taken back. -/
theorem substituted_printed
    {path : Bytes} (ends : path.getLast? ≠ some newline) :
    substituted (printed path) = path := by
  rw [printed, substituted_newline, substituted,
    List.rdropWhile_eq_self_iff]
  intro nonempty isNewline
  apply ends
  rw [List.getLast?_eq_some_getLast nonempty, beq_iff_eq.mp isNewline]

/-- Another path comes back as another directory. -/
theorem directory_substituted
    {path : Bytes} (ends : path.getLast? = some newline) :
    directory (substituted (printed path)) ≠ directory path := by
  rcases List.getLast?_eq_some_iff.mp ends with ⟨front, rfl⟩
  have drops : substituted (printed (front ++ [newline])) =
      substituted front := by
    rw [printed, substituted_newline, substituted_newline]
  have fewer : (substituted front).count newline ≤ front.count newline :=
    (List.rdropWhile_prefix _ _).sublist.count_le newline
  intro same
  have counted := congrArg
    (fun named => named.components.flatten.count newline) same
  simp only [directory] at counted
  rw [count_components _ (by decide) (by decide),
    count_components _ (by decide) (by decide), drops, List.count_append,
    List.count_singleton_self] at counted
  omega

/-! ## Both chains search candidates -/

/-- The candidates of a chain, in order: an override stands alone. -/
def candidates
    (override : Option Directory)
    (primary : Directory)
    (fallback : Option Directory) :
    List Directory :=
  match override with
  | some chosen => [chosen]
  | none => primary :: fallback.toList

/-- The value of the variable, unless it says nothing. -/
def given (value : Option Bytes) : Option Bytes :=
  value.filter fun bytes => !bytes.isEmpty

theorem given_cases (value : Option Bytes) :
    (expansion value = [] ∧ given value = none) ∨
      (expansion value ≠ [] ∧ given value = some (expansion value)) := by
  cases value with
  | none => exact Or.inl ⟨rfl, rfl⟩
  | some bytes =>
      cases bytes with
      | nil => exact Or.inl ⟨rfl, rfl⟩
      | cons head tail => exact Or.inr ⟨List.cons_ne_nil _ _, rfl⟩

/-- The third candidate of the bootstrap. -/
def shellFallback (hostOs : HostOs) (environment : Environment) :
    Directory :=
  match given environment.xdgCacheHome with
  | some base => directory (base ++ encode "/luminosity".toList)
  | none =>
      directory (expansion environment.home ++ homeSuffix hostOs)

/-- The second candidate of the bootstrap. -/
def shellPrimary (environment : Environment) : Directory :=
  directory
    (expansion environment.claudePluginRoot ++ encode "/bin".toList)

/-- A path which is usable is the choice, before what comes later. -/
theorem map_probe
    (usable : Directory → Bool) (path : Bytes)
    {otherwise : Option Bytes} {later : List Directory}
    (others : otherwise.map directory = later.find? usable) :
    (if usable (directory path) then some path else otherwise).map
        directory =
      (directory path :: later).find? usable := by
  rw [List.find?_cons]
  cases usable (directory path) with
  | true => rfl
  | false => exact others

/-- The same, for a path which is printed and taken back. -/
theorem map_substituted
    (usable : Directory → Bool) {path : Bytes}
    (ends : path.getLast? ≠ some newline)
    {otherwise : Option Bytes} {later : List Directory}
    (others :
      (otherwise.map substituted).map directory = later.find? usable) :
    ((if usable (directory path) then some (printed path)
          else otherwise).map substituted).map directory =
      (directory path :: later).find? usable := by
  rw [apply_ite (Option.map substituted), Option.map_some,
    substituted_printed ends]
  exact map_probe usable path others

/-- What is written behind a path decides how it ends. -/
theorem ends_in {suffix : Bytes} (path : Bytes)
    (nonempty : suffix ≠ []) (ends : suffix.getLast? ≠ some newline) :
    (path ++ suffix).getLast? ≠ some newline := by
  rw [List.getLast?_append_of_ne_nil path nonempty]
  exact ends

/-- The override ends in a newline. -/
def EndsInNewline (environment : Environment) : Prop :=
  ∃ override, given environment.luminosityCacheDir = some override ∧
    override.getLast? = some newline

/--
The bootstrap chooses its first usable candidate, unless its override ends in
a newline.
-/
theorem cacheDir_eq
    (usable : Directory → Bool) (hostOs : HostOs)
    {environment : Environment} (kept : ¬ EndsInNewline environment) :
    (cacheDir usable hostOs environment).map directory =
      (candidates ((given environment.luminosityCacheDir).map directory)
        (shellPrimary environment)
        (some (shellFallback hostOs environment))).find? usable := by
  have fallback :
      directory
          (if expansion environment.xdgCacheHome ≠ [] then
            expansion environment.xdgCacheHome ++
              encode "/luminosity".toList
          else
            expansion environment.home ++ homeSuffix hostOs) =
        shellFallback hostOs environment := by
    rcases given_cases environment.xdgCacheHome with
      ⟨empty, absent⟩ | ⟨nonempty, present⟩
    · rw [if_neg (not_not.mpr empty), shellFallback, absent]
    · rw [if_pos nonempty, shellFallback, present]
  have fallbackEnds :
      (if expansion environment.xdgCacheHome ≠ [] then
          expansion environment.xdgCacheHome ++
            encode "/luminosity".toList
        else
          expansion environment.home ++ homeSuffix hostOs).getLast? ≠
        some newline := by
    split_ifs
    · exact ends_in _ (by decide +kernel) (by decide +kernel)
    · cases hostOs with
      | macos => exact ends_in _ (by decide +kernel) (by decide +kernel)
      | linux => exact ends_in _ (by decide +kernel) (by decide +kernel)
  unfold cacheDir resolveCacheDir
  rcases given_cases environment.luminosityCacheDir with
    ⟨empty, absent⟩ | ⟨nonempty, present⟩
  · rw [if_neg (not_not.mpr empty), absent]
    apply map_substituted usable
    · exact ends_in _ (by decide +kernel) (by decide +kernel)
    · rw [← fallback]
      exact map_substituted usable fallbackEnds rfl
  · rw [if_pos nonempty, present]
    apply map_substituted usable
    · exact fun ends => kept ⟨_, present, ends⟩
    · rfl

/-- A result which is an error is no choice. -/
theorem toOption_probe
    (usable : Directory → Bool) (path : Bytes)
    (otherwise : Except ResolutionError Bytes) :
    (if usable (directory path) then .ok path else otherwise).toOption =
      if usable (directory path) then some path
      else otherwise.toOption := by
  split_ifs
  · rfl
  · rfl

/-- The launcher chooses its first usable candidate. -/
theorem resolve_eq
    (usable : Directory → Bool) (hostOs : HostOs)
    (environment : Environment) {pluginRoot : Bytes}
    (rooted :
      given environment.claudePluginRoot = some pluginRoot) :
    (resolve usable hostOs
        (CacheRootConfig.fromEnv environment)).toOption.map directory =
      (candidates ((given environment.luminosityCacheDir).map directory)
        (directory (join pluginRoot (encode "bin".toList)))
        (((CacheRootConfig.fromEnv environment).xdgFallback hostOs).map
          directory)).find? usable := by
  have overrides :
      (CacheRootConfig.fromEnv environment).cacheDirOverride =
        given environment.luminosityCacheDir := rfl
  have roots :
      (CacheRootConfig.fromEnv environment).pluginRoot =
        some pluginRoot := rooted
  rw [resolve, overrides, roots]
  cases given environment.luminosityCacheDir with
  | some chosen =>
      rw [toOption_probe]
      exact map_probe usable chosen rfl
  | none =>
      rw [toOption_probe]
      apply map_probe
      cases (CacheRootConfig.fromEnv environment).xdgFallback hostOs with
      | none => rfl
      | some fallback =>
          rw [toOption_probe]
          exact map_probe usable fallback rfl

/-! ## The candidates of both chains -/

/-- No variable says where the user keeps a cache. -/
def Homeless (environment : Environment) : Prop :=
  given environment.xdgCacheHome = none ∧ given environment.home = none

theorem primary_eq
    {environment : Environment} {pluginRoot : Bytes}
    (rooted :
      given environment.claudePluginRoot = some pluginRoot) :
    directory (join pluginRoot (encode "bin".toList)) =
      shellPrimary environment := by
  rcases given_cases environment.claudePluginRoot with
    ⟨_, absent⟩ | ⟨nonempty, present⟩
  · rw [absent] at rooted
    cases rooted
  · rw [present] at rooted
    cases rooted
    exact directory_join nonempty (by decide +kernel)

/-- The fallbacks are one, when a variable says where the cache is kept. -/
theorem fallback_eq
    (hostOs : HostOs) {environment : Environment}
    (housed : ¬ Homeless environment) :
    ((CacheRootConfig.fromEnv environment).xdgFallback hostOs).map
        directory =
      some (shellFallback hostOs environment) := by
  have caches :
      (CacheRootConfig.fromEnv environment).xdgCacheHome =
        given environment.xdgCacheHome := rfl
  have homes :
      (CacheRootConfig.fromEnv environment).home =
        given environment.home := rfl
  rw [CacheRootConfig.xdgFallback, caches, homes, shellFallback]
  rcases given_cases environment.xdgCacheHome with
    ⟨_, absent⟩ | ⟨nonempty, present⟩
  · rw [absent]
    rcases given_cases environment.home with
      ⟨_, homeAbsent⟩ | ⟨homeNonempty, homePresent⟩
    · exact absurd ⟨absent, homeAbsent⟩ housed
    · rw [homePresent]
      cases hostOs with
      | macos =>
          exact congrArg some
            (directory_join homeNonempty (by decide +kernel))
      | linux =>
          exact congrArg some
            (directory_join homeNonempty (by decide +kernel))
  · rw [present]
    exact congrArg some (directory_join nonempty (by decide +kernel))

/-- Without such a variable the launcher has no fallback. -/
theorem no_fallback
    (hostOs : HostOs) {environment : Environment}
    (homeless : Homeless environment) :
    (CacheRootConfig.fromEnv environment).xdgFallback hostOs = none := by
  have caches :
      (CacheRootConfig.fromEnv environment).xdgCacheHome = none :=
    homeless.1
  have homes :
      (CacheRootConfig.fromEnv environment).home = none := homeless.2
  rw [CacheRootConfig.xdgFallback, caches, homes]

/-- The bootstrap then falls back on a directory below the root. -/
theorem Homeless.shellFallback_eq
    {hostOs : HostOs} {environment : Environment}
    (homeless : Homeless environment) :
    shellFallback hostOs environment =
      directory (homeSuffix hostOs) := by
  rw [shellFallback, homeless.1]
  rcases given_cases environment.home with
    ⟨empty, _⟩ | ⟨_, present⟩
  · rw [empty]
    rfl
  · rw [homeless.2] at present
    cases present

/-! ## Agreement -/

/--
Whatever directory one chain chooses is the directory which the other one
chooses: both succeed with it, or both fail.
-/
def Agree
    (usable : Directory → Bool) (hostOs : HostOs)
    (environment : Environment) : Prop :=
  ∀ chosen : Directory,
    (∃ path,
        cacheDir usable hostOs environment = some path ∧
          directory path = chosen) ↔
      ∃ path,
        resolve usable hostOs (CacheRootConfig.fromEnv environment) =
            .ok path ∧
          directory path = chosen

/--
The environment leaves only the directory below the root of the file system,
and that one is usable.
-/
def FallsToRoot
    (usable : Directory → Bool) (hostOs : HostOs)
    (environment : Environment) : Prop :=
  given environment.luminosityCacheDir = none ∧
    Homeless environment ∧
      usable (shellPrimary environment) = false ∧
        usable (directory (homeSuffix hostOs)) = true

/-- The override ends in a newline, and is usable. -/
def LosesNewline
    (usable : Directory → Bool) (environment : Environment) : Prop :=
  ∃ override, given environment.luminosityCacheDir = some override ∧
    override.getLast? = some newline ∧
      usable (directory override) = true

theorem agree_iff_choices
    (usable : Directory → Bool) (hostOs : HostOs)
    (environment : Environment) :
    Agree usable hostOs environment ↔
      (cacheDir usable hostOs environment).map directory =
        (resolve usable hostOs
          (CacheRootConfig.fromEnv environment)).toOption.map
            directory := by
  have chosen : ∀ (result : Except ResolutionError Bytes) path,
      result.toOption = some path ↔ result = .ok path := by
    intro result path
    cases result with
    | error failure => simp [Except.toOption]
    | ok found => simp [Except.toOption]
  rw [Option.ext_iff]
  simp only [Agree, Option.map_eq_some_iff, chosen]

/-- A further candidate is chosen when it alone is usable. -/
theorem find_more_iff
    (usable : Directory → Bool) (first further : Directory) :
    ([first, further].find? usable = [first].find? usable) ↔
      ¬ (usable first = false ∧ usable further = true) := by
  rw [List.find?_cons, List.find?_singleton, List.find?_singleton]
  cases usable first with
  | true => simp
  | false =>
      cases usable further with
      | true => simp
      | false => simp

/-- With an override both chains are that override. -/
theorem agree_override_iff
    (usable : Directory → Bool) (hostOs : HostOs)
    {environment : Environment} {override : Bytes}
    (present : given environment.luminosityCacheDir = some override) :
    Agree usable hostOs environment ↔
      (usable (directory override) = true →
        directory (substituted (printed override)) =
          directory override) := by
  have expands : expansion environment.luminosityCacheDir = override ∧
      expansion environment.luminosityCacheDir ≠ [] := by
    rcases given_cases environment.luminosityCacheDir with
      ⟨_, absent⟩ | ⟨nonempty, expanded⟩
    · rw [absent] at present
      cases present
    · rw [expanded] at present
      exact ⟨Option.some.inj present, nonempty⟩
  have overrides :
      (CacheRootConfig.fromEnv environment).cacheDirOverride =
        some override := present
  rw [agree_iff_choices, cacheDir, resolveCacheDir, if_pos expands.2,
    expands.1, resolve, overrides]
  cases usable : usable (directory override) with
  | true => simp [usable, Except.toOption]
  | false => simp [usable, Except.toOption]

/--
The bootstrap and the launcher choose the same cache directory exactly when
the environment does not send the bootstrap below the root and no usable
override ends in a newline.
-/
theorem agree_iff
    (usable : Directory → Bool) (hostOs : HostOs)
    (environment : Environment) (pluginRoot : Bytes)
    (isSet : environment.claudePluginRoot = some pluginRoot)
    (nonempty : pluginRoot ≠ []) :
    Agree usable hostOs environment ↔
      ¬ FallsToRoot usable hostOs environment ∧
        ¬ LosesNewline usable environment := by
  have rooted :
      given environment.claudePluginRoot = some pluginRoot := by
    rw [isSet]
    simp [given, nonempty]
  cases overriding : given environment.luminosityCacheDir with
  | some override =>
      have free : ¬ FallsToRoot usable hostOs environment := by
        rintro ⟨absent, _⟩
        rw [overriding] at absent
        cases absent
      rw [agree_override_iff usable hostOs overriding]
      simp only [free, LosesNewline, overriding, not_false_eq_true, true_and,
        Option.some.injEq, exists_eq_left', not_and]
      by_cases ends : override.getLast? = some newline
      · simp only [directory_substituted ends, ends, true_implies]
      · simp only [substituted_printed ends, ends, implies_true,
          false_implies]
  | none =>
      have kept : ¬ EndsInNewline environment := by
        rintro ⟨override, present, _⟩
        rw [overriding] at present
        cases present
      have keeps : ¬ LosesNewline usable environment := by
        rintro ⟨override, present, ends, _⟩
        exact kept ⟨override, present, ends⟩
      rw [and_iff_left keeps, agree_iff_choices,
        cacheDir_eq usable hostOs kept,
        resolve_eq usable hostOs environment rooted, primary_eq rooted,
        overriding]
      by_cases homeless : Homeless environment
      · have falls :
            FallsToRoot usable hostOs environment ↔
              usable (shellPrimary environment) = false ∧
                usable (directory (homeSuffix hostOs)) = true := by
          simp only [FallsToRoot, overriding, homeless, true_and]
        rw [no_fallback hostOs homeless, homeless.shellFallback_eq, falls]
        exact find_more_iff usable _ _
      · rw [fallback_eq hostOs homeless]
        simp only [true_iff]
        rintro ⟨_, falls, _⟩
        exact homeless falls

/-- An environment which says where the plugin is, and nothing else. -/
def bareEnvironment : Environment where
  luminosityCacheDir := none
  claudePluginRoot := some (encode "/opt/plugin".toList)
  xdgCacheHome := none
  home := none

theorem agree_iff_bare :
    Agree (fun _ => true) .linux bareEnvironment ↔
      ¬ FallsToRoot (fun _ => true) .linux bareEnvironment ∧
        ¬ LosesNewline (fun _ => true) bareEnvironment :=
  agree_iff _ _ bareEnvironment (encode "/opt/plugin".toList) rfl
    (by decide +kernel)

/--
In a read-only plugin, without a home, the bootstrap chooses a directory below
the root, and the launcher fails.
-/
theorem bootstrap_leaves_launcher :
    let usable : Directory → Bool := fun chosen =>
      chosen ≠ directory (encode "/opt/plugin/bin".toList)
    cacheDir usable .linux bareEnvironment =
        some (encode "/.cache/luminosity".toList) ∧
      resolve usable .linux (CacheRootConfig.fromEnv bareEnvironment) =
        .error (.cacheRootUnavailable
          ("plugin root is not writable+exec and ".toList ++
            "no XDG/HOME is set".toList)) ∧
        ¬ Agree usable .linux bareEnvironment := by
  intro usable
  have chooses :
      cacheDir usable .linux bareEnvironment =
        some (encode "/.cache/luminosity".toList) := by
    decide +kernel
  have fails :
      resolve usable .linux (CacheRootConfig.fromEnv bareEnvironment) =
        .error (.cacheRootUnavailable
          ("plugin root is not writable+exec and ".toList ++
            "no XDG/HOME is set".toList)) := by
    rfl
  refine ⟨chooses, fails, ?_⟩
  intro agree
  rcases (agree _).mp ⟨_, chooses, rfl⟩ with ⟨path, succeeds, _⟩
  rw [fails] at succeeds
  cases succeeds

end Luminosity.Bootstrap.CacheDirectory
