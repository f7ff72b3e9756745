import Luminosity.Foundation.LineBreaks
import Luminosity.Tasks.Github

/-!
# The link gate of darwin binaries

The gate reads what `otool -L` prints: a header, and a line for each library
the binary links.  It is meant to pass a binary only when each library is one
the system provides.  It looks at absolute names alone: a library named
relative to the run path passes.
-/

namespace Luminosity.Tasks.LinkGate

open Luminosity.Foundation.TextSegments
open Luminosity.Foundation.LineBreaks
open Luminosity.Tasks.Github (isSpace strip)

/-! ## The gate -/

def systemLibraryPrefixes : List Text :=
  ["/usr/lib/".toList, "/System/Library/".toList]

/-- `token.startswith(_SYSTEM_LIBRARY_PREFIXES)`. -/
def isSystemLibrary (token : Text) : Bool :=
  systemLibraryPrefixes.any fun start => start.isPrefixOf token

/-- `line.strip().split(" ", 1)[0]`. -/
def firstToken (line : Text) : Text :=
  (strip line).takeWhile fun character => character ≠ ' '

/-- `not token.startswith("/") or token.endswith(":")`. -/
def isSkipped (token : Text) : Bool :=
  !"/".toList.isPrefixOf token || ":".toList.isSuffixOf token

/-- `links_only_system_libraries`. -/
def linksOnlySystemLibraries (linkOutput : Text) : Bool :=
  let nonSystem := (splitlines linkOutput).foldl
    (fun nonSystem line =>
      let token := firstToken line
      if isSkipped token then
        nonSystem
      else if !isSystemLibrary token then
        nonSystem ++ [token]
      else
        nonSystem)
    []
  nonSystem.isEmpty

/-- The gate turns a binary away for this token. -/
def isBlamed (token : Text) : Bool :=
  !isSkipped token && !isSystemLibrary token

/-- The loop collects the tokens which are blamed. -/
theorem linksOnlySystemLibraries_iff (linkOutput : Text) :
    linksOnlySystemLibraries linkOutput = true ↔
      ∀ line ∈ splitlines linkOutput, isBlamed (firstToken line) = false := by
  have collected (lines : List Text) (before : List Text) :
      lines.foldl
          (fun nonSystem line =>
            let token := firstToken line
            if isSkipped token then
              nonSystem
            else if !isSystemLibrary token then
              nonSystem ++ [token]
            else
              nonSystem)
          before =
        before ++ (lines.map firstToken).filter isBlamed := by
    induction lines generalizing before with
    | nil => rw [List.foldl_nil, List.map_nil, List.filter_nil,
        List.append_nil]
    | cons line lines induction =>
        rw [List.foldl_cons, induction, List.map_cons,
          List.filter_cons]
        cases skipped : isSkipped (firstToken line) <;>
          cases system : isSystemLibrary (firstToken line) <;>
            simp [isBlamed, skipped, system]
  rw [linksOnlySystemLibraries, collected, List.nil_append,
    List.isEmpty_iff, List.filter_eq_nil_iff]
  simp only [List.mem_map, forall_exists_index, and_imp,
    forall_apply_eq_imp_iff₂, Bool.not_eq_true]

/-! ## What the tools print -/

/-- A library as a binary names it, with its versions. -/
structure Dylib where
  installName : Text
  versions : Text
  named : installName ≠ []
  unspaced : ∀ character ∈ installName, isSpace character = false
  unbroken : Unbroken versions

/-- The line before the libraries. -/
structure Header where
  line : Text
  unbroken : Unbroken line
  colon : ":".toList <:+ line

/-- The line of a library. -/
def Dylib.line (dylib : Dylib) : Text :=
  '\t' :: (dylib.installName ++ ' ' :: '(' :: (dylib.versions ++ [')']))

/-- The whole output, one line for each library. -/
def printed (header : Header) (dylibs : List Dylib) : Text :=
  (header.line :: dylibs.map Dylib.line).flatMap fun line => line ++ ['\n']

/-- Line breaks are white space. -/
theorem isLineBreak_of_unspaced
    {character : Char}
    (unspaced : isSpace character = false) :
    isLineBreak character = false := by
  simp only [isSpace, Bool.or_eq_false_iff, Bool.and_eq_false_iff,
    decide_eq_false_iff_not] at unspaced
  simp only [isLineBreak, Bool.or_eq_false_iff, Bool.and_eq_false_iff,
    decide_eq_false_iff_not]
  omega

theorem Dylib.unbroken_line (dylib : Dylib) :
    Unbroken dylib.line := by
  intro character member
  rw [Dylib.line, List.mem_cons, List.mem_append, List.mem_cons,
    List.mem_cons, List.mem_append, List.mem_singleton] at member
  rcases member with rfl | inName | rfl | rfl | inVersions | rfl
  · rfl
  · exact isLineBreak_of_unspaced (dylib.unspaced character inName)
  · rfl
  · rfl
  · exact dylib.unbroken character inVersions
  · rfl

/-- The first word of the line of a library is its name. -/
theorem firstToken_line (dylib : Dylib) :
    firstToken dylib.line = dylib.installName := by
  have stripped :
      strip dylib.line =
        dylib.installName ++ ' ' :: '(' :: (dylib.versions ++ [')']) := by
    cases installName : dylib.installName with
    | nil => exact absurd installName dylib.named
    | cons first rest =>
        have visible : isSpace first = false :=
          dylib.unspaced first (by rw [installName]; exact List.mem_cons_self)
        have ends :
            (first :: rest) ++ ' ' :: '(' :: (dylib.versions ++ [')']) =
              ((first :: rest) ++ ' ' :: '(' :: dylib.versions) ++ [')'] := by
          simp
        rw [strip, Dylib.line, installName, List.dropWhile_cons_of_pos
          (show isSpace '\t' = true from rfl), List.cons_append,
          List.dropWhile_cons_of_neg (by rw [visible]; simp),
          ← List.cons_append, ends, List.reverse_concat,
          List.dropWhile_cons_of_neg (by decide), ← List.reverse_concat,
          List.reverse_reverse]
  have noSpace : ∀ character ∈ dylib.installName,
      decide (character ≠ ' ') = true := by
    intro character member
    rw [decide_eq_true_eq]
    rintro rfl
    cases dylib.unspaced ' ' member
  rw [firstToken, stripped, List.takeWhile_append_of_pos noSpace,
    List.takeWhile_cons_of_neg (by decide), List.append_nil]

/-- The gate passes what is printed when nothing in it is blamed. -/
theorem linksOnlySystemLibraries_printed
    (header : Header)
    (dylibs : List Dylib) :
    linksOnlySystemLibraries (printed header dylibs) = true ↔
      isBlamed (firstToken header.line) = false ∧
        ∀ dylib ∈ dylibs, isBlamed dylib.installName = false := by
  have unbroken : ∀ line ∈ header.line :: dylibs.map Dylib.line,
      Unbroken line := by
    intro line member
    rcases List.mem_cons.mp member with rfl | listed
    · exact header.unbroken
    · rcases List.mem_map.mp listed with ⟨dylib, _, rfl⟩
      exact dylib.unbroken_line
  rw [linksOnlySystemLibraries_iff, printed, splitlines_flatMap unbroken,
    List.forall_mem_cons, List.forall_mem_map]
  simp only [firstToken_line]

/-! ## When the gate tells the system's libraries from others -/

/-- A name which is not of the system, and which the gate does not look at. -/
def Overlooked (name : Text) : Prop :=
  isSystemLibrary name = false ∧ isSkipped name = true

/-- A name which is not of the system is blamed or overlooked. -/
theorem blamed_or_overlooked
    {name : Text}
    (foreign : isSystemLibrary name = false) :
    isBlamed name = true ∨ Overlooked name := by
  cases skipped : isSkipped name with
  | false => exact .inl (by rw [isBlamed, skipped, foreign]; rfl)
  | true => exact .inr ⟨foreign, skipped⟩

/-- A name which is blamed is not of the system. -/
theorem isSystemLibrary_of_blamed
    {name : Text}
    (blamed : isBlamed name = true) :
    isSystemLibrary name = false := by
  rw [isBlamed, Bool.and_eq_true, Bool.not_eq_true'] at blamed
  exact Bool.not_eq_true' _ ▸ blamed.2

section Libraries

variable {header : Header} {dylibs : List Dylib}

/-- A binary with a foreign library is refused when something is blamed. -/
theorem refused_iff_of_foreign
    (foreign :
      ∃ dylib ∈ dylibs, isSystemLibrary dylib.installName = false) :
    (isBlamed (firstToken header.line) = true ∨
        ∃ dylib ∈ dylibs, isBlamed dylib.installName = true) ↔
      ((∃ dylib ∈ dylibs, Overlooked dylib.installName) →
        isBlamed (firstToken header.line) = true ∨
          ∃ dylib ∈ dylibs, isBlamed dylib.installName = true) := by
  constructor
  · intro refused _
    exact refused
  · intro notice
    rcases foreign with ⟨dylib, member, foreign⟩
    rcases blamed_or_overlooked foreign with blamed | overlooked
    · exact .inr ⟨dylib, member, blamed⟩
    · exact notice ⟨dylib, member, overlooked⟩

/-- Libraries of the system are neither blamed nor overlooked. -/
theorem unnoticed_of_system
    (system :
      ∀ dylib ∈ dylibs, isSystemLibrary dylib.installName = true) :
    (¬∃ dylib ∈ dylibs, isBlamed dylib.installName = true) ∧
      ¬∃ dylib ∈ dylibs, Overlooked dylib.installName := by
  constructor
  · rintro ⟨dylib, member, blamed⟩
    cases (system dylib member).symm.trans (isSystemLibrary_of_blamed blamed)
  · rintro ⟨dylib, member, overlooked, _⟩
    cases (system dylib member).symm.trans overlooked

theorem passes_iff_not_refused :
    linksOnlySystemLibraries (printed header dylibs) = true ↔
      ¬(isBlamed (firstToken header.line) = true ∨
        ∃ dylib ∈ dylibs, isBlamed dylib.installName = true) := by
  rw [linksOnlySystemLibraries_printed, not_or, Bool.not_eq_true]
  simp only [not_exists, not_and, Bool.not_eq_true]

end Libraries

/--
The gate passes exactly the binaries which link libraries of the system alone
when the header is not taken for a foreign library, unless there is one; and
no library is overlooked, unless another line is blamed.
-/
theorem links_only_system_iff
    (header : Header)
    (dylibs : List Dylib) :
    (linksOnlySystemLibraries (printed header dylibs) = true ↔
        ∀ dylib ∈ dylibs, isSystemLibrary dylib.installName = true) ↔
      (isBlamed (firstToken header.line) = true →
          ∃ dylib ∈ dylibs, isSystemLibrary dylib.installName = false) ∧
        ((∃ dylib ∈ dylibs, Overlooked dylib.installName) →
          isBlamed (firstToken header.line) = true ∨
            ∃ dylib ∈ dylibs, isBlamed dylib.installName = true) := by
  rw [passes_iff_not_refused]
  by_cases system :
      ∀ dylib ∈ dylibs, isSystemLibrary dylib.installName = true
  · rcases unnoticed_of_system system with ⟨noneBlamed, noneOverlooked⟩
    have noneForeign :
        ¬∃ dylib ∈ dylibs, isSystemLibrary dylib.installName = false := by
      rintro ⟨dylib, member, foreign⟩
      cases (system dylib member).symm.trans foreign
    rw [iff_true_right system, or_iff_left noneBlamed]
    constructor
    · intro passed
      exact ⟨fun blamed => absurd blamed passed,
        fun overlooked => absurd overlooked noneOverlooked⟩
    · rintro ⟨notBlamed, _⟩ blamed
      exact noneForeign (notBlamed blamed)
  · have foreign :
        ∃ dylib ∈ dylibs, isSystemLibrary dylib.installName = false := by
      simpa only [not_forall, exists_prop, Bool.not_eq_true] using system
    rw [iff_false_right system, not_not, and_iff_right fun _ => foreign]
    exact refused_iff_of_foreign foreign

/-- A library which is found on the run path passes. -/
theorem run_path_library_passes :
    ∃ (header : Header) (dylibs : List Dylib),
      ¬(linksOnlySystemLibraries (printed header dylibs) = true ↔
        ∀ dylib ∈ dylibs, isSystemLibrary dylib.installName = true) := by
  let header : Header :=
    { line := "luminosity-darwin-arm64:".toList
      unbroken := forall_eq_false_of_any (by decide)
      colon := by decide }
  let dylib : Dylib :=
    { installName := "@rpath/libfoo.dylib".toList
      versions := "compatibility version 1.0.0".toList
      named := by decide
      unspaced := forall_eq_false_of_any (by decide)
      unbroken := forall_eq_false_of_any (by decide) }
  refine ⟨header, [dylib], ?_⟩
  rw [linksOnlySystemLibraries_printed]
  simp only [List.forall_mem_singleton]
  decide

end Luminosity.Tasks.LinkGate
