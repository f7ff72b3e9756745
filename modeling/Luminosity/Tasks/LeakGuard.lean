import Luminosity.Foundation.LineBreaks

/-!
# The leak guard

Before the version bump is committed with a blanket `git add .`, the guard
looks for the names of signing secrets and staged binaries in what `git status
--porcelain` prints.  Git prints a directory which holds no tracked file as one
line, so the guard does not see the names of the files within, while `git add
.` stages them.
-/

namespace Luminosity.Tasks.LeakGuard

open Luminosity.Foundation.TextSegments
open Luminosity.Foundation.LineBreaks

/-! ## The guard -/

def artifactMarkers : List Text :=
  [".key".toList, "cli/launcher/bin/luminosity-".toList,
    "manifest.minisig".toList]

structure RuntimeError where
  message : Text
deriving DecidableEq, Repr

/-- `any(marker in line for marker in _ARTIFACT_MARKERS)`. -/
def isOffender (line : Text) : Bool :=
  artifactMarkers.any fun marker => occursIn marker line

/-- `no_leaked_artifacts`, over what `git status --porcelain` prints. -/
def noLeakedArtifacts (stdout : Text) : Except RuntimeError Unit :=
  let offenders := (splitlines stdout).filter isOffender
  if offenders = [] then
    .ok ()
  else
    .error
      { message :=
          "refusing to commit: a signing secret or staged binary ".toList
            ++ "would be swept into the version-bump commit:\n".toList
            ++ "\n".toList.intercalate offenders }

/-- A text names a secret or a staged binary. -/
def Marked (text : Text) : Prop :=
  ∃ marker ∈ artifactMarkers, marker <:+: text

theorem isOffender_iff {line : Text} :
    isOffender line = true ↔ Marked line := by
  simp only [isOffender, List.any_eq_true, occursIn_iff, Marked]

/-! ## What git prints and stages -/

/-- The escapes which are a letter. -/
def letterEscapes : List (Char × Char) :=
  [('\x07', 'a'), ('\x08', 'b'), ('\t', 't'), ('\n', 'n'), ('\x0b', 'v'),
    ('\x0c', 'f'), ('\r', 'r'), ('"', '"'), ('\\', '\\')]

/-- The escape of a byte. -/
def octal (byte : UInt8) : Text :=
  ['\\', Nat.digitChar (byte.toNat / 64 % 8),
    Nat.digitChar (byte.toNat / 8 % 8), Nat.digitChar (byte.toNat % 8)]

/-- `core.quotePath` decides whether what is not ASCII is escaped. -/
def escapeChar (quotePath : Bool) (character : Char) : Text :=
  match letterEscapes.lookup character with
  | some letter => ['\\', letter]
  | none =>
      let code := character.toNat
      if code < 0x20 || code = 0x7F || (quotePath && 0x80 ≤ code) then
        (encode [character]).flatMap octal
      else
        [character]

/-- A path as git prints it, in quotes where it needs them. -/
def quoted (quotePath : Bool) (path : Text) : Text :=
  let escaped := path.flatMap (escapeChar quotePath)
  if escaped = path ∧ ' ' ∉ path then
    path
  else
    '"' :: (escaped ++ ['"'])

/-- The names on the way from the root of the repository to a file. -/
abbrev TreePath := List Text

def display (path : TreePath) : Text :=
  "/".toList.intercalate path

/-- A tracked file which differs from what is committed. -/
structure Change where
  staged : Char
  unstaged : Char
  /-- What a renamed file was called. -/
  origin : Option TreePath
  path : TreePath
deriving DecidableEq, Repr

structure WorkingTree where
  tracked : List TreePath
  changes : List Change
  untracked : List TreePath
  ignored : TreePath → Bool
  apart : ∀ path ∈ untracked, path ∉ tracked

/-- The directories a file lies in, from the topmost one down. -/
def directories (path : TreePath) : List TreePath :=
  ((List.range path.length).drop 1).map fun depth => path.take depth

namespace WorkingTree

variable (tree : WorkingTree)

/-- The untracked files which `git add .` stages. -/
def added : List TreePath :=
  tree.untracked.filter fun path => !tree.ignored path

/-- The topmost directory with an untracked file and without tracked ones. -/
def whollyUntracked (path : TreePath) : Option TreePath :=
  (directories path).find? fun directory =>
    tree.tracked.all fun other => !directory.isPrefixOf other

/-- What stands for an untracked file: itself, or a directory it lies in. -/
def entry (path : TreePath) : Text :=
  match tree.whollyUntracked path with
  | some directory => display directory ++ ['/']
  | none => display path

/-- What stands for the untracked files, each once. -/
def entries : List Text :=
  (tree.added.map tree.entry).eraseDups

/-- The paths which are printed. -/
def reported : List Text :=
  (tree.changes.flatMap fun change =>
      change.origin.toList.map display ++ [display change.path])
    ++ tree.entries

/-- The line of a changed file. -/
def changeLine (quotePath : Bool) (change : Change) : Text :=
  let renamedFrom := match change.origin with
    | some origin => quoted quotePath (display origin) ++ " -> ".toList
    | none => []
  [change.staged, change.unstaged] ++ ' ' ::
    (renamedFrom ++ quoted quotePath (display change.path))

/-- The line of an untracked file or directory. -/
def entryLine (quotePath : Bool) (entry : Text) : Text :=
  ['?', '?'] ++ ' ' :: quoted quotePath entry

/-- `git status --porcelain`. -/
def porcelain (quotePath : Bool) : Text :=
  (tree.changes.map (changeLine quotePath)
      ++ tree.entries.map (entryLine quotePath)).flatMap fun line =>
    line ++ ['\n']

/-- The paths `git add .` stages. -/
def stagedPaths : List TreePath :=
  (tree.changes.flatMap fun change =>
      change.origin.toList ++ [change.path])
    ++ tree.added

end WorkingTree

/-! ## Markers in what is printed -/

/-- The characters of escapes. -/
def isEscapeCode (character : Char) : Bool :=
  "\\\"abtnvfr01234567".toList.contains character

theorem isEscapeCode_of_mem_octal
    {bytes : Bytes} {part : Char}
    (member : part ∈ bytes.flatMap octal) :
    isEscapeCode part = true := by
  have digits : ∀ digit : Fin 8,
      isEscapeCode (Nat.digitChar digit) = true := by decide
  rcases List.mem_flatMap.mp member with ⟨byte, _, within⟩
  simp only [octal, List.mem_cons, List.not_mem_nil, or_false] at within
  rcases within with rfl | rfl | rfl | rfl
  · rfl
  · exact digits ⟨_, Nat.mod_lt _ (Nat.zero_lt_succ 7)⟩
  · exact digits ⟨_, Nat.mod_lt _ (Nat.zero_lt_succ 7)⟩
  · exact digits ⟨_, Nat.mod_lt _ (Nat.zero_lt_succ 7)⟩

theorem escaping_escapeChar (quotePath : Bool) :
    Escaping (escapeChar quotePath)
      (fun character => isEscapeCode character = true) := by
  intro character
  rw [escapeChar]
  cases found : letterEscapes.lookup character with
  | some letter =>
      rcases List.lookup_eq_some_iff.mp found with ⟨_, _, listed, _⟩
      have member : (character, letter) ∈ letterEscapes := by
        rw [listed]
        exact List.mem_append_right _ List.mem_cons_self
      have letters : ∀ escape ∈ letterEscapes,
          isEscapeCode escape.2 = true := by decide
      refine .inr ⟨[letter], rfl, ?_⟩
      intro part isLetter
      rw [List.mem_singleton.mp isLetter]
      exact letters _ member
  | none =>
      dsimp only
      split
      · rcases encodeChar_sequence character with
          ⟨lead, tail, _, encoded, _⟩
        have bytes : encode [character] = lead :: tail := by
          rw [encode, List.flatMap_singleton, encoded]
        right
        refine ⟨(octal lead).tail ++ tail.flatMap octal, ?_, ?_⟩
        · rw [bytes, List.flatMap_cons]
          rfl
        · intro part member
          refine @isEscapeCode_of_mem_octal (lead :: tail) part ?_
          rw [List.flatMap_cons]
          rcases List.mem_append.mp member with first | later
          · exact List.mem_append_left _ (List.mem_of_mem_tail first)
          · exact List.mem_append_right _ later
      · left
        refine ⟨rfl, ?_⟩
        rintro rfl
        cases found

/-- What a marker has in common with the others. -/
structure Marker (marker : Text) : Prop where
  unbroken : Unbroken marker
  noBlank : ' ' ∉ marker
  noQuote : '"' ∉ marker
  noBackslash : '\\' ∉ marker
  verbatim : ∀ quotePath, ∀ character ∈ marker,
    escapeChar quotePath character = [character]
  long : 2 < marker.length
  start : ∀ first ∈ marker.head?, isEscapeCode first = false

theorem marker_of_mem :
    ∀ marker ∈ artifactMarkers, Marker marker := by
  have verbatim {marker : Text}
      (checked : ∀ quotePath,
        (marker.all fun character =>
          escapeChar quotePath character == [character]) = true) :
      ∀ quotePath, ∀ character ∈ marker,
        escapeChar quotePath character = [character] := by
    intro quotePath character member
    exact eq_of_beq
      (List.all_eq_true.mp (checked quotePath) character member)
  have start {marker : Text} {first : Char}
      (checked : isEscapeCode first = false) :
      ∀ other ∈ (first :: marker).head?, isEscapeCode other = false := by
    rintro other ⟨⟩
    exact checked
  simp only [artifactMarkers, List.forall_mem_cons]
  refine ⟨?_, ?_, ?_, fun _ none => by cases none⟩ <;>
    exact
      { unbroken := forall_eq_false_of_any (by decide)
        noBlank := by decide
        noQuote := by decide
        noBackslash := by decide
        verbatim := verbatim (by decide)
        long := by decide
        start := start (by decide) }

section Occurrences

variable {marker : Text} (marks : Marker marker)

include marks

theorem Marker.nonempty : marker ≠ [] :=
  List.ne_nil_of_length_pos (Nat.zero_lt_of_lt marks.long)

theorem Marker.notMem_newline : '\n' ∉ marker := by
  intro member
  cases marks.unbroken '\n' member

theorem Marker.not_infix_short
    {text : Text}
    (short : text.length ≤ 2) :
    ¬marker <:+: text := by
  intro occurs
  have fits := occurs.length_le
  have long := marks.long
  omega

/-- Quotes and escapes do not change whether a marker occurs. -/
theorem Marker.infix_quoted (quotePath : Bool) (path : Text) :
    marker <:+: quoted quotePath path ↔ marker <:+: path := by
  rw [quoted]
  split
  · exact Iff.rfl
  · have separated :=
      infix_separated marks.noQuote []
        (path.flatMap (escapeChar quotePath) ++ '"' :: [])
    rw [List.nil_append] at separated
    rw [separated, infix_separated marks.noQuote, List.infix_nil,
      or_iff_right marks.nonempty, or_iff_left marks.nonempty]
    cases marker with
    | nil => exact absurd rfl marks.nonempty
    | cons first rest =>
        exact infix_flatMap_iff (escaping_escapeChar quotePath)
          marks.noBackslash (marks.verbatim quotePath)
          (by rw [marks.start first rfl]; exact Bool.false_ne_true) path

/-- The state of a file does not hide its path. -/
theorem Marker.infix_line (staged unstaged : Char) (rest : Text) :
    marker <:+: [staged, unstaged] ++ ' ' :: rest ↔ marker <:+: rest := by
  have short : ¬marker <:+: [staged, unstaged] :=
    marks.not_infix_short (Nat.le_refl 2)
  rw [infix_separated marks.noBlank, or_iff_right short]

theorem Marker.infix_changeLine (quotePath : Bool) (change : Change) :
    marker <:+: WorkingTree.changeLine quotePath change ↔
      ∃ text ∈ change.origin.toList.map display ++ [display change.path],
        marker <:+: text := by
  rw [WorkingTree.changeLine, marks.infix_line]
  cases change.origin with
  | none =>
      rw [List.nil_append, marks.infix_quoted]
      simp
  | some origin =>
      have arrow :
          " -> ".toList = ' ' :: ("->".toList ++ ' ' :: []) := rfl
      have short : ¬marker <:+: "->".toList :=
        marks.not_infix_short (Nat.le_refl 2)
      dsimp only
      rw [arrow, List.append_assoc, List.cons_append, List.append_assoc,
        List.cons_append, List.nil_append, infix_separated marks.noBlank,
        infix_separated marks.noBlank, marks.infix_quoted,
        marks.infix_quoted, or_iff_right short]
      simp

theorem Marker.infix_porcelain (tree : WorkingTree) (quotePath : Bool) :
    marker <:+: tree.porcelain quotePath ↔
      ∃ text ∈ tree.reported, marker <:+: text := by
  rw [WorkingTree.porcelain,
    infix_flatMap_newline marks.notMem_newline marks.nonempty]
  simp only [List.mem_append, List.mem_map, WorkingTree.reported,
    List.mem_flatMap]
  constructor
  · rintro ⟨_, ⟨change, member, rfl⟩ | ⟨entry, member, rfl⟩, occurs⟩
    · rcases (marks.infix_changeLine quotePath change).mp occurs with
        ⟨text, within, occurs⟩
      rw [List.mem_append, List.mem_map] at within
      exact ⟨text, .inl ⟨change, member, within⟩, occurs⟩
    · rw [WorkingTree.entryLine, marks.infix_line, marks.infix_quoted]
        at occurs
      exact ⟨entry, .inr member, occurs⟩
  · rintro ⟨text, ⟨change, member, within⟩ | member, occurs⟩
    · refine ⟨_, .inl ⟨change, member, rfl⟩, ?_⟩
      rw [marks.infix_changeLine]
      refine ⟨text, ?_, occurs⟩
      rw [List.mem_append, List.mem_map]
      exact within
    · refine ⟨_, .inr ⟨text, member, rfl⟩, ?_⟩
      rw [WorkingTree.entryLine, marks.infix_line, marks.infix_quoted]
      exact occurs

end Occurrences

/-- What is printed is marked when one of the paths is. -/
theorem marked_porcelain_iff (tree : WorkingTree) (quotePath : Bool) :
    Marked (tree.porcelain quotePath) ↔
      ∃ text ∈ tree.reported, Marked text := by
  constructor
  · rintro ⟨marker, isMarker, occurs⟩
    rcases ((marker_of_mem marker isMarker).infix_porcelain tree
      quotePath).mp occurs with ⟨text, member, within⟩
    exact ⟨text, member, marker, isMarker, within⟩
  · rintro ⟨text, member, marker, isMarker, within⟩
    exact ⟨marker, isMarker, ((marker_of_mem marker isMarker).infix_porcelain
      tree quotePath).mpr ⟨text, member, within⟩⟩

/-- A marked text holds the marker on one of its lines. -/
theorem noLeakedArtifacts_ok_iff (stdout : Text) :
    noLeakedArtifacts stdout = .ok () ↔ ¬Marked stdout := by
  have lines :
      (∃ line ∈ splitlines stdout, isOffender line = true) ↔
        Marked stdout := by
    simp only [isOffender_iff]
    constructor
    · rintro ⟨line, member, marker, isMarker, occurs⟩
      exact ⟨marker, isMarker,
        occurs.trans ((splitlines_occurs stdout).2 line member)⟩
    · rintro ⟨marker, isMarker, occurs⟩
      have marks := marker_of_mem marker isMarker
      have nonempty : marker ≠ [] :=
        List.ne_nil_of_length_pos (Nat.zero_lt_of_lt marks.long)
      rcases (infix_splitlines marks.unbroken nonempty stdout).mpr occurs with
        ⟨line, member, within⟩
      exact ⟨line, member, marker, isMarker, within⟩
  rw [← lines, noLeakedArtifacts]
  split
  · rename_i none
    rw [List.filter_eq_nil_iff] at none
    refine ⟨fun _ => ?_, fun _ => rfl⟩
    rintro ⟨line, member, offends⟩
    exact none line member offends
  · rename_i some
    rw [List.filter_eq_nil_iff] at some
    refine ⟨fun ok => ?_, fun without => ?_⟩
    · cases ok
    · exact absurd (fun line member offends =>
        without ⟨line, member, offends⟩) some

/-! ## When the guard covers what is staged -/

/--
A marked file would be staged, and the directory which is printed in its place
is not marked.
-/
def Hidden (tree : WorkingTree) (path : TreePath) : Prop :=
  path ∈ tree.added ∧ Marked (display path) ∧
    ∃ directory, tree.whollyUntracked path = some directory ∧
      ¬Marked (display directory ++ ['/'])

theorem WorkingTree.entry_mem_reported
    {tree : WorkingTree} {path : TreePath}
    (isAdded : path ∈ tree.added) :
    tree.entry path ∈ tree.reported := by
  rw [WorkingTree.reported, WorkingTree.entries, List.mem_append,
    List.mem_eraseDups]
  exact .inr (List.mem_map_of_mem isAdded)

/-- Marked files which are staged are reported or hidden. -/
theorem reported_or_hidden
    {tree : WorkingTree} {path : TreePath}
    (staged : path ∈ tree.stagedPaths)
    (marked : Marked (display path)) :
    (∃ text ∈ tree.reported, Marked text) ∨ Hidden tree path := by
  rcases List.mem_append.mp staged with changed | isAdded
  · left
    rcases List.mem_flatMap.mp changed with ⟨change, member, within⟩
    refine ⟨display path, ?_, marked⟩
    rw [WorkingTree.reported, List.mem_append]
    left
    refine List.mem_flatMap.mpr ⟨change, member, ?_⟩
    rcases List.mem_append.mp within with former | isPath
    · exact List.mem_append_left _ (List.mem_map_of_mem former)
    · rw [List.mem_singleton.mp isPath]
      exact List.mem_append_right _ List.mem_cons_self
  · by_cases isReported : Marked (tree.entry path)
    · exact .inl ⟨_, WorkingTree.entry_mem_reported isAdded, isReported⟩
    · right
      refine ⟨isAdded, marked, ?_⟩
      rw [WorkingTree.entry] at isReported
      cases collapsed : tree.whollyUntracked path with
      | none =>
          rw [collapsed] at isReported
          exact absurd marked isReported
      | some directory =>
          rw [collapsed] at isReported
          exact ⟨directory, rfl, isReported⟩

/--
The guard lets nothing marked be staged exactly when no marked file is hidden
in a directory without tracked files, unless the guard has another path to
complain about.
-/
theorem leak_guard_covers_iff
    (tree : WorkingTree)
    (quotePath : Bool) :
    (noLeakedArtifacts (tree.porcelain quotePath) = .ok () →
        ∀ path ∈ tree.stagedPaths, ¬Marked (display path)) ↔
      ((∃ path, Hidden tree path) →
        ∃ text ∈ tree.reported, Marked text) := by
  rw [noLeakedArtifacts_ok_iff, marked_porcelain_iff]
  constructor
  · rintro covers ⟨path, isAdded, marked, _⟩
    by_contra silent
    exact covers silent path (List.mem_append_right _ isAdded) marked
  · intro complains silent path staged marked
    rcases reported_or_hidden staged marked with isReported | hidden
    · exact silent isReported
    · exact silent (complains ⟨path, hidden⟩)

/-- A key in a new directory is staged without a complaint. -/
theorem key_in_new_directory_is_staged :
    ∃ (tree : WorkingTree) (path : TreePath),
      noLeakedArtifacts (tree.porcelain true) = .ok () ∧
        path ∈ tree.stagedPaths ∧ Marked (display path) := by
  let tree : WorkingTree :=
    { tracked := [["README.md".toList]]
      changes := []
      untracked := [["secrets".toList, "release.key".toList]]
      ignored := fun _ => false
      apart := by decide }
  refine ⟨tree, ["secrets".toList, "release.key".toList], ?_, ?_, ?_⟩
  · decide +kernel
  · decide +kernel
  · exact ⟨".key".toList, List.mem_cons_self,
      "secrets/release".toList, [], by decide⟩

end Luminosity.Tasks.LeakGuard
