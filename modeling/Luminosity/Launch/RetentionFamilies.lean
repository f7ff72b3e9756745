import Luminosity.Launch.RetainedBinaries

/-!
# The family which retention counts

Retention bounds the binaries of one name, and it recognises them by the name
and a dash at the start of the file.  A dash may occur in names as well, so
the binaries of every name which goes on after the dash are counted and removed
with them.
-/

namespace Luminosity.Launch.RetentionFamilies

open Luminosity.Foundation.TextSegments
open Luminosity.Foundation.EffectPrograms
open Luminosity.Host.Paths
open Luminosity.Host.Calls
open Luminosity.Launch.Cache
open Luminosity.Launch.RetainedBinaries

/-! ## What is stored -/

/-- The characters of the names of binaries. -/
def isNameCharacter (character : Char) : Bool :=
  character.isAlphanum || character = '-'

/-- The name of a binary. -/
structure BinaryName where
  text : Text
  allowed : ∀ character ∈ text, isNameCharacter character = true

/-- A version; of its syntax, only the start is used. -/
structure VersionText where
  text : Text
  major : Nat
  rest : Text
  starts : text = decimal major ++ '.' :: rest

/-- The kinds of files which storing an entry writes. -/
inductive Kind
  | binary
  | signature
  | scratch (unique : UInt32)
  | scratchSignature (unique : UInt32)
deriving DecidableEq

/-- A file which was written to store an entry. -/
structure Stored where
  name : BinaryName
  version : VersionText
  sha256 : Text
  hex : isSha256Hex sha256 = true
  kind : Kind

namespace Stored

def stem (stored : Stored) : Text :=
  Cache.stem stored.name.text stored.version.text stored.sha256

def file (stored : Stored) : Text :=
  match stored.kind with
  | .binary => stored.stem
  | .signature => signatureName stored.stem
  | .scratch unique => tempName stored.stem unique
  | .scratchSignature unique => tempSignatureName stored.stem unique

/-- The file is stored under exactly this name. -/
def isOwn (name : BinaryName) (stored : Stored) : Bool :=
  stored.name.text = name.text

/-- A binary of the name, or of a name which extends it after a dash. -/
def inFamily (name : BinaryName) (stored : Stored) : Bool :=
  stored.kind = .binary &&
    (stored.isOwn name ||
      (name.text ++ "-".toList).isPrefixOf stored.name.text)

end Stored

/-- A cache directory, as it is listed, with what looking and removing give. -/
structure Directory where
  items : List Stored
  modified : Path → Except IoError Int
  removed : Path → Except IoError Unit

/-- The directory with the files of one name alone. -/
def Directory.only (directory : Directory) (name : BinaryName) : Directory :=
  { directory with
    items := directory.items.filter (Stored.isOwn name) }

section Run

variable (root : Path) (name : BinaryName) (cap : Nat)
variable (directory : Directory) (otherwise : Handler host (List Path))

/-- A host which holds the directory, and records what is to be removed. -/
def holding : Handler host (List Path)
  | .readDir _, removals =>
      (.ok (directory.items.map fun stored => .ok (.unicode stored.file)),
        removals)
  | .modified path, removals => (directory.modified path, removals)
  | .removeFile path, removals =>
      (directory.removed path, removals ++ [path])
  | call, removals => otherwise call removals

/-- The paths which retention removes, in order. -/
def removals : List Path :=
  ((enforceRetentionCap root name.text cap).execute
    (holding directory otherwise) []).2

/--
Retention removes files of the name alone, and the same ones as if there were
no others.
-/
structure Separates : Prop where
  own :
    ∀ path ∈ removals root name cap directory otherwise,
      ∃ stored ∈ directory.items,
        stored.kind = .binary ∧ stored.name.text = name.text ∧
          (path = root.join stored.file ∨
            path = root.join (signatureName stored.file))
  uncounted :
    removals root name cap directory otherwise =
      removals root name cap (directory.only name) otherwise

end Run

/-! ## The files of the family -/

/-- What holds no separator starts before the first one. -/
theorem prefix_of_prefix_append_cons
    {α : Type} {separator : α} {front before after : List α}
    (absent : separator ∉ front)
    (starts : front <+: before ++ separator :: after) :
    front <+: before := by
  rcases List.prefix_or_prefix_of_prefix starts
      (List.prefix_append before (separator :: after)) with within | longer
  · exact within
  · rcases longer with ⟨rest, rfl⟩
    rcases List.prefix_append_right_inj before |>.mp starts with ⟨_, split⟩
    cases rest with
    | nil =>
        exact ⟨[], by simp⟩
    | cons first rest =>
        cases split
        exact absurd (List.mem_append_right _ List.mem_cons_self) absent

/-- A prefix ends at the last separator or at an earlier one. -/
theorem prefix_append_cons_iff
    {α : Type} [DecidableEq α] {separator : α} {front before after : List α}
    (absent : separator ∉ after) :
    front ++ [separator] <+: before ++ separator :: after ↔
      before = front ∨ front ++ [separator] <+: before := by
  constructor
  · rintro ⟨rest, split⟩
    rw [List.append_assoc, List.singleton_append] at split
    cases divided : rsplitOnce separator rest with
    | none =>
        exact .inl (append_cons_inj_last absent
          (rsplitOnce_none divided) split.symm).1
    | some parts =>
        rcases rsplitOnce_some divided with ⟨rfl, fresh⟩
        rw [← List.cons_append, ← List.append_assoc] at split
        right
        rw [(append_cons_inj_last absent fresh split.symm).1]
        exact ⟨parts.1, by simp⟩
  · rintro (rfl | ⟨rest, rfl⟩)
    · exact ⟨after, by simp⟩
    · exact ⟨rest ++ separator :: after, by simp⟩

theorem BinaryName.notMem_dot (name : BinaryName) : '.' ∉ name.text := by
  intro member
  exact absurd (name.allowed '.' member) (by decide)

/-- A stem starts with a name when its own name is it or extends it. -/
theorem prefix_stem_iff (name : BinaryName) (stored : Stored) :
    name.text ++ ['-'] <+: stored.stem ↔
      stored.name.text = name.text ∨
        name.text ++ ['-'] <+: stored.name.text := by
  have parts :
      stored.stem =
        (stored.name.text ++ '-' :: decimal stored.version.major) ++
          '.' :: (stored.version.rest ++ '-' :: stored.sha256) := by
    rw [Stored.stem, stem_eq, stored.version.starts]
    simp
  rw [← prefix_append_cons_iff
    (notMem_decimal (show Char.isDigit '-' = false from rfl)
      stored.version.major), parts]
  constructor
  · apply prefix_of_prefix_append_cons
    rw [List.mem_append, List.mem_singleton, not_or]
    exact ⟨name.notMem_dot, by decide⟩
  · intro starts
    exact starts.trans (List.prefix_append _ _)

/-- What follows a name in a stem has the digest after its last dash. -/
theorem rsplitOnce_after_name
    {name : BinaryName} {stored : Stored} {rest : Text}
    (split : stored.stem = name.text ++ '-' :: rest) :
    ∃ front, rsplitOnce '-' rest = some (front, stored.sha256) := by
  have undashed : '-' ∉ stored.sha256 := notMem_sha256 stored.hex rfl
  rw [Stored.stem, stem_eq] at split
  cases divided : rsplitOnce '-' rest with
  | none =>
      -- The name would end with the version, which has a dot.
      have same := (append_cons_inj_last undashed
        (rsplitOnce_none divided) split).1
      refine absurd ?_ name.notMem_dot
      rw [← same, stored.version.starts]
      simp
  | some parts =>
      rcases rsplitOnce_some divided with ⟨rfl, fresh⟩
      rw [← List.cons_append, ← List.append_assoc] at split
      have same := (append_cons_inj_last undashed fresh split).2
      exact ⟨parts.1, by rw [same]⟩

/-- Only binaries are retained. -/
theorem binary_of_retained
    {front file : Text} {stored : Stored}
    (kept : retained front (.ok (.unicode stored.file)) = some file) :
    stored.kind = .binary := by
  have isFile : file = stored.file := by
    have same := retained_some kept
    simp only [Except.ok.injEq, OsText.unicode.injEq] at same
    exact same.symm
  rw [isFile] at kept
  have named := (@retained_named ⟨true, []⟩ _ _ _ kept).1
  rw [Stored.file] at named
  cases kind : stored.kind with
  | binary => rfl
  | signature =>
      rw [kind, Stored.stem, stem_eq] at named
      exact absurd (signatureNamed_join _ _ stored.hex)
        named.not_signatureNamed
  | scratch unique =>
      rw [kind] at named
      exact absurd (scratchOf_tempName _ _ unique)
        (named.not_scratchOf unique)
  | scratchSignature unique =>
      rw [kind] at named
      exact absurd (scratchOf_tempSignatureName _ _ unique)
        (named.not_scratchOf unique)

/-- The files which retention counts are the binaries of the family. -/
theorem retained_eq (name : BinaryName) (stored : Stored) :
    retained (name.text ++ "-".toList) (.ok (.unicode stored.file)) =
      if stored.inFamily name then some stored.file else none := by
  by_cases isBinary : stored.kind = .binary
  · have isStem : stored.file = stored.stem := by
      rw [Stored.file, isBinary]
    have family :
        stored.inFamily name = true ↔
          name.text ++ ['-'] <+: stored.stem := by
      rw [Stored.inFamily, prefix_stem_iff, Bool.and_eq_true,
        Bool.or_eq_true, Stored.isOwn, decide_eq_true_eq, decide_eq_true_eq,
        List.isPrefixOf_iff_prefix]
      exact and_iff_right isBinary
    by_cases inFamily : stored.inFamily name = true
    · rcases family.mp inFamily with ⟨rest, split⟩
      rw [List.append_assoc, List.singleton_append] at split
      rcases rsplitOnce_after_name split.symm with ⟨front, divided⟩
      have stripped :
          stored.file.dropPrefix? (name.text ++ "-".toList) = some rest := by
        rw [isStem, ← split]
        have parts : name.text ++ '-' :: rest =
            (name.text ++ "-".toList) ++ rest := by simp
        rw [parts]
        exact List.dropPrefix?_append_of_beq _ (beq_self_eq_true _)
      rw [if_pos inFamily]
      simp only [retained, OsText.toStr, Option.bind_eq_bind,
        Option.bind_some, stripped, divided]
      exact if_pos stored.hex
    · rw [if_neg inFamily, Option.eq_none_iff_forall_ne_some]
      intro file kept
      apply inFamily
      rw [family, ← isStem]
      simp only [retained, OsText.toStr, Option.bind_eq_bind,
        Option.bind_some, Option.bind_eq_some_iff] at kept
      rcases kept with ⟨rest, stripped, _⟩
      rcases List.dropPrefix?_eq_some_iff.mp stripped with
        ⟨front, same, equal⟩
      rw [same, eq_of_beq equal]
      exact List.prefix_append _ _
  · have outside : stored.inFamily name = false := by
      rw [Stored.inFamily, decide_eq_false isBinary, Bool.false_and]
    rw [outside, if_neg Bool.false_ne_true,
      Option.eq_none_iff_forall_ne_some]
    intro file kept
    exact isBinary (binary_of_retained kept)

/-! ## What is removed -/

section Removals

variable {root : Path} {name : BinaryName} {cap : Nat}
variable {directory : Directory} {otherwise : Handler host (List Path)}

/-- A binary with the time which counts for it. -/
def candidateIn (root : Path) (directory : Directory) (stored : Stored) :
    Candidate where
  modified := (directory.modified (root.join stored.file)).toOption.getD 0
  binary := root.join stored.file
  signature := root.join (signatureName stored.file)

/-- The binaries of the family, in the order of the directory. -/
def family (name : BinaryName) (directory : Directory) : List Stored :=
  directory.items.filter (Stored.inFamily name)

theorem execute_binariesAmong (items : List Stored) (state : List Path) :
    (binariesAmong root (name.text ++ "-".toList)
        (items.map fun stored => .ok (.unicode stored.file))).execute
        (holding directory otherwise) state =
      ((items.filter (Stored.inFamily name)).map
        (candidateIn root directory), state) := by
  induction items with
  | nil => rfl
  | cons stored items induction =>
      rw [List.map_cons, binariesAmong, retained_eq]
      cases inFamily : stored.inFamily name with
      | false =>
          rw [if_neg Bool.false_ne_true,
            List.filter_cons_of_neg (by simp [inFamily])]
          exact induction
      | true =>
          have looked :
              (issue (.modified (root.join stored.file))).execute
                  (holding directory otherwise) state =
                (directory.modified (root.join stored.file), state) := rfl
          rw [if_pos rfl, List.filter_cons_of_pos inFamily]
          simp only
          rw [execute_bind, looked, execute_bind, induction]
          rfl

theorem execute_removeAll (candidates : List Candidate) (state : List Path) :
    ((removeAll candidates).execute (holding directory otherwise) state).2 =
      state ++ candidates.flatMap fun candidate =>
        [candidate.binary, candidate.signature] := by
  induction candidates generalizing state with
  | nil => exact (List.append_nil state).symm
  | cons candidate rest induction =>
      have removing (path : Path) (state : List Path) :
          (issue (.removeFile path)).execute (holding directory otherwise)
              state =
            (directory.removed path, state ++ [path]) := rfl
      rw [removeAll, execute_bind, removing, execute_bind, removing,
        induction, List.flatMap_cons]
      simp

/-- Retention removes the outdated ones of the family. -/
theorem removals_eq :
    removals root name cap directory otherwise =
      (outdated cap ((family name directory).map
        (candidateIn root directory))).flatMap fun candidate =>
          [candidate.binary, candidate.signature] := by
  have listed :
      (issue (.readDir root)).execute (holding directory otherwise) [] =
        (.ok (directory.items.map fun stored =>
          .ok (.unicode stored.file)), []) := rfl
  rw [removals, enforceRetentionCap, execute_bind, listed]
  simp only
  rw [execute_bind, execute_binariesAmong]
  simp only
  rw [show directory.items.filter (Stored.inFamily name) =
    family name directory from rfl]
  split_ifs with few
  · rw [outdated, Nat.sub_eq_zero_of_le few]
    rfl
  · rw [execute_removeAll]
    rfl

theorem length_removals :
    (removals root name cap directory otherwise).length =
      2 * ((family name directory).length - cap) := by
  have twice (candidates : List Candidate) :
      (candidates.flatMap fun candidate =>
        [candidate.binary, candidate.signature]).length =
          2 * candidates.length := by
    induction candidates with
    | nil => rfl
    | cons candidate rest induction =>
        rw [List.flatMap_cons, List.length_append, induction,
          List.length_cons]
        simp only [List.length_cons, List.length_nil]
        omega
  rw [removals_eq, twice, outdated, List.length_take, List.length_mergeSort,
    List.length_map]
  omega

/-- What is removed is of the family. -/
theorem removed_of_family
    {path : Path}
    (member : path ∈ removals root name cap directory otherwise) :
    ∃ stored ∈ family name directory,
      path = root.join stored.file ∨
        path = root.join (signatureName stored.file) := by
  rw [removals_eq] at member
  rcases List.mem_flatMap.mp member with ⟨candidate, isOutdated, within⟩
  have isListed := List.mem_mergeSort.mp (List.mem_of_mem_take isOutdated)
  rcases List.mem_map.mp isListed with ⟨stored, inFamily, rfl⟩
  exact ⟨stored, inFamily, List.mem_pair.mp within⟩

end Removals

/-! ## When names are kept apart -/

section Separation

variable {root : Path} {name : BinaryName} {cap : Nat}
variable {directory : Directory} {otherwise : Handler host (List Path)}

/-- The binary is of a name which goes on after this name and a dash. -/
def Extends (name : BinaryName) (stored : Stored) : Prop :=
  stored.kind = .binary ∧ name.text ++ "-".toList <+: stored.name.text

theorem isOwn_of_inFamily
    {stored : Stored}
    (inFamily : stored.inFamily name = true)
    (not_extends : ¬Extends name stored) :
    stored.isOwn name = true := by
  rw [Stored.inFamily, Bool.and_eq_true, Bool.or_eq_true,
    decide_eq_true_eq, List.isPrefixOf_iff_prefix] at inFamily
  rcases inFamily with ⟨isBinary, own | longer⟩
  · exact own
  · exact absurd ⟨isBinary, longer⟩ not_extends

theorem Extends.inFamily
    {stored : Stored} (isLonger : Extends name stored) :
    stored.inFamily name = true := by
  rw [Stored.inFamily, Bool.and_eq_true, Bool.or_eq_true,
    decide_eq_true_eq, List.isPrefixOf_iff_prefix]
  exact ⟨isLonger.1, .inr isLonger.2⟩

theorem Extends.not_isOwn
    {stored : Stored} (isLonger : Extends name stored) :
    stored.isOwn name = false := by
  rw [Stored.isOwn, decide_eq_false_iff_not]
  intro same
  have length := isLonger.2.length_le
  rw [same, List.length_append] at length
  exact absurd length (Nat.not_le_of_lt (Nat.lt_add_of_pos_right
    (Nat.zero_lt_succ 0)))

theorem family_only :
    family name (directory.only name) =
      (family name directory).filter (Stored.isOwn name) := by
  rw [family, family, Directory.only, List.filter_filter,
    List.filter_filter]
  apply List.filter_congr
  intro stored _
  exact Bool.and_comm _ _

theorem own_of_only
    {path : Path}
    (member : path ∈ removals root name cap (directory.only name)
      otherwise) :
    ∃ stored ∈ directory.items,
      stored.kind = .binary ∧ stored.name.text = name.text ∧
        (path = root.join stored.file ∨
          path = root.join (signatureName stored.file)) := by
  rcases removed_of_family member with ⟨stored, inFamily, isPath⟩
  rw [family_only, List.mem_filter, family, List.mem_filter] at inFamily
  rcases inFamily with ⟨⟨member, inFamily⟩, own⟩
  rw [Stored.inFamily, Bool.and_eq_true, decide_eq_true_eq] at inFamily
  rw [Stored.isOwn, decide_eq_true_eq] at own
  exact ⟨stored, member, inFamily.1, own, isPath⟩

/-- A binary which is counted and is of another name makes a difference. -/
theorem removals_only_ne
    {stored : Stored}
    (member : stored ∈ directory.items)
    (isLonger : Extends name stored)
    (crowded : cap < (family name directory).length) :
    removals root name cap directory otherwise ≠
      removals root name cap (directory.only name) otherwise := by
  intro same
  have fewer :
      (family name (directory.only name)).length <
        (family name directory).length := by
    rw [family_only]
    refine List.length_filter_lt_length_iff_exists.mpr ⟨stored, ?_, ?_⟩
    · exact List.mem_filter.mpr ⟨member, isLonger.inFamily⟩
    · rw [isLonger.not_isOwn]
      exact Bool.false_ne_true
  have lengths := congrArg List.length same
  rw [length_removals, length_removals] at lengths
  omega

end Separation

/--
Retention keeps a name apart from all others exactly when no binary is of a
name which goes on after the name and a dash, or when these binaries and those
of the name together are not too many.
-/
theorem retention_separates_iff
    (root : Path) (name : BinaryName) (cap : Nat)
    (directory : Directory) (otherwise : Handler host (List Path)) :
    Separates root name cap directory otherwise ↔
      (∀ stored ∈ directory.items, ¬Extends name stored) ∨
        (family name directory).length ≤ cap := by
  constructor
  · rintro ⟨_, uncounted⟩
    by_contra neither
    rw [not_or, Nat.not_le] at neither
    rcases neither with ⟨some, crowded⟩
    apply some
    intro stored member isLonger
    exact removals_only_ne member isLonger crowded uncounted
  · intro apart
    have uncounted :
        removals root name cap directory otherwise =
          removals root name cap (directory.only name) otherwise := by
      rcases apart with none | few
      · have sameFamily :
            family name (directory.only name) = family name directory := by
          rw [family_only, List.filter_eq_self]
          intro stored inFamily
          rcases List.mem_filter.mp inFamily with ⟨member, inFamily⟩
          exact isOwn_of_inFamily inFamily (none stored member)
        rw [removals_eq, removals_eq, sameFamily]
        rfl
      · have fewer :
            (family name (directory.only name)).length ≤
              (family name directory).length := by
          rw [family_only]
          exact List.length_filter_le _ _
        have empty {shown : Directory}
            (few : (family name shown).length ≤ cap) :
            removals root name cap shown otherwise = [] := by
          rw [← List.length_eq_zero_iff, length_removals,
            Nat.sub_eq_zero_of_le few]
        rw [empty few, empty (Nat.le_trans fewer few)]
    constructor
    · intro path member
      rw [uncounted] at member
      exact own_of_only member
    · exact uncounted

/-- One entry of each of two names is one too many for the shorter name. -/
theorem longer_name_counts :
    ∃ (root : Path) (name : BinaryName) (cap : Nat) (directory : Directory),
      ∀ otherwise, ¬Separates root name cap directory otherwise := by
  let release : VersionText :=
    { text := "1.0.0".toList
      major := 1
      rest := "0.0".toList
      starts := by decide }
  let stored (name : BinaryName) (kind : Kind) : Stored :=
    { name
      version := release
      sha256 := List.replicate 64 '0'
      hex := by decide
      kind }
  let short : BinaryName :=
    { text := "luminosity".toList
      allowed := List.all_eq_true.mp (by decide) }
  let long : BinaryName :=
    { text := "luminosity-extra".toList
      allowed := List.all_eq_true.mp (by decide) }
  let directory : Directory :=
    { items :=
        [stored long .binary, stored long .signature, stored short .binary,
          stored short .signature]
      modified := fun _ => .ok 0
      removed := fun _ => .ok () }
  refine ⟨⟨true, [.normal "cache".toList]⟩, short, 1, directory, ?_⟩
  intro otherwise separates
  have crowded : 1 < (family short directory).length := by decide
  have isLonger : Extends short (stored long .binary) := ⟨rfl, by decide⟩
  exact removals_only_ne List.mem_cons_self isLonger crowded
    separates.uncounted

end Luminosity.Launch.RetentionFamilies
