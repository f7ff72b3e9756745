import Luminosity.Foundation.TextSegments

/-!
# Directories as bytes

An environment names a directory by bytes, of which only the slash and a
single dot have a meaning.  Two texts of bytes name one directory when they
agree on where they start and on their components: empty fields and single
dots say nothing.

A path is extended by pushing a separator only where there is none, or by
writing one in any case.  Both name the same directory.
-/

namespace Luminosity.Host.Directories

open Luminosity.Foundation.TextSegments

/-- The separator of components. -/
def slash : UInt8 :=
  47

/-- The field which says nothing. -/
def dot : Bytes :=
  [46]

/-- The directory which bytes name. -/
structure Directory where
  absolute : Bool
  components : List Bytes
deriving DecidableEq, Repr

/-- The fields which say something. -/
def components (path : Bytes) : List Bytes :=
  (path.splitOn slash).filter fun field => field ≠ [] && field ≠ dot

/-- The directory named by a path. -/
def directory (path : Bytes) : Directory where
  absolute := path.head? = some slash
  components := components path

/-- Push a path: an absolute one replaces, another one is separated. -/
def join (base relative : Bytes) : Bytes :=
  if relative.head? = some slash then
    relative
  else if base = [] ∨ base.getLast? = some slash then
    base ++ relative
  else
    base ++ slash :: relative

theorem components_separated (base relative : Bytes) :
    components (base ++ slash :: relative) =
      components base ++ components relative := by
  have fields :
      (base ++ slash :: relative).splitOn slash =
        base.splitOn slash ++ relative.splitOn slash :=
    List.splitOnP_append_cons base relative (beq_self_eq_true slash)
  rw [components, fields, List.filter_append]
  rfl

/-- A separator written twice says nothing more. -/
theorem components_slash (relative : Bytes) :
    components (slash :: relative) = components relative := by
  rw [← List.nil_append (slash :: relative), components_separated]
  rfl

/-- Pushing a relative path and writing it after a slash are the same. -/
theorem directory_join
    {base relative : Bytes}
    (nonempty : base ≠ [])
    (isRelative : relative.head? ≠ some slash) :
    directory (join base relative) =
      directory (base ++ slash :: relative) := by
  rw [join, if_neg isRelative]
  by_cases separated : base.getLast? = some slash
  · rw [if_pos (Or.inr separated)]
    rcases List.getLast?_eq_some_iff.mp separated with ⟨front, rfl⟩
    have written :
        front ++ [slash] ++ slash :: relative =
          front ++ slash :: (slash :: relative) := by
      simp
    have pushed :
        front ++ [slash] ++ relative = front ++ slash :: relative := by
      simp
    rw [written, pushed, directory, directory, components_separated,
      components_separated, components_slash, Directory.mk.injEq]
    constructor
    · cases front <;> rfl
    · rfl
  · rw [if_neg (not_or.mpr ⟨nonempty, separated⟩)]

/-! ## What the fields are made of -/

/-- Splitting leaves every byte which is no separator in a field. -/
theorem count_fields (path : Bytes) {byte : UInt8} (other : byte ≠ slash) :
    (path.splitOn slash).flatten.count byte = path.count byte := by
  induction path with
  | nil => rfl
  | cons head tail induction =>
      have separates : (head :: tail).splitOn slash =
          if head == slash then [] :: tail.splitOn slash
          else (tail.splitOn slash).modifyHead (List.cons head) :=
        List.splitOnP_cons_eq_if_modifyHead head tail
      rw [separates]
      by_cases separator : head = slash
      · rw [if_pos (beq_iff_eq.mpr separator), List.flatten_cons,
          List.nil_append, induction, separator,
          List.count_cons_of_ne other.symm]
      · rw [if_neg (mt beq_iff_eq.mp separator)]
        rcases List.exists_cons_of_ne_nil
          (List.splitOn_ne_nil slash tail) with ⟨field, fields, split⟩
        rw [split] at induction ⊢
        change (head :: (field :: fields).flatten).count byte = _
        rw [List.count_cons, List.count_cons, induction]

/-- The fields which say nothing hold neither this byte. -/
theorem count_components
    (path : Bytes) {byte : UInt8} (notSlash : byte ≠ slash)
    (notDot : byte ∉ dot) :
    (components path).flatten.count byte = path.count byte := by
  rw [← count_fields path notSlash, components]
  induction path.splitOn slash with
  | nil => rfl
  | cons field fields induction =>
      by_cases kept : (decide (field ≠ []) && field ≠ dot) = true
      · rw [List.filter_cons, if_pos kept, List.flatten_cons,
          List.flatten_cons, List.count_append, List.count_append, induction]
      · have silent : field.count byte = 0 := by
          rw [List.count_eq_zero]
          intro member
          simp only [Bool.and_eq_true, decide_eq_true_eq, not_and,
            not_not] at kept
          exact notDot (kept (List.ne_nil_of_mem member) ▸ member)
        rw [List.filter_cons, if_neg kept, List.flatten_cons,
          List.count_append, silent, induction, Nat.zero_add]

end Luminosity.Host.Directories
