import Luminosity.Foundation.TextSegments

/-!
# Paths

A path is absolute or relative and has the components a host splits it into:
empty fields and inner `.` fields are gone, and `..` is kept, because only a
lookup can interpret it.  Joining a text appends its components, or replaces
the path when the text is absolute itself.

A name is plain when it is one component by itself.  Joining a plain name
appends that name, so a program which composes paths from plain names controls
every component it adds.
-/

namespace Luminosity.Host.Paths

open Luminosity.Foundation.TextSegments

/-- One component of a path. -/
inductive Component where
  | current
  | parent
  | normal (name : Text)
deriving DecidableEq

def Component.display : Component → Text
  | .current => ['.']
  | .parent => ['.', '.']
  | .normal name => name

/-- The component of one `/`-separated field, unless it adds nothing. -/
def Component.ofField (field : Text) : Option Component :=
  if field = [] ∨ field = ['.'] then
    none
  else if field = ['.', '.'] then
    some .parent
  else
    some (.normal field)

structure Path where
  absolute : Bool
  components : List Component
deriving DecidableEq

namespace Path

def display (path : Path) : Text :=
  (if path.absolute then ['/'] else []) ++
    ['/'].intercalate (path.components.map Component.display)

/-- Append the components of a text, or replace the path by an absolute one. -/
def join (base : Path) (relative : Text) : Path :=
  let added := (relative.splitOn '/').filterMap Component.ofField
  if relative.head? = some '/' then
    { absolute := true, components := added }
  else
    { base with components := base.components ++ added }

def parent (path : Path) : Option Path :=
  if path.components = [] then
    none
  else
    some { path with components := path.components.dropLast }

/-- The last component, when it is a name. -/
def fileName (path : Path) : Option Text :=
  match path.components.getLast? with
  | some (.normal name) => some name
  | _ => none

def startsWith (path base : Path) : Bool :=
  path.absolute = base.absolute &&
    base.components.isPrefixOf path.components

def stripPrefix (path base : Path) : Option Path :=
  if path.startsWith base then
    some
      { absolute := false
        components := path.components.drop base.components.length }
  else
    none

/-- The path one name below. -/
def child (base : Path) (name : Text) : Path :=
  { base with components := base.components ++ [.normal name] }

end Path

/-- A name which is one component by itself. -/
def Plain (name : Text) : Prop :=
  name ≠ [] ∧ name ≠ ['.'] ∧ name ≠ ['.', '.'] ∧ '/' ∉ name

instance (name : Text) : Decidable (Plain name) :=
  inferInstanceAs (Decidable (_ ∧ _))

/-! ## Joining -/

theorem splitOn_of_notMem
    (separator : Char) {field : Text} (absent : separator ∉ field) :
    field.splitOn separator = [field] := by
  induction field with
  | nil => simp
  | cons head tail induction =>
      simp only [List.mem_cons, not_or] at absent
      rw [List.splitOn_cons_eq_if_modifyHead, induction absent.2]
      simp [Ne.symm absent.1]

theorem Component.ofField_plain
    {name : Text} (plain : Plain name) :
    Component.ofField name = some (.normal name) := by
  rcases plain with ⟨nonempty, notCurrent, notParent, _⟩
  simp [Component.ofField, nonempty, notCurrent, notParent]

theorem join_plain
    (base : Path) {name : Text} (plain : Plain name) :
    base.join name = base.child name := by
  have notAbsolute : name.head? ≠ some '/' := by
    intro starts
    exact plain.2.2.2 (List.mem_of_mem_head? starts)
  rw [Path.join, if_neg notAbsolute,
    splitOn_of_notMem '/' plain.2.2.2]
  simp [Path.child, Component.ofField_plain plain]

@[simp]
theorem child_components (base : Path) (name : Text) :
    (base.child name).components = base.components ++ [.normal name] := rfl

@[simp]
theorem child_absolute (base : Path) (name : Text) :
    (base.child name).absolute = base.absolute := rfl

@[simp]
theorem parent_child (base : Path) (name : Text) :
    (base.child name).parent = some base := by
  simp [Path.parent, Path.child]

@[simp]
theorem fileName_child (base : Path) (name : Text) :
    (base.child name).fileName = some name := by
  simp [Path.fileName, Path.child]

theorem child_injective
    {base other : Path} {name otherName : Text}
    (equal : base.child name = other.child otherName) :
    base = other ∧ name = otherName := by
  rcases base with ⟨absolute, components⟩
  rcases other with ⟨otherAbsolute, otherComponents⟩
  simp only [Path.child, Path.mk.injEq] at equal
  rcases equal with ⟨rfl, appended⟩
  rcases List.append_inj' appended rfl with ⟨rfl, last⟩
  simp only [List.cons.injEq, Component.normal.injEq, and_true] at last
  exact ⟨rfl, last⟩

/-- The last field of a text keeps every suffix without a separator. -/
theorem exists_splitOn_append (separator : Char) (front : Text) :
    ∃ fields last, ∀ suffix, separator ∉ suffix →
      (front ++ suffix).splitOn separator = fields ++ [last ++ suffix] := by
  induction front with
  | nil =>
      refine ⟨[], [], ?_⟩
      intro suffix unseparated
      simp [splitOn_of_notMem separator unseparated]
  | cons head tail induction =>
      rcases induction with ⟨fields, last, split⟩
      by_cases separates : head = separator
      · refine ⟨[] :: fields, last, ?_⟩
        intro suffix unseparated
        rw [List.cons_append, List.splitOn_cons_eq_if_modifyHead,
          split suffix unseparated, if_pos (beq_iff_eq.mpr separates)]
        rfl
      · cases fields with
        | nil =>
            refine ⟨[], head :: last, ?_⟩
            intro suffix unseparated
            rw [List.cons_append, List.splitOn_cons_eq_if_modifyHead,
              split suffix unseparated]
            simp [separates]
        | cons first rest =>
            refine ⟨(head :: first) :: rest, last, ?_⟩
            intro suffix unseparated
            rw [List.cons_append, List.splitOn_cons_eq_if_modifyHead,
              split suffix unseparated]
            simp [separates]

/-- A mark which is no dot makes a name of what it is in. -/
theorem Component.ofField_marked
    {mark : Char} (notDot : mark ≠ '.') (front suffix : Text) :
    Component.ofField (front ++ mark :: suffix) =
      some (.normal (front ++ mark :: suffix)) := by
  have notCurrent : front ++ mark :: suffix ≠ ['.'] := by
    intro equal
    have member : mark ∈ ['.'] := equal ▸ by simp
    exact notDot (by simpa using member)
  have notParent : front ++ mark :: suffix ≠ ['.', '.'] := by
    intro equal
    have member : mark ∈ ['.', '.'] := equal ▸ by simp
    exact notDot (by simpa using member)
  simp [Component.ofField, notCurrent, notParent]

/-- Texts which differ in their ends only are joined as siblings. -/
theorem exists_join_append
    (base : Path) (front : Text) {mark : Char} (notDot : mark ≠ '.')
    (notSeparator : mark ≠ '/') :
    ∃ (directory : Path) (start : Text), ∀ suffix, '/' ∉ suffix →
      base.join (front ++ mark :: suffix) =
        directory.child (start ++ mark :: suffix) := by
  rcases exists_splitOn_append '/' front with ⟨fields, last, split⟩
  have absolute (suffix : Text) :
      (front ++ mark :: suffix).head? = some '/' ↔ front.head? = some '/' := by
    cases front with
    | nil => simp [notSeparator]
    | cons head tail => rfl
  have added (suffix : Text) (unseparated : '/' ∉ suffix) :
      ((front ++ mark :: suffix).splitOn '/').filterMap Component.ofField =
        fields.filterMap Component.ofField ++
          [.normal (last ++ mark :: suffix)] := by
    have fresh : '/' ∉ mark :: suffix := by
      simp [notSeparator.symm, unseparated]
    rw [split _ fresh, List.filterMap_append]
    simp [Component.ofField_marked notDot]
  by_cases rooted : front.head? = some '/'
  · refine ⟨⟨true, fields.filterMap Component.ofField⟩, last, ?_⟩
    intro suffix unseparated
    rw [Path.join, if_pos ((absolute suffix).mpr rooted),
      added suffix unseparated]
    rfl
  · refine ⟨⟨base.absolute,
      base.components ++ fields.filterMap Component.ofField⟩, last, ?_⟩
    intro suffix unseparated
    rw [Path.join, if_neg (mt (absolute suffix).mp rooted),
      added suffix unseparated, ← List.append_assoc]
    rfl

/-- A joined text decides the end of the file name. -/
theorem fileName_join_append
    (base : Path) (front : Text) {mark : Char} {suffix : Text}
    (notDot : mark ≠ '.') (unseparated : '/' ∉ mark :: suffix) :
    ∃ start,
      (base.join (front ++ mark :: suffix)).fileName =
        some (start ++ mark :: suffix) := by
  rw [List.mem_cons, not_or] at unseparated
  rcases exists_join_append base front notDot (Ne.symm unseparated.1) with
    ⟨directory, start, joined⟩
  refine ⟨start, ?_⟩
  rw [joined suffix unseparated.2, fileName_child]

/-! ## Names the host reports -/

/-- A name as the host reports it, which need not be Unicode text. -/
inductive OsText where
  | unicode (text : Text)
  | other (bytes : Bytes)
deriving DecidableEq

def OsText.toStr : OsText → Option Text
  | .unicode text => some text
  | .other _ => none

def OsText.toStringLossy : OsText → Text
  | .unicode text => text
  | .other bytes => decodeLossy bytes

/--
The path which an environment variable holds.  A leading `.` is kept, and bytes
which are no text are replaced.
-/
def Path.ofBytes (bytes : Bytes) : Path :=
  let fields := (decodeLossy bytes).splitOn '/'
  { absolute := (decodeLossy bytes).head? = some '/'
    components :=
      (if fields.head? = some ['.'] then [.current] else []) ++
        fields.filterMap Component.ofField }

end Luminosity.Host.Paths
