import Luminosity.Host.Paths

/-!
# A tree of files, directories and symbolic links

A location is the list of names on the way from the root of the file system.
A tree says what is at each location; only a directory has anything below it.

Resolving a path walks its components from a location.  A symbolic link
replaces itself by its target, which may again contain links, dangle or run in
a circle.  `Walks` relates the walk to where it ends: at a location, or at the
first name which is missing.  A walk which runs in a circle, or through a
regular file, ends nowhere.
-/

namespace Luminosity.Host.FileTree

open Luminosity.Foundation.TextSegments
open Luminosity.Host.Paths

/-- The names on the way from the root of the file system. -/
abbrev Location := List Text

inductive Entry where
  | directory
  | file (bytes : Bytes)
  | link (target : Path)

/-- What is at each location; only a directory has entries below it. -/
structure Tree where
  entry : Location → Option Entry
  rooted : entry [] = some .directory
  closed : ∀ location name,
    entry (location ++ [name]) ≠ none → entry location = some .directory

/-- Where a walk ends: at a location, or short of a missing name. -/
inductive Found where
  | present (location : Location)
  | missing (parent : Location) (name : Text) (rest : List Component)

/-- Where a path starts, seen from a location. -/
def origin (path : Path) (here : Location) : Location :=
  if path.absolute then [] else here

/-- The absolute path which spells a location. -/
def located (location : Location) : Path :=
  { absolute := true, components := location.map .normal }

theorem normal_injective : Function.Injective Component.normal := by
  intro left right equal
  exact Component.normal.inj equal

theorem located_injective : Function.Injective located := by
  intro location other same
  exact List.map_injective_iff.mpr normal_injective
    (congrArg Path.components same)

/-! ## Changing one entry -/

namespace Tree

/-- The tree with another entry in a directory, in place of no directory. -/
def graft (tree : Tree) (parent : Location) (name : Text)
    (new : Option Entry)
    (inside : tree.entry parent = some .directory)
    (childless : tree.entry (parent ++ [name]) ≠ some .directory) :
    Tree where
  entry := Function.update tree.entry (parent ++ [name]) new
  rooted := by
    rw [Function.update_of_ne (by simp), tree.rooted]
  closed := by
    intro location below present
    by_cases same : location ++ [below] = parent ++ [name]
    · rcases List.append_inj' same rfl with ⟨rfl, _⟩
      rw [Function.update_of_ne (by simp), inside]
    · rw [Function.update_of_ne same] at present
      have directory := tree.closed location below present
      have different : location ≠ parent ++ [name] := by
        rintro rfl
        exact childless directory
      rw [Function.update_of_ne different, directory]

section Graft

variable {tree : Tree} {parent : Location} {name : Text}
variable {new : Option Entry}
variable (inside : tree.entry parent = some .directory)
variable (childless : tree.entry (parent ++ [name]) ≠ some .directory)

@[simp]
theorem graft_entry_self :
    (tree.graft parent name new inside childless).entry (parent ++ [name]) =
      new := by
  simp [graft]

theorem graft_entry_of_ne
    {location : Location} (different : location ≠ parent ++ [name]) :
    (tree.graft parent name new inside childless).entry location =
      tree.entry location := by
  simp [graft, Function.update_of_ne different]

end Graft

/-- Nothing is below what is missing. -/
theorem entry_below_none
    {tree : Tree} {location : Location} (absent : tree.entry location = none)
    (name : Text) :
    tree.entry (location ++ [name]) = none := by
  by_contra present
  rw [tree.closed location name present] at absent
  cases absent

end Tree

/-! ## Walks -/

/-- A walk along the components of a path, following every link. -/
inductive Walks (tree : Tree) :
    Location → List Component → Found → Prop where
  | arrive (here : Location) :
      Walks tree here [] (.present here)
  | stay
      (inside : tree.entry here = some .directory)
      (rest : Walks tree here components found) :
      Walks tree here (.current :: components) found
  | leave
      (inside : tree.entry here = some .directory)
      (rest : Walks tree here.dropLast components found) :
      Walks tree here (.parent :: components) found
  | enter
      (present : tree.entry (here ++ [name]) = some entry)
      (notLink : ∀ target, entry ≠ .link target)
      (rest : Walks tree (here ++ [name]) components found) :
      Walks tree here (.normal name :: components) found
  | follow
      (linked : tree.entry (here ++ [name]) = some (.link target))
      (rest : Walks tree (origin target here)
        (target.components ++ components) found) :
      Walks tree here (.normal name :: components) found
  | miss
      (inside : tree.entry here = some .directory)
      (absent : tree.entry (here ++ [name]) = none) :
      Walks tree here (.normal name :: components)
        (.missing here name components)

variable {tree : Tree} {here middle : Location} {name : Text}
variable {components front back : List Component} {found other : Found}

/-- A walk ends in one way only. -/
theorem Walks.deterministic
    (walks : Walks tree here components found)
    (otherwise : Walks tree here components other) :
    found = other := by
  induction walks with
  | arrive here =>
      cases otherwise
      rfl
  | stay inside rest induction =>
      cases otherwise with
      | stay _ rest => exact induction rest
  | leave inside rest induction =>
      cases otherwise with
      | leave _ rest => exact induction rest
  | enter present notLink rest induction =>
      cases otherwise with
      | enter _ _ rest => exact induction rest
      | follow linked _ =>
          rw [present] at linked
          exact absurd (Option.some.inj linked) (notLink _)
      | miss _ absent =>
          rw [present] at absent
          cases absent
  | follow linked rest induction =>
      cases otherwise with
      | enter present notLink _ =>
          rw [linked] at present
          exact absurd (Option.some.inj present).symm (notLink _)
      | follow linkedAgain rest =>
          rw [linked] at linkedAgain
          cases linkedAgain
          exact induction rest
      | miss _ absent =>
          rw [linked] at absent
          cases absent
  | miss inside absent =>
      cases otherwise with
      | enter present _ _ =>
          rw [absent] at present
          cases present
      | follow linked _ =>
          rw [absent] at linked
          cases linked
      | miss _ _ => rfl

/-! ### Walking on -/

/-- A walk which arrives can be continued. -/
theorem Walks.append
    (walks : Walks tree here front (.present middle))
    (onward : Walks tree middle back found) :
    Walks tree here (front ++ back) found := by
  generalize arrival : Found.present middle = ending at walks
  induction walks with
  | arrive here =>
      cases arrival
      exact onward
  | stay inside rest induction => exact .stay inside (induction arrival)
  | leave inside rest induction => exact .leave inside (induction arrival)
  | enter present notLink rest induction =>
      exact .enter present notLink (induction arrival)
  | follow linked rest induction =>
      have further := induction arrival
      rw [List.append_assoc] at further
      exact .follow linked further
  | miss inside absent => cases arrival

/-- A walk which misses a name misses it however the path goes on. -/
theorem Walks.missing_append
    {parent : Location} {rest : List Component}
    (walks : Walks tree here front (.missing parent name rest))
    (back : List Component) :
    Walks tree here (front ++ back) (.missing parent name (rest ++ back)) := by
  generalize ending : Found.missing parent name rest = last at walks
  induction walks with
  | arrive here => cases ending
  | stay inside rest induction => exact .stay inside (induction ending)
  | leave inside rest induction => exact .leave inside (induction ending)
  | enter present notLink rest induction =>
      exact .enter present notLink (induction ending)
  | follow linked rest induction =>
      have further := induction ending
      rw [List.append_assoc] at further
      exact .follow linked further
  | miss inside absent =>
      cases ending
      exact .miss inside absent

/-- A walk along two paths arrives between them, or misses a name before. -/
theorem Walks.split
    (walks : Walks tree here (front ++ back) found) :
    (∃ middle, Walks tree here front (.present middle) ∧
      Walks tree middle back found) ∨
        ∃ parent name rest,
          Walks tree here front (.missing parent name rest) ∧
            found = .missing parent name (rest ++ back) := by
  generalize whole : front ++ back = components at walks
  induction walks generalizing front with
  | arrive here =>
      rcases List.append_eq_nil_iff.mp whole with ⟨rfl, rfl⟩
      exact Or.inl ⟨here, .arrive here, .arrive here⟩
  | @stay here components found inside rest induction =>
      cases front with
      | nil =>
          subst whole
          exact Or.inl ⟨here, .arrive here, .stay inside rest⟩
      | cons first front =>
          rcases List.cons.inj whole with ⟨rfl, same⟩
          rcases induction same with
            ⟨middle, walked, onward⟩ | ⟨parent, name, left, walked, ends⟩
          · exact Or.inl ⟨middle, .stay inside walked, onward⟩
          · exact Or.inr ⟨parent, name, left, .stay inside walked, ends⟩
  | @leave here components found inside rest induction =>
      cases front with
      | nil =>
          subst whole
          exact Or.inl ⟨here, .arrive here, .leave inside rest⟩
      | cons first front =>
          rcases List.cons.inj whole with ⟨rfl, same⟩
          rcases induction same with
            ⟨middle, walked, onward⟩ | ⟨parent, name, left, walked, ends⟩
          · exact Or.inl ⟨middle, .leave inside walked, onward⟩
          · exact Or.inr ⟨parent, name, left, .leave inside walked, ends⟩
  | @enter here name entry components found present notLink rest induction =>
      cases front with
      | nil =>
          subst whole
          exact Or.inl ⟨here, .arrive here, .enter present notLink rest⟩
      | cons first front =>
          rcases List.cons.inj whole with ⟨rfl, same⟩
          rcases induction same with
            ⟨middle, walked, onward⟩ | ⟨parent, name, left, walked, ends⟩
          · exact Or.inl ⟨middle, .enter present notLink walked, onward⟩
          · exact
              Or.inr ⟨parent, name, left, .enter present notLink walked, ends⟩
  | @follow here name target components found linked rest induction =>
      cases front with
      | nil =>
          subst whole
          exact Or.inl ⟨here, .arrive here, .follow linked rest⟩
      | cons first front =>
          rcases List.cons.inj whole with ⟨rfl, same⟩
          have longer :
              (target.components ++ front) ++ back =
                target.components ++ components := by
            rw [List.append_assoc]
            exact congrArg (target.components ++ ·) same
          rcases induction longer with
            ⟨middle, walked, onward⟩ | ⟨parent, name, left, walked, ends⟩
          · exact Or.inl ⟨middle, .follow linked walked, onward⟩
          · exact Or.inr ⟨parent, name, left, .follow linked walked, ends⟩
  | @miss here name components inside absent =>
      cases front with
      | nil =>
          subst whole
          exact Or.inl ⟨here, .arrive here, .miss inside absent⟩
      | cons first front =>
          rcases List.cons.inj whole with ⟨rfl, rfl⟩
          exact Or.inr ⟨here, name, front, .miss inside absent, rfl⟩

/-! ### Where walks arrive -/

/-- A walk from what is no link arrives at what is no link. -/
theorem Walks.solid
    (walks : Walks tree here components (.present middle))
    (solid : ∃ entry, tree.entry here = some entry ∧
      ∀ target, entry ≠ .link target) :
    ∃ entry, tree.entry middle = some entry ∧
      ∀ target, entry ≠ .link target := by
  generalize arrival : Found.present middle = ending at walks
  induction walks with
  | arrive here =>
      cases arrival
      exact solid
  | stay inside rest induction => exact induction solid arrival
  | @leave here components found inside rest induction =>
      apply induction _ arrival
      refine ⟨.directory, ?_, by rintro target ⟨⟩⟩
      rcases List.eq_nil_or_concat here with rfl | ⟨above, last, rfl⟩
      · exact tree.rooted
      · rw [List.concat_eq_append, List.dropLast_concat]
        apply tree.closed above last
        rw [← List.concat_eq_append, inside]
        simp
  | enter present notLink rest induction =>
      exact induction ⟨_, present, notLink⟩ arrival
  | @follow here name target components found linked rest induction =>
      apply induction _ arrival
      refine ⟨.directory, ?_, by rintro target ⟨⟩⟩
      rw [origin]
      split_ifs
      · exact tree.rooted
      · apply tree.closed here name
        rw [linked]
        simp
  | miss inside absent => cases arrival

/-- A walk misses names in directories only. -/
theorem Walks.missing
    {parent : Location} {rest : List Component}
    (walks : Walks tree here components (.missing parent name rest)) :
    tree.entry parent = some .directory ∧
      tree.entry (parent ++ [name]) = none := by
  generalize ending : Found.missing parent name rest = last at walks
  induction walks with
  | arrive here => cases ending
  | stay inside rest induction => exact induction ending
  | leave inside rest induction => exact induction ending
  | enter present notLink rest induction => exact induction ending
  | follow linked rest induction => exact induction ending
  | miss inside absent =>
      cases ending
      exact ⟨inside, absent⟩

/-- Nothing lies below a regular file. -/
theorem Walks.of_file
    {bytes : Bytes} (file : tree.entry here = some (.file bytes))
    (walks : Walks tree here components (.present middle)) :
    components = [] ∧ middle = here := by
  have noDirectory : tree.entry here ≠ some .directory := by
    rw [file]
    simp
  cases walks with
  | arrive => exact ⟨rfl, rfl⟩
  | stay inside _ => exact absurd inside noDirectory
  | leave inside _ => exact absurd inside noDirectory
  | @enter _ name _ _ _ present _ _ =>
      exact absurd (tree.closed here name (by simp [present])) noDirectory
  | @follow _ name _ _ _ linked _ =>
      exact absurd (tree.closed here name (by simp [linked])) noDirectory

/-- The location a path opens for writing: a file's, or a missing name's. -/
def Opens (tree : Tree) (here : Location) (components : List Component)
    (location : Location) : Prop :=
  (∃ parent name, Walks tree here components (.missing parent name []) ∧
    location = parent ++ [name]) ∨
      ∃ bytes, Walks tree here components (.present location) ∧
        tree.entry location = some (.file bytes)

theorem Opens.deterministic
    {location otherLocation : Location}
    (opens : Opens tree here components location)
    (otherwise : Opens tree here components otherLocation) :
    location = otherLocation := by
  rcases opens with ⟨parent, name, walks, rfl⟩ | ⟨_, walks, _⟩
  · rcases otherwise with ⟨_, _, again, rfl⟩ | ⟨_, again, _⟩
    · cases walks.deterministic again
      rfl
    · cases walks.deterministic again
  · rcases otherwise with ⟨_, _, again, rfl⟩ | ⟨_, again, _⟩
    · cases walks.deterministic again
    · cases walks.deterministic again
      rfl

theorem Opens.not_link
    {location : Location}
    (opens : Opens tree here components location) (target : Path) :
    tree.entry location ≠ some (.link target) := by
  rcases opens with ⟨parent, name, walks, rfl⟩ | ⟨bytes, _, file⟩
  · rw [walks.missing.2]
    simp
  · rw [file]
    simp

/-- What a path opens is an entry of a directory, and no directory itself. -/
theorem Opens.parts
    {location : Location}
    (opens : Opens tree here components location) :
    ∃ parent name, location = parent ++ [name] ∧
      tree.entry parent = some .directory ∧
        tree.entry (parent ++ [name]) ≠ some .directory := by
  rcases opens with ⟨parent, name, walks, rfl⟩ | ⟨bytes, _, file⟩
  · refine ⟨parent, name, rfl, walks.missing.1, ?_⟩
    rw [walks.missing.2]
    simp
  · rcases List.eq_nil_or_concat location with rfl | ⟨parent, name, whole⟩
    · rw [tree.rooted] at file
      cases file
    · rw [List.concat_eq_append] at whole
      subst whole
      refine ⟨parent, name, rfl, ?_, ?_⟩
      · apply tree.closed parent name
        rw [file]
        simp
      · rw [file]
        simp

/-! ### Walks after a change -/

section Graft

variable {parent : Location} {new : Option Entry}
variable (inside : tree.entry parent = some .directory)
variable (childless : tree.entry (parent ++ [name]) ≠ some .directory)

theorem graft_directory
    (directory : tree.entry here = some .directory) :
    (tree.graft parent name new inside childless).entry here =
      some .directory := by
  rw [Tree.graft_entry_of_ne inside childless, directory]
  rintro rfl
  exact childless directory

/-- Changing what is no link keeps every walk which arrives elsewhere. -/
theorem Walks.graft_elsewhere
    (walks : Walks tree here components (.present middle))
    (different : middle ≠ parent ++ [name])
    (notLink : ∀ target,
      tree.entry (parent ++ [name]) ≠ some (.link target)) :
    Walks (tree.graft parent name new inside childless) here components
      (.present middle) := by
  generalize arrival : Found.present middle = ending at walks
  induction walks with
  | arrive here => exact .arrive here
  | stay directory rest induction =>
      exact .stay (graft_directory inside childless directory)
        (induction arrival)
  | leave directory rest induction =>
      exact .leave (graft_directory inside childless directory)
        (induction arrival)
  | @enter here below entry components found present solid rest induction =>
      subst arrival
      have apart : here ++ [below] ≠ parent ++ [name] := by
        intro same
        rw [same] at present rest
        cases entry with
        | directory => exact childless present
        | link target => exact solid target rfl
        | file bytes => exact different (rest.of_file present).2
      refine .enter ?_ solid (induction rfl)
      rw [Tree.graft_entry_of_ne inside childless apart, present]
  | @follow here below target components found linked rest induction =>
      have apart : here ++ [below] ≠ parent ++ [name] := by
        intro same
        rw [same] at linked
        exact notLink target linked
      refine .follow ?_ (induction arrival)
      rw [Tree.graft_entry_of_ne inside childless apart, linked]
  | miss directory absent => cases arrival

/-- A path which misses one name arrives once there is a file. -/
theorem Walks.graft_missing
    (walks : Walks tree here components (.missing parent name []))
    {bytes : Bytes} :
    Walks (tree.graft parent name (some (.file bytes)) inside childless)
      here components (.present (parent ++ [name])) := by
  have vacant := walks.missing.2
  generalize ending : Found.missing parent name [] = found at walks
  induction walks with
  | arrive here => cases ending
  | stay directory rest induction =>
      exact .stay (graft_directory inside childless directory)
        (induction ending)
  | leave directory rest induction =>
      exact .leave (graft_directory inside childless directory)
        (induction ending)
  | @enter here below entry components found present solid rest induction =>
      have apart : here ++ [below] ≠ parent ++ [name] := by
        intro same
        rw [same, vacant] at present
        cases present
      refine .enter ?_ solid (induction ending)
      rw [Tree.graft_entry_of_ne inside childless apart, present]
  | @follow here below target components found linked rest induction =>
      have apart : here ++ [below] ≠ parent ++ [name] := by
        intro same
        rw [same, vacant] at linked
        cases linked
      refine .follow ?_ (induction ending)
      rw [Tree.graft_entry_of_ne inside childless apart, linked]
  | miss directory absent =>
      cases ending
      apply Walks.enter (Tree.graft_entry_self inside childless)
      · rintro target ⟨⟩
      · exact .arrive _

/-- A path to a file arrives there whatever the file holds. -/
theorem Walks.graft_file
    {old : Bytes}
    (walks : Walks tree here components (.present (parent ++ [name])))
    (file : tree.entry (parent ++ [name]) = some (.file old))
    {bytes : Bytes} :
    Walks (tree.graft parent name (some (.file bytes)) inside childless)
      here components (.present (parent ++ [name])) := by
  generalize arrival : Found.present (parent ++ [name]) = found at walks
  induction walks with
  | arrive here =>
      cases arrival
      exact .arrive _
  | stay directory rest induction =>
      exact .stay (graft_directory inside childless directory)
        (induction arrival)
  | leave directory rest induction =>
      exact .leave (graft_directory inside childless directory)
        (induction arrival)
  | @enter here below entry components found present solid rest induction =>
      subst arrival
      by_cases same : here ++ [below] = parent ++ [name]
      · rw [same] at rest
        rcases rest.of_file file with ⟨rfl, _⟩
        rcases List.append_inj' same rfl with ⟨rfl, last⟩
        cases last
        apply Walks.enter (Tree.graft_entry_self inside childless)
        · rintro target ⟨⟩
        · exact .arrive _
      · refine .enter ?_ solid (induction rfl)
        rw [Tree.graft_entry_of_ne inside childless same, present]
  | @follow here below target components found linked rest induction =>
      have apart : here ++ [below] ≠ parent ++ [name] := by
        intro same
        rw [same, file] at linked
        cases linked
      refine .follow ?_ (induction arrival)
      rw [Tree.graft_entry_of_ne inside childless apart, linked]
  | miss directory absent => cases arrival

/-- A path which opens a location arrives there once a file is written. -/
theorem Opens.graft
    (opens : Opens tree here components (parent ++ [name]))
    {bytes : Bytes} :
    Walks (tree.graft parent name (some (.file bytes)) inside childless)
      here components (.present (parent ++ [name])) := by
  rcases opens with ⟨_, _, walks, same⟩ | ⟨old, walks, file⟩
  · rcases List.append_inj' same rfl with ⟨rfl, last⟩
    cases last
    exact walks.graft_missing inside childless
  · exact walks.graft_file inside childless file

end Graft

end Luminosity.Host.FileTree
