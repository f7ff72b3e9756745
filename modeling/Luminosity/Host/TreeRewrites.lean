import Luminosity.Host.FileTree

/-!
# Walks before and after a file is replaced

A program which replaces one file makes the directories it needs, writes a
scratch file and removes it again, and puts a file in place of the target.  The
trees before and after differ in nothing else.

Walks to a directory are kept.  What can be walked to afterwards could be
walked to before, or a name on the way to it was missing: nothing else is
brought into being by the directories and the one file.
-/

namespace Luminosity.Host.TreeRewrites

open Luminosity.Foundation.TextSegments
open Luminosity.Host.Paths
open Luminosity.Host.FileTree

/-- A walk ends at a regular file or at a missing name. -/
def Settled
    (tree : Tree)
    (here : Location)
    (components : List Component) : Prop :=
  ∃ found, Walks tree here components found ∧
    ∀ place, found = .present place →
      ∃ bytes, tree.entry place = some (.file bytes)

/--
A file in place of the target, directories where nothing was, and files which
are gone; the target led to a file or to a missing name before.
-/
structure Rewrites (before after : Tree) (target : Location) : Prop where
  entries : ∀ location, location ≠ target →
    after.entry location = before.entry location ∨
      (before.entry location = none ∧
        after.entry location = some .directory) ∨
      ((∃ bytes, before.entry location = some (.file bytes)) ∧
        after.entry location = none)
  written : ∃ bytes, after.entry target = some (.file bytes)
  settled : ∀ parent name,
    target = parent ++ [name] →
      before.entry parent = some .directory →
        Settled before parent [.normal name]

/-- What settles at a file has nothing below it. -/
theorem Settled.not_directory
    {tree : Tree}
    {here place : Location}
    {front back : List Component}
    (settled : Settled tree here front)
    (walks : Walks tree here (front ++ back) (.present place)) :
    tree.entry place ≠ some .directory := by
  intro directory
  rcases settled with ⟨found, ends, file⟩
  rcases walks.split with
    ⟨middle, walked, onward⟩ | ⟨parent, name, rest, _, absurdly⟩
  · cases ends.deterministic walked
    rcases file middle rfl with ⟨bytes, isFile⟩
    rcases onward.of_file isFile with ⟨_, rfl⟩
    rw [isFile] at directory
    cases directory
  · cases absurdly

section Rewrites

variable {before after : Tree}
variable {target here place : Location}
variable {components : List Component}
variable (rewrites : Rewrites before after target)

include rewrites

theorem Rewrites.target_ne_nil : target ≠ [] := by
  rintro rfl
  rcases rewrites.written with ⟨bytes, file⟩
  rw [after.rooted] at file
  cases file

/-- A step through the target in a directory settles. -/
theorem Rewrites.settled_step
    {name : Text}
    (same : here ++ [name] = target)
    (present : before.entry target ≠ none) :
    Settled before here [.normal name] := by
  apply rewrites.settled here name same.symm
  rw [← same] at present
  exact before.closed here name present

/-- Directories stay. -/
theorem Rewrites.directory
    (directory : before.entry here = some .directory) :
    after.entry here = some .directory := by
  by_cases same : here = target
  · exfalso
    subst same
    rcases List.eq_nil_or_concat here with rfl | ⟨parent, name, whole⟩
    · exact rewrites.target_ne_nil rfl
    · rw [List.concat_eq_append] at whole
      have settled :=
        rewrites.settled_step whole.symm (by simp [directory])
      rw [whole] at directory
      have walks :
          Walks before parent ([.normal name] ++ [])
            (.present (parent ++ [name])) :=
        .enter directory (by rintro target ⟨⟩) (.arrive _)
      exact settled.not_directory walks directory
  · rcases rewrites.entries here same with
      kept | ⟨vacant, _⟩ | ⟨⟨bytes, file⟩, _⟩
    · rw [kept]
      exact directory
    · rw [directory] at vacant
      cases vacant
    · rw [directory] at file
      cases file

/-- A walk to a directory is not changed. -/
theorem Rewrites.walks_after
    (walks : Walks before here components (.present place))
    (directory : before.entry place = some .directory) :
    Walks after here components (.present place) := by
  generalize arrival : Found.present place = found at walks
  induction walks with
  | arrive here =>
      cases arrival
      exact .arrive _
  | stay inside rest induction =>
      exact .stay (rewrites.directory inside) (induction arrival)
  | leave inside rest induction =>
      exact .leave (rewrites.directory inside) (induction arrival)
  | @enter here name entry components found present notLink rest induction =>
      subst arrival
      have onward := induction rfl
      cases entry with
      | directory =>
          exact .enter (rewrites.directory present) notLink onward
      | link target => exact absurd rfl (notLink target)
      | file bytes =>
          rcases rest.of_file present with ⟨_, rfl⟩
          rw [present] at directory
          cases directory
  | @follow here name link components found linked rest induction =>
      subst arrival
      have walks :
          Walks before here ([.normal name] ++ components) (.present place) :=
        .follow linked rest
      by_cases same : here ++ [name] = target
      · have present : before.entry target ≠ none := by
          rw [← same, linked]
          simp
        have settled := rewrites.settled_step same present
        exact absurd directory (settled.not_directory walks)
      · rcases rewrites.entries _ same with
          kept | ⟨vacant, _⟩ | ⟨⟨bytes, file⟩, _⟩
        · exact .follow (kept.trans linked) (induction rfl)
        · rw [linked] at vacant
          cases vacant
        · rw [linked] at file
          cases file
  | miss inside absent => cases arrival

/-- What is walked to was walked to before, or led to a missing name. -/
theorem Rewrites.walks_before
    (walks : Walks after here components (.present place))
    (same : before.entry here = after.entry here) :
    (∃ old, Walks before here components (.present old) ∧
      (after.entry place = some .directory →
        before.entry old = some .directory)) ∨
      ∃ parent name rest,
        Walks before here components (.missing parent name rest) := by
  generalize arrival : Found.present place = found at walks
  induction walks with
  | arrive here =>
      cases arrival
      refine Or.inl ⟨_, .arrive _, ?_⟩
      rw [same]
      exact id
  | stay inside rest induction =>
      rw [← same] at inside
      rcases induction same arrival with
        ⟨old, walked, directory⟩ | ⟨parent, name, left, walked⟩
      · exact Or.inl ⟨old, .stay inside walked, directory⟩
      · exact Or.inr ⟨parent, name, left, .stay inside walked⟩
  | @leave here components found inside rest induction =>
      rw [← same] at inside
      have above : before.entry here.dropLast = some .directory := by
        rcases List.eq_nil_or_concat here with rfl | ⟨parent, name, rfl⟩
        · exact before.rooted
        · rw [List.concat_eq_append, List.dropLast_concat]
          apply before.closed parent name
          rw [← List.concat_eq_append, inside]
          simp
      have sameAbove := above.trans (rewrites.directory above).symm
      rcases induction sameAbove arrival with
        ⟨old, walked, directory⟩ | ⟨parent, name, left, walked⟩
      · exact Or.inl ⟨old, .leave inside walked, directory⟩
      · exact Or.inr ⟨parent, name, left, .leave inside walked⟩
  | @enter here name entry components found present notLink rest induction =>
      subst arrival
      have inside : before.entry here = some .directory := by
        rw [same]
        apply after.closed here name
        rw [present]
        simp
      by_cases isTarget : here ++ [name] = target
      · -- A file is written there, so the walk ends with it.
        rcases rewrites.written with ⟨bytes, file⟩
        rw [isTarget] at rest
        rcases rest.of_file file with ⟨rfl, rfl⟩
        rcases rewrites.settled here name isTarget.symm inside with
          ⟨found, walked, _⟩
        cases found with
        | present old =>
            refine Or.inl ⟨old, walked, ?_⟩
            rw [file]
            rintro ⟨⟩
        | missing parent last left =>
            exact Or.inr ⟨parent, last, left, walked⟩
      · rcases rewrites.entries _ isTarget with
          kept | ⟨vacant, _⟩ | ⟨_, gone⟩
        · have there := kept.symm.trans present
          rcases induction kept.symm rfl with
            ⟨old, walked, directory⟩ | ⟨parent, last, left, walked⟩
          · exact Or.inl ⟨old, .enter there notLink walked, directory⟩
          · exact Or.inr ⟨parent, last, left, .enter there notLink walked⟩
        · exact Or.inr ⟨here, name, components, .miss inside vacant⟩
        · rw [gone] at present
          cases present
  | @follow here name link components found linked rest induction =>
      subst arrival
      have isOther : here ++ [name] ≠ target := by
        intro isTarget
        rcases rewrites.written with ⟨bytes, file⟩
        rw [isTarget, file] at linked
        cases linked
      have start :
          before.entry (origin link here) = after.entry (origin link here) := by
        rw [origin]
        split_ifs
        · rw [before.rooted, after.rooted]
        · exact same
      rcases rewrites.entries _ isOther with kept | ⟨_, made⟩ | ⟨_, gone⟩
      · have there := kept.symm.trans linked
        rcases induction start rfl with
          ⟨old, walked, directory⟩ | ⟨parent, last, left, walked⟩
        · exact Or.inl ⟨old, .follow there walked, directory⟩
        · exact Or.inr ⟨parent, last, left, .follow there walked⟩
      · rw [made] at linked
        cases linked
      · rw [gone] at linked
        cases linked
  | miss inside absent => cases arrival

end Rewrites

end Luminosity.Host.TreeRewrites
