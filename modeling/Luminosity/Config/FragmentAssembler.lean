import Luminosity.Config.Fragment
import Luminosity.Adapters.Store

/-!
# The fragment assembler

The assembler reads the two levels of a document once, combines their bodies
and reports what each level contributed.  The report is computed apart from
the fragment; `Agrees` says in which sense the two never disagree.
-/

namespace Luminosity.Config.FragmentAssembler

open Luminosity.Foundation.TextSegments
open Luminosity.Foundation.TextSlices
open Luminosity.Config.Domain
open Luminosity.Config.Fragment
open Luminosity.Adapters.Store

/-- A trimmed, combined body which is ready to wrap in a block. -/
structure Fragment where
  body : Text
deriving DecidableEq

/-- What one level contributed, and where it was read from. -/
structure LevelContribution where
  level : Level
  path : Text
  discovered : Bool
  hasBody : Bool
deriving DecidableEq

/-- The optional fragment, and a record of the team and the personal level. -/
structure Assembly where
  fragment : Option Fragment
  levels : Vector LevelContribution 2
deriving DecidableEq

/-- Reads one level of one document. -/
structure ReadFragmentBody where
  readBody : FragmentSource → Level → Except ConfigError LevelBody
  locate : FragmentSource → Except ConfigError SourceLocation

/-- What the assembler offers its callers. -/
structure AssembleFragment where
  assemble : FragmentSource → Except ConfigError Assembly
  locate : FragmentSource → Except ConfigError SourceLocation

/-- The body which was read; an absent file counts as an empty one. -/
def bodyText (read : LevelBody) : Text :=
  read.body.getD []

def contribution (level : Level) (read : LevelBody) : LevelContribution where
  level
  path := read.path
  discovered := read.body.isSome
  hasBody := !(trimBlankLines (bodyText read)).isEmpty

def fragmentAssembler (reader : ReadFragmentBody) : AssembleFragment where
  assemble source := do
    let team ← reader.readBody source .team
    let personal ← reader.readBody source .personal
    let fragment :=
      (combine (bodyText team) (bodyText personal)).map fun body => { body }
    let levels :=
      #v[contribution .team team, contribution .personal personal]
    return { fragment, levels }
  locate := reader.locate

/-! ## The report of a level -/

/-- A level has a body exactly when something of it is visible. -/
theorem hasBody_iff (level : Level) (read : LevelBody) :
    (contribution level read).hasBody = true ↔ Visible (bodyText read) := by
  rw [Visible, ← Bool.not_eq_true, ← trimBlankLines_eq_nil_iff]
  show (!(trimBlankLines (bodyText read)).isEmpty) = true ↔ _
  rw [Bool.not_eq_true', ← Bool.not_eq_true, List.isEmpty_iff]

theorem hasBody_eq_false_iff (level : Level) (read : LevelBody) :
    (contribution level read).hasBody = false ↔
      trimBlankLines (bodyText read) = [] := by
  show (!(trimBlankLines (bodyText read)).isEmpty) = false ↔ _
  rw [Bool.not_eq_false', List.isEmpty_iff]

/-- The body of a level when it has one. -/
def survivor (report : LevelContribution) (read : LevelBody) : List Text :=
  if report.hasBody then [trimBlankLines (bodyText read)] else []

theorem survivor_contribution (level : Level) (read : LevelBody) :
    survivor (contribution level read) read =
      if trimBlankLines (bodyText read) = [] then
        []
      else
        [trimBlankLines (bodyText read)] := by
  rw [survivor]
  split_ifs with kept empty empty
  · rw [(hasBody_eq_false_iff level read).mpr empty] at kept
    cases kept
  · rfl
  · rfl
  · rw [Bool.not_eq_true] at kept
    exact absurd ((hasBody_eq_false_iff level read).mp kept) empty

/-- The bodies, joined by one blank line; there is no fragment without any. -/
def joined : List Text → Option Text
  | [] => none
  | first :: rest => some ("\n\n".toList.intercalate (first :: rest))

/-- The trimmed text is the body without the blank lines around it. -/
def TrimmedOf (body text : Text) : Prop :=
  (Visible body ∧
      ∃ before after, body = before ++ text ++ after ∧
        Trimmed before text after) ∨
    (isBlank body = true ∧ text = [])

theorem trimmedOf_trimBlankLines (body : Text) :
    TrimmedOf body (trimBlankLines body) := by
  rcases trimBlankLines_eq body with blank | ⟨before, after, whole, trimmed⟩
  · exact Or.inr blank
  · refine Or.inl ⟨?_, before, after, whole, trimmed⟩
    rw [Visible, ← Bool.not_eq_true, ← trimBlankLines_eq_nil_iff]
    exact trimmed.starts.ne_nil

/-! ## The agreement of the fragment and its report -/

/-- The fragment and the report of its levels agree about both bodies. -/
structure Agrees (team personal : LevelBody) (assembly : Assembly) :
    Prop where
  /-- The report names the levels in order, and where they were read from. -/
  places :
    assembly.levels[0].level = .team ∧
      assembly.levels[0].path = team.path ∧
        assembly.levels[1].level = .personal ∧
          assembly.levels[1].path = personal.path
  discovered :
    assembly.levels[0].discovered = team.body.isSome ∧
      assembly.levels[1].discovered = personal.body.isSome
  hasBody :
    (assembly.levels[0].hasBody = true ↔ Visible (bodyText team)) ∧
      (assembly.levels[1].hasBody = true ↔ Visible (bodyText personal))
  trimmed :
    TrimmedOf (bodyText team) (trimBlankLines (bodyText team)) ∧
      TrimmedOf (bodyText personal) (trimBlankLines (bodyText personal))
  absent :
    assembly.fragment = none ↔
      assembly.levels[0].hasBody = false ∧ assembly.levels[1].hasBody = false
  /-- A trimmed body occurs when its level has one, the team's first. -/
  parts :
    assembly.fragment.map Fragment.body =
      joined
        (survivor assembly.levels[0] team ++
          survivor assembly.levels[1] personal)
  /-- One empty line parts the last team line from the first personal line. -/
  parted :
    assembly.levels[0].hasBody = true → assembly.levels[1].hasBody = true →
      ∃ fragment, assembly.fragment = some fragment ∧
        lines fragment.body =
          lines (trimBlankLines (bodyText team)) ++ [] ::
            lines (trimBlankLines (bodyText personal)) ∧
          (∃ last,
            (lines (trimBlankLines (bodyText team))).getLast? = some last ∧
              Visible last) ∧
          ∃ first,
            (lines (trimBlankLines (bodyText personal))).head? = some first ∧
              Visible first
  ends :
    ∀ fragment, assembly.fragment = some fragment →
      (∃ first, (lines fragment.body).head? = some first ∧ Visible first) ∧
        ∃ last, (lines fragment.body).getLast? = some last ∧ Visible last

/-- What the assembler builds from two bodies. -/
def assemblyOf (team personal : LevelBody) : Assembly where
  fragment :=
    (combine (bodyText team) (bodyText personal)).map fun body => { body }
  levels := #v[contribution .team team, contribution .personal personal]

section Agreement

variable (team personal : LevelBody)

theorem fragment_eq_none_iff :
    (assemblyOf team personal).fragment = none ↔
      (contribution .team team).hasBody = false ∧
        (contribution .personal personal).hasBody = false := by
  rw [hasBody_eq_false_iff, hasBody_eq_false_iff, assemblyOf,
    Option.map_eq_none_iff, combine_eq]
  split_ifs with front back back
  · simp [front, back]
  · simp [back]
  · simp [front]
  · simp [front]

theorem fragment_parts :
    (assemblyOf team personal).fragment.map Fragment.body =
      joined
        (survivor (contribution .team team) team ++
          survivor (contribution .personal personal) personal) := by
  have whole (combined : Option Text) :
      (combined.map fun body => ({ body } : Fragment)).map Fragment.body =
        combined := by
    cases combined <;> rfl
  rw [assemblyOf, whole, combine_eq, survivor_contribution,
    survivor_contribution]
  by_cases front : trimBlankLines (bodyText team) = []
  · by_cases back : trimBlankLines (bodyText personal) = []
    · simp [front, back, joined]
    · simp [front, back, joined, List.intercalate]
  · by_cases back : trimBlankLines (bodyText personal) = []
    · simp [front, back, joined, List.intercalate]
    · simp [front, back, joined, List.intercalate]

theorem combine_both
    (front : trimBlankLines (bodyText team) ≠ [])
    (back : trimBlankLines (bodyText personal) ≠ []) :
    (assemblyOf team personal).fragment =
      some
        { body := trimBlankLines (bodyText team) ++ "\n\n".toList ++
            trimBlankLines (bodyText personal) } := by
  rw [assemblyOf, combine_eq, if_neg front, if_neg back]
  rfl

theorem fragment_parted
    (front : trimBlankLines (bodyText team) ≠ [])
    (back : trimBlankLines (bodyText personal) ≠ []) :
    ∃ fragment, (assemblyOf team personal).fragment = some fragment ∧
      lines fragment.body =
        lines (trimBlankLines (bodyText team)) ++ [] ::
          lines (trimBlankLines (bodyText personal)) ∧
        (∃ last,
          (lines (trimBlankLines (bodyText team))).getLast? = some last ∧
            Visible last) ∧
        ∃ first,
          (lines (trimBlankLines (bodyText personal))).head? = some first ∧
            Visible first := by
  refine ⟨_, combine_both team personal front back, ?_,
    (ends_trimBlankLines front).getLast_lines,
    (starts_trimBlankLines back).head_lines⟩
  show lines (trimBlankLines (bodyText team) ++ ['\n', '\n'] ++
    trimBlankLines (bodyText personal)) = _
  rw [List.append_assoc]
  show lines (trimBlankLines (bodyText team) ++
    '\n' :: ([] ++ '\n' :: trimBlankLines (bodyText personal))) = _
  rw [lines_append_newline, lines_append_newline]
  rfl

theorem fragment_ends
    (fragment : Fragment)
    (built : (assemblyOf team personal).fragment = some fragment) :
    StartsVisible fragment.body ∧ EndsVisible fragment.body := by
  by_cases front : trimBlankLines (bodyText team) = []
  · by_cases back : trimBlankLines (bodyText personal) = []
    · simp [assemblyOf, combine_eq, front, back] at built
    · rw [assemblyOf, combine_eq, if_pos front, if_neg back] at built
      cases built
      exact ⟨starts_trimBlankLines back, ends_trimBlankLines back⟩
  · by_cases back : trimBlankLines (bodyText personal) = []
    · rw [assemblyOf, combine_eq, if_neg front, if_pos back] at built
      cases built
      exact ⟨starts_trimBlankLines front, ends_trimBlankLines front⟩
    · rw [combine_both team personal front back] at built
      cases built
      constructor
      · rw [List.append_assoc]
        exact (starts_trimBlankLines front).append _
      · exact (ends_trimBlankLines back).append _

theorem assemblyOf_agrees :
    Agrees team personal (assemblyOf team personal) := by
  constructor
  · exact ⟨rfl, rfl, rfl, rfl⟩
  · exact ⟨rfl, rfl⟩
  · exact ⟨hasBody_iff .team team, hasBody_iff .personal personal⟩
  · exact ⟨trimmedOf_trimBlankLines _, trimmedOf_trimBlankLines _⟩
  · exact fragment_eq_none_iff team personal
  · exact fragment_parts team personal
  · intro front back
    apply fragment_parted
    · intro empty
      rw [← hasBody_eq_false_iff .team] at empty
      exact absurd (front.symm.trans empty) Bool.noConfusion
    · intro empty
      rw [← hasBody_eq_false_iff .personal] at empty
      exact absurd (back.symm.trans empty) Bool.noConfusion
  · intro fragment built
    have visible := fragment_ends team personal fragment built
    exact ⟨visible.1.head_lines, visible.2.getLast_lines⟩

end Agreement

/--
The assembler fails exactly when a read does, with the error of the team when
both fail; otherwise the fragment and its report agree about both bodies.
-/
theorem assembly_agrees
    (reader : ReadFragmentBody) (source : FragmentSource) :
    match reader.readBody source .team, reader.readBody source .personal with
    | .error error, _ =>
        (fragmentAssembler reader).assemble source = .error error
    | .ok _, .error error =>
        (fragmentAssembler reader).assemble source = .error error
    | .ok team, .ok personal =>
        ∃ assembly,
          (fragmentAssembler reader).assemble source = .ok assembly ∧
            Agrees team personal assembly := by
  cases first : reader.readBody source .team with
  | error error =>
      show (reader.readBody source .team >>= _) = _
      rw [first]
      rfl
  | ok team =>
      cases second : reader.readBody source .personal with
      | error error =>
          show (reader.readBody source .team >>= fun team =>
            reader.readBody source .personal >>= _) = _
          rw [first, second]
          rfl
      | ok personal =>
          refine ⟨assemblyOf team personal, ?_, assemblyOf_agrees team personal⟩
          show (reader.readBody source .team >>= fun team =>
            reader.readBody source .personal >>= _) = _
          rw [first, second]
          rfl

end Luminosity.Config.FragmentAssembler
