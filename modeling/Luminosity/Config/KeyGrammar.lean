import Luminosity.Config.Messages

/-!
# The grammar of the dotted keys

A key is written as its segments with single dots between them.  Splitting at
the dots and joining with them are inverse to each other where no segment has
a dot, so a text is the writing of at most one list of segments, and parsing
finds that list exactly when there is one.
-/

namespace Luminosity.Config.KeyGrammar

open Luminosity.Foundation.TextSegments
open Luminosity.Config.Domain
open Luminosity.Config.Messages

section Fields

variable {α : Type} [DecidableEq α]

/-- The fields of a list are the ones it is joined from. -/
theorem splitOn_eq_iff
    (separator : α)
    (list : List α)
    (fields : List (List α)) :
    list.splitOn separator = fields ↔
      fields ≠ [] ∧ (∀ field ∈ fields, separator ∉ field) ∧
        [separator].intercalate fields = list := by
  constructor
  · rintro rfl
    constructor
    · exact List.splitOn_ne_nil separator list
    · exact
        ⟨notMem_of_mem_splitOn separator list,
          List.intercalate_splitOn separator⟩
  · rintro ⟨nonempty, unseparated, rfl⟩
    exact List.splitOn_intercalate separator unseparated nonempty

end Fields

/-- The texts which name one step of a path. -/
def SegmentName (segment : Text) : Prop :=
  segment ≠ [] ∧ '.' ∉ segment

/-- The text is written as the segments with single dots between them. -/
structure Writes (segments : List Text) (raw : Text) : Prop where
  nonempty : segments ≠ []
  names : ∀ segment ∈ segments, SegmentName segment
  joined : ".".toList.intercalate segments = raw

/-- What is written has no other segments than those between its dots. -/
theorem Writes.splitOn
    {segments : List Text}
    {raw : Text}
    (writes : Writes segments raw) :
    raw.splitOn '.' = segments := by
  rw [splitOn_eq_iff]
  constructor
  · exact writes.nonempty
  · constructor
    · intro segment member
      exact (writes.names segment member).2
    · exact writes.joined

theorem writes_splitOn
    {raw : Text}
    (proper : [] ∉ raw.splitOn '.') :
    Writes (raw.splitOn '.') raw := by
  rcases (splitOn_eq_iff '.' raw _).mp rfl with
    ⟨nonempty, undotted, joined⟩
  constructor
  · exact nonempty
  · intro segment member
    constructor
    · rintro rfl
      exact proper member
    · exact undotted segment member
  · exact joined

/-! ## Parsing -/

/-- The key of some segments. -/
def keyOf
    {segments : List Text}
    {raw : Text}
    (writes : Writes segments raw) :
    Key :=
  { segments := segments
    nonempty := writes.nonempty
    wellFormed := writes.names }

theorem parse_writes
    {segments : List Text}
    {raw : Text}
    (writes : Writes segments raw) :
    Key.parse raw = .ok (keyOf writes) := by
  have fields := writes.splitOn
  have proper : [] ∉ raw.splitOn '.' := by
    rw [fields]
    intro member
    exact (writes.names [] member).1 rfl
  rw [Key.parse, dif_neg proper, Except.ok.injEq]
  exact Key.ext_segments fields

theorem writes_of_parse
    {raw : Text}
    {key : Key}
    (parsed : Key.parse raw = .ok key) :
    Writes key.segments raw := by
  rw [Key.parse] at parsed
  split_ifs at parsed with degenerate
  cases parsed
  exact writes_splitOn degenerate

/-- Parsing fails in one way only. -/
theorem parse_cases (raw : Text) :
    (∃ key, Key.parse raw = .ok key) ∨
      Key.parse raw = .error (.invalidKey raw) := by
  rw [Key.parse]
  split_ifs with degenerate
  · exact Or.inr rfl
  · exact Or.inl ⟨_, rfl⟩

/-- The segments of the key are those the text is written from. -/
theorem parse_iff
    (raw : Text)
    (segments : List Text) :
    (∃ key, Key.parse raw = .ok key ∧ key.segments = segments) ↔
      Writes segments raw := by
  constructor
  · rintro ⟨key, parsed, rfl⟩
    exact writes_of_parse parsed
  · intro writes
    exact ⟨keyOf writes, parse_writes writes, rfl⟩

theorem display_parse
    {raw : Text}
    {key : Key}
    (parsed : Key.parse raw = .ok key) :
    displayKey key = raw :=
  (writes_of_parse parsed).joined

theorem parse_refuses
    {raw : Text}
    (unwritten : ∀ segments, ¬ Writes segments raw) :
    Key.parse raw = .error (.invalidKey raw) := by
  rcases parse_cases raw with ⟨key, parsed⟩ | refused
  · exact absurd (writes_of_parse parsed) (unwritten key.segments)
  · exact refused

/-- Two texts with the same segments are the same text. -/
theorem parse_segments_injective
    {left right : Text}
    {leftKey rightKey : Key}
    (leftParsed : Key.parse left = .ok leftKey)
    (rightParsed : Key.parse right = .ok rightKey)
    (segments : leftKey.segments = rightKey.segments) :
    left = right := by
  have same : leftKey = rightKey := Key.ext_segments segments
  rw [← display_parse leftParsed, same]
  exact display_parse rightParsed

/--
Parsing accepts the texts of the grammar and no others, with the segments they
are written from and with nothing lost; the writing of every list of segment
names is among them, and no two of them have one path.
-/
theorem parse_accepts_grammar :
    (∀ raw segments,
      (∃ key, Key.parse raw = .ok key ∧ key.segments = segments) ↔
        Writes segments raw) ∧
    (∀ raw,
      (∀ segments, ¬ Writes segments raw) →
        Key.parse raw = .error (.invalidKey raw)) ∧
    (∀ raw key,
      Key.parse raw = .ok key →
        displayKey key = raw ∧ key.segments ≠ []) ∧
    (∀ segments,
      segments ≠ [] →
        (∀ segment ∈ segments, segment ≠ [] ∧ '.' ∉ segment) →
          ∃ key,
            Key.parse (".".toList.intercalate segments) = .ok key ∧
              key.segments = segments) ∧
    (∀ left right leftKey rightKey,
      Key.parse left = .ok leftKey →
        Key.parse right = .ok rightKey →
          left ≠ right →
            leftKey.segments ≠ rightKey.segments) := by
  constructor
  · exact parse_iff
  constructor
  · intro raw unwritten
    exact parse_refuses unwritten
  constructor
  · intro raw key parsed
    exact ⟨display_parse parsed, key.nonempty⟩
  constructor
  · intro segments nonempty names
    exact (parse_iff _ segments).mpr ⟨nonempty, names, rfl⟩
  · intro left right leftKey rightKey leftParsed rightParsed different same
    exact different (parse_segments_injective leftParsed rightParsed same)

-- An empty text, a dot at either end and two dots in a row all leave an empty
-- segment.
example :
    ["", ".model", "agent.", "agent..model"].map
        (fun raw => (Key.parse raw.toList).isOk) =
      [false, false, false, false] := by
  decide

end Luminosity.Config.KeyGrammar
