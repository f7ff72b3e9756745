import Luminosity.Adapters.Frontmatter
import Luminosity.Config.Domain
import Luminosity.Foundation.EffectPrograms

/-!
# The serde boundary

YAML is parsed to and serialized from `Parsed` by an external library, which
the model takes as the parameter `Saphyr`.  `Parsed` and the configuration
tree have the same shape, so the two mappings between them are inverse to each
other.

Rendering puts a document between two fences, in front of the body of the
file it replaces.  Under the laws of the library, splitting the rendered text
finds exactly the emitted YAML and that body again, and rendering once more
changes nothing.
-/

namespace Luminosity.Adapters.Document

open Luminosity.Foundation.TextSegments
open Luminosity.Foundation.EffectPrograms
open Luminosity.Config.Domain
open Luminosity.Adapters.Frontmatter

/-- The serde-side value.  A float is held as its 64-bit representation. -/
inductive Parsed where
  | null
  | bool (value : Bool)
  | int (value : Int64)
  | float (bits : UInt64)
  | str (value : Text)
  | seq (items : List Parsed)
  | map (entries : List (Text × Parsed))

/-! ## The type mapping -/

mutual

def toNode : Parsed → Node
  | .null => .scalar .null
  | .bool value => .scalar (.bool value)
  | .int value => .scalar (.int value)
  | .float bits => .scalar (.float bits)
  | .str value => .scalar (.string value)
  | .seq items => .sequence (toNodeItems items)
  | .map entries => .mapping (toNodeEntries entries)

def toNodeItems : List Parsed → List Node
  | [] => []
  | item :: items => toNode item :: toNodeItems items

def toNodeEntries : List (Text × Parsed) → List (Text × Node)
  | [] => []
  | (name, value) :: entries => (name, toNode value) :: toNodeEntries entries

end

mutual

def toParsed : Node → Parsed
  | .scalar .null => .null
  | .scalar (.bool value) => .bool value
  | .scalar (.int value) => .int value
  | .scalar (.float bits) => .float bits
  | .scalar (.string value) => .str value
  | .sequence items => .seq (toParsedItems items)
  | .mapping entries => .map (toParsedEntries entries)

def toParsedItems : List Node → List Parsed
  | [] => []
  | item :: items => toParsed item :: toParsedItems items

def toParsedEntries : List (Text × Node) → List (Text × Parsed)
  | [] => []
  | (name, value) :: entries =>
      (name, toParsed value) :: toParsedEntries entries

end

mutual

/-- The type mapping loses nothing of a configuration tree. -/
theorem toNode_toParsed : (node : Node) → toNode (toParsed node) = node
  | .scalar .null => rfl
  | .scalar (.bool _) => rfl
  | .scalar (.int _) => rfl
  | .scalar (.float _) => rfl
  | .scalar (.string _) => rfl
  | .sequence items => by
      rw [toParsed, toNode, toNodeItems_toParsedItems items]
  | .mapping entries => by
      rw [toParsed, toNode, toNodeEntries_toParsedEntries entries]

theorem toNodeItems_toParsedItems :
    (items : List Node) → toNodeItems (toParsedItems items) = items
  | [] => rfl
  | item :: items => by
      rw [toParsedItems, toNodeItems, toNode_toParsed item,
        toNodeItems_toParsedItems items]

theorem toNodeEntries_toParsedEntries :
    (entries : List (Text × Node)) →
      toNodeEntries (toParsedEntries entries) = entries
  | [] => rfl
  | (name, value) :: entries => by
      rw [toParsedEntries, toNodeEntries, toNode_toParsed value,
        toNodeEntries_toParsedEntries entries]

end

/-! ## The YAML library -/

structure Saphyr where
  toString : Parsed → Except Text Text
  fromStr : Text → Except Text Parsed

/-- What the adapter relies on of the YAML library. -/
structure Saphyr.Lawful (saphyr : Saphyr) : Prop where
  /-- What was emitted parses back. -/
  inverts : ∀ parsed text, saphyr.toString parsed = .ok text →
    saphyr.fromStr text = .ok parsed
  /-- No emitted line is a fence. -/
  unfenced : ∀ parsed text, saphyr.toString parsed = .ok text →
    ∀ line ∈ splitInclusive '\n' text, ¬ FenceLine line
  /-- Closing the last emitted line does not change the value. -/
  lineBreak : ∀ parsed text, saphyr.toString parsed = .ok text →
    text.getLast? ≠ some '\n' →
      saphyr.fromStr (text ++ ['\n']) = saphyr.fromStr text
  /-- A blank text holds no mapping entry. -/
  blank : ∀ text entries, isBlank text = true →
    saphyr.fromStr text = .ok (.map entries) → entries = []

variable (saphyr : Saphyr)

/-! ## Parsing and rendering -/

/-- Parse a frontmatter block, a blank one as an empty mapping. -/
def parseFrontmatter (frontmatter : Text) : Except Text Node :=
  if isBlank frontmatter then
    .ok (.mapping [])
  else do
    let parsed ← saphyr.fromStr frontmatter
    return toNode parsed

def emit (document : Node) : Except Text Text := do
  let yaml ← saphyr.toString (toParsed document)
  return if yaml.getLast? = some '\n' then yaml else yaml ++ ['\n']

def preservedBody (content : Text) : Except Text Text := do
  let parts ← split content
  let _ ← parseFrontmatter saphyr parts.frontmatter
  return parts.body

/-- The body a rendering keeps. -/
def keptBody (existing : Option Text) : Except Text Text :=
  match existing with
  | some content => preservedBody saphyr content
  | none => .ok []

/-- Render a document as frontmatter in front of the existing body. -/
def render (existing : Option Text) (document : Node) :
    Except Text Text := do
  let body ← keptBody saphyr existing
  let yaml ← emit saphyr document
  return "---\n".toList ++ yaml ++ "---\n".toList ++ body

variable {saphyr}

/-! ## What each step yields -/

/-- A frontmatter block is a mapping when it is blank or parses as one. -/
theorem parseFrontmatter_mapping_iff (frontmatter : Text) :
    (∃ entries, parseFrontmatter saphyr frontmatter = .ok (.mapping entries)) ↔
      isBlank frontmatter = true ∨
        ∃ entries, saphyr.fromStr frontmatter = .ok (.map entries) := by
  rw [parseFrontmatter]
  split_ifs with blank
  · simp [blank]
  · cases parsed : saphyr.fromStr frontmatter with
    | error detail => simp [blank, bind, Except.bind]
    | ok value =>
        cases value <;>
          simp [blank, bind, Except.bind, pure, Except.pure, toNode]

theorem emit_ok
    {document : Node} {yaml : Text}
    (emitted : emit saphyr document = .ok yaml) :
    ∃ text, saphyr.toString (toParsed document) = .ok text ∧
      ((text.getLast? = some '\n' ∧ yaml = text) ∨
        (text.getLast? ≠ some '\n' ∧ yaml = text ++ ['\n'])) := by
  rcases except_bind_ok.mp emitted with ⟨text, serialized, completed⟩
  refine ⟨text, serialized, ?_⟩
  cases completed
  split_ifs with ended
  · exact Or.inl ⟨ended, rfl⟩
  · exact Or.inr ⟨ended, rfl⟩

theorem emit_terminated
    {document : Node} {yaml : Text}
    (emitted : emit saphyr document = .ok yaml) :
    Terminated '\n' yaml := by
  rcases emit_ok emitted with ⟨text, _, ⟨ended, rfl⟩ | ⟨_, rfl⟩⟩
  · intro last member
    rw [ended] at member
    exact (Option.some.inj member).symm
  · intro last member
    simpa using member.symm

/-- A file whose frontmatter parses, split at its fences. -/
def Parses (saphyr : Saphyr) (content : Text) (parts : Split)
    (node : Node) : Prop :=
  split content = .ok parts ∧
    parseFrontmatter saphyr parts.frontmatter = .ok node

theorem preservedBody_ok {content body : Text} :
    preservedBody saphyr content = .ok body ↔
      ∃ parts node, Parses saphyr content parts node ∧ body = parts.body := by
  rw [preservedBody, except_bind_ok]
  constructor
  · rintro ⟨parts, divided, rest⟩
    rcases except_bind_ok.mp rest with ⟨node, parsed, kept⟩
    cases kept
    exact ⟨parts, node, ⟨divided, parsed⟩, rfl⟩
  · rintro ⟨parts, node, ⟨divided, parsed⟩, rfl⟩
    exact ⟨parts, divided, except_bind_ok.mpr ⟨node, parsed, rfl⟩⟩

/-- The body a rendering keeps: that of the existing file, if there is one. -/
def KeepsBody (saphyr : Saphyr) (existing : Option Text) (body : Text) :
    Prop :=
  match existing with
  | none => body = []
  | some content =>
      ∃ parts node, Parses saphyr content parts node ∧ body = parts.body

/-- The text between and after the fences of a rendering. -/
def fenceIn (yaml body : Text) : Text :=
  "---\n".toList ++ yaml ++ "---\n".toList ++ body

theorem render_ok
    {existing : Option Text} {document : Node} {rendered : Text} :
    render saphyr existing document = .ok rendered ↔
      ∃ yaml body, emit saphyr document = .ok yaml ∧
        KeepsBody saphyr existing body ∧ rendered = fenceIn yaml body := by
  have rest (body : Text) :
      (do
        let yaml ← emit saphyr document
        return "---\n".toList ++ yaml ++ "---\n".toList ++ body :
          Except Text Text) = .ok rendered ↔
        ∃ yaml, emit saphyr document = .ok yaml ∧
          rendered = fenceIn yaml body := by
    rw [except_bind_ok]
    constructor
    · rintro ⟨yaml, emitted, whole⟩
      cases whole
      exact ⟨yaml, emitted, rfl⟩
    · rintro ⟨yaml, emitted, rfl⟩
      exact ⟨yaml, emitted, rfl⟩
  rw [render, except_bind_ok]
  constructor
  · rintro ⟨body, kept, continued⟩
    rcases (rest body).mp continued with ⟨yaml, emitted, whole⟩
    refine ⟨yaml, body, emitted, ?_, whole⟩
    cases existing with
    | none =>
        cases kept
        rfl
    | some content => exact preservedBody_ok.mp kept
  · rintro ⟨yaml, body, emitted, kept, whole⟩
    refine ⟨body, ?_, (rest body).mpr ⟨yaml, emitted, whole⟩⟩
    cases existing with
    | none =>
        cases kept
        rfl
    | some content => exact preservedBody_ok.mpr kept

/-! ## Rendering and splitting again -/

namespace Saphyr.Lawful

variable (lawful : saphyr.Lawful)
include lawful

/-- Closing the last line of an emitted text makes no fence. -/
theorem emit_unfenced
    {document : Node} {yaml : Text}
    (emitted : emit saphyr document = .ok yaml) :
    ∀ line ∈ splitInclusive '\n' yaml, ¬ FenceLine line := by
  rcases emit_ok emitted with ⟨text, serialized, ⟨_, rfl⟩ | ⟨_, rfl⟩⟩
  · exact lawful.unfenced _ _ serialized
  · intro line member fence
    have unfenced := lawful.unfenced _ _ serialized
    rcases mem_splitInclusive_concat member with
      found | rfl | ⟨last, found, rfl⟩
    · exact unfenced line found fence
    · rcases fence with equal | equal | equal | equal <;> cases equal
    · have openFence : FenceLine last := by
        rcases fence with equal | equal | equal | equal
        · exact Or.inr (Or.inr (Or.inl (List.append_inj' equal rfl).1))
        · exact Or.inr (Or.inr (Or.inr (List.append_inj' equal rfl).1))
        · cases (@List.append_inj' _ _ _ ['-', '-'] _ equal rfl).2
        · cases (@List.append_inj' _ _ _ ['-', '-', '-'] _ equal rfl).2
      exact unfenced last found openFence

theorem fromStr_emit
    {document : Node} {yaml : Text}
    (emitted : emit saphyr document = .ok yaml) :
    saphyr.fromStr yaml = .ok (toParsed document) := by
  rcases emit_ok emitted with ⟨text, serialized, ⟨_, rfl⟩ | ⟨ended, rfl⟩⟩
  · exact lawful.inverts _ _ serialized
  · rw [lawful.lineBreak _ _ serialized ended]
    exact lawful.inverts _ _ serialized

/-- An emitted mapping parses back, also when its text is blank. -/
theorem parse_emit
    {entries : Mapping} {yaml : Text}
    (emitted : emit saphyr (.mapping entries) = .ok yaml) :
    parseFrontmatter saphyr yaml = .ok (.mapping entries) := by
  have parsed := lawful.fromStr_emit emitted
  rw [parseFrontmatter]
  split_ifs with blank
  · rw [toParsed] at parsed
    have empty := lawful.blank _ _ blank parsed
    cases entries with
    | nil => rfl
    | cons entry rest => simp [toParsedEntries] at empty
  · rw [parsed]
    change Except.ok (toNode (toParsed (.mapping entries))) = _
    rw [toNode_toParsed]

theorem fenced
    {document : Node} {yaml : Text}
    (emitted : emit saphyr document = .ok yaml) (body : Text) :
    Fenced (fenceIn yaml body) "---\n".toList yaml "---\n".toList body where
  whole := rfl
  opens := Or.inl rfl
  openingEnds := by simp [Terminated]
  wholeLines := emit_terminated emitted
  unfenced := lawful.emit_unfenced emitted
  closes := Or.inl rfl
  closingEnds := Or.inl (by simp [Terminated])

/-- A rendered mapping splits into what was emitted and what was kept. -/
theorem parses_rendered
    {entries : Mapping} {yaml : Text}
    (emitted : emit saphyr (.mapping entries) = .ok yaml) (body : Text) :
    Parses saphyr (fenceIn yaml body) { frontmatter := yaml, body }
      (.mapping entries) :=
  ⟨(lawful.fenced emitted body).split, lawful.parse_emit emitted⟩

/-- Rendering the same mapping over its own rendering changes nothing. -/
theorem render_again
    {existing : Option Text} {entries : Mapping} {rendered : Text}
    (done : render saphyr existing (.mapping entries) = .ok rendered) :
    render saphyr (some rendered) (.mapping entries) = .ok rendered := by
  rcases render_ok.mp done with ⟨yaml, body, emitted, _, rfl⟩
  apply render_ok.mpr
  refine ⟨yaml, body, emitted, ?_, rfl⟩
  exact ⟨_, _, lawful.parses_rendered emitted body, rfl⟩

end Saphyr.Lawful

end Luminosity.Adapters.Document
