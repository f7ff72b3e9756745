import Luminosity.Foundation.TextSegments

/-!
# The configuration domain

The value objects of the configuration core: levels, dotted keys, skill
names and fragment sources, the typed and order-preserving configuration
tree, and the error taxonomy.

`Key` and `SkillName` can only be built with a proof of what their parsers
check, so no later definition meets an empty segment or an unsafe name.  A
`Mapping` is an ordered list of named entries in which a name may occur more
than once; every operation addresses the first occurrence.
-/

namespace Luminosity.Config.Domain

open Luminosity.Foundation.TextSegments

/-! ## Levels -/

/-- A configuration level.  Personal wins over team when both resolve a key. -/
inductive Level where
  | team
  | personal
deriving DecidableEq, Repr

/-- The filename qualifier of a level. -/
def Level.qualifier : Level → Text
  | .team => "".toList
  | .personal => ".local".toList

/-! ## Errors -/

/-- A dot-separated path into the configuration tree, held as its segments. -/
structure Key where
  segments : List Text
  nonempty : segments ≠ []
  wellFormed : ∀ segment ∈ segments, segment ≠ [] ∧ '.' ∉ segment
deriving DecidableEq

/-- What a conflicting segment already holds. -/
inductive Existing where
  | value
  | section
deriving DecidableEq, Repr

/-- A configuration operation failure. -/
inductive ConfigError where
  | notFound (key : Key) (level : Option Level)
  | pathConflict (key : Key) (at_ : Text) (existing : Existing)
  | malformedFrontmatter (path detail : Text)
  | io (path detail : Text)
  | invalidKey (key : Text)
  | invalidSkillName (name : Text)
  | unsafePath (path : Text)
deriving DecidableEq

/-! ## Keys -/

theorem Key.ext_segments
    {left right : Key} (equal : left.segments = right.segments) :
    left = right := by
  cases left
  cases right
  cases equal
  rfl

/-- Split a raw dotted text, rejecting every form with an empty segment. -/
def Key.parse (raw : Text) : Except ConfigError Key :=
  if degenerate : [] ∈ raw.splitOn '.' then
    .error (.invalidKey raw)
  else
    .ok
      { segments := raw.splitOn '.'
        nonempty := List.splitOn_ne_nil '.' raw
        wellFormed := fun segment member =>
          ⟨fun empty => degenerate (empty ▸ member),
            notMem_of_mem_splitOn '.' raw segment member⟩ }

/-! ## Skill names and fragment sources -/

/-- The allow-list of skill names. -/
def permitted (character : Char) : Bool :=
  character.isAlphanum || character = '-' || character = '_'

/-- A validated skill name, safe to place in a filesystem path. -/
structure SkillName where
  text : Text
  nonempty : text ≠ []
  allowed : ∀ character ∈ text, permitted character = true
deriving DecidableEq

def SkillName.parse (raw : Text) : Except ConfigError SkillName :=
  if valid : raw ≠ [] ∧ raw.all permitted = true then
    .ok
      { text := raw, nonempty := valid.1
        allowed := List.all_eq_true.mp valid.2 }
  else
    .error (.invalidSkillName raw)

/-- Which document a fragment is assembled from. -/
inductive FragmentSource where
  | projectContext
  | skillContext (name : SkillName)
  | skillInstructions (name : SkillName)
deriving DecidableEq

/-! ## The configuration tree -/

/-- A leaf value.  A float is held as its 64-bit representation. -/
inductive Scalar where
  | string (value : Text)
  | bool (value : Bool)
  | int (value : Int64)
  | float (bits : UInt64)
  | null
deriving DecidableEq

/-- A value in the configuration tree. -/
inductive Node where
  | scalar (scalar : Scalar)
  | sequence (items : List Node)
  | mapping (entries : List (Text × Node))

/-- An insertion-ordered mapping, whose names may repeat. -/
abbrev Mapping := List (Text × Node)

namespace Mapping

/-- The value of the first entry with the given name. -/
def get (mapping : Mapping) (key : Text) : Option Node :=
  (mapping.find? fun entry => entry.1 = key).map Prod.snd

/-- Overwrite the value of the first entry with the given name, if any. -/
def assign (key : Text) (node : Node) : Mapping → Mapping
  | [] => []
  | (existing, old) :: rest =>
      if existing = key then
        (existing, node) :: rest
      else
        (existing, old) :: assign key node rest

/-- Append an entry. -/
def push (mapping : Mapping) (key : Text) (node : Node) : Mapping :=
  mapping ++ [(key, node)]

/-- Replace the value at `key` in place, or append it when absent. -/
def upsert (mapping : Mapping) (key : Text) (node : Node) : Mapping :=
  match get mapping key with
  | some _ => assign key node mapping
  | none => push mapping key node

@[simp]
theorem get_nil (key : Text) : get [] key = none := rfl

theorem get_cons (key : Text) (entry : Text × Node) (rest : Mapping) :
    get (entry :: rest) key =
      if entry.1 = key then some entry.2 else get rest key := by
  by_cases same : entry.1 = key
  · simp [get, same]
  · simp [get, same]

theorem get_assign_self
    {mapping : Mapping} {key : Text} {old : Node}
    (present : get mapping key = some old) (node : Node) :
    get (assign key node mapping) key = some node := by
  induction mapping with
  | nil => simp at present
  | cons entry rest induction =>
      rw [get_cons] at present
      rw [assign]
      split_ifs at present ⊢ with same
      · rw [get_cons, if_pos same]
      · rw [get_cons, if_neg same]
        exact induction present

theorem get_assign_of_ne
    (mapping : Mapping) {key other : Text} (different : other ≠ key)
    (node : Node) :
    get (assign key node mapping) other = get mapping other := by
  induction mapping with
  | nil => rfl
  | cons entry rest induction =>
      rw [assign]
      split_ifs with same
      · have headMisses : entry.1 ≠ other := fun hit =>
          different (hit.symm.trans same)
        rw [get_cons, get_cons, if_neg headMisses, if_neg headMisses]
      · rw [get_cons, get_cons, induction]

theorem get_push_self
    {mapping : Mapping} {key : Text}
    (absent : get mapping key = none) (node : Node) :
    get (push mapping key node) key = some node := by
  induction mapping with
  | nil => simp [push, get_cons]
  | cons entry rest induction =>
      rw [get_cons] at absent
      split_ifs at absent with same
      change get (entry :: push rest key node) key = some node
      rw [get_cons, if_neg same]
      exact induction absent

theorem get_push_of_ne
    (mapping : Mapping) {key other : Text} (different : other ≠ key)
    (node : Node) :
    get (push mapping key node) other = get mapping other := by
  induction mapping with
  | nil => simp [push, get_cons, Ne.symm different]
  | cons entry rest induction =>
      change get (entry :: push rest key node) other = _
      rw [get_cons, get_cons, induction]

theorem get_upsert_self (mapping : Mapping) (key : Text) (node : Node) :
    get (upsert mapping key node) key = some node := by
  rw [upsert]
  cases present : get mapping key with
  | some old => exact get_assign_self present node
  | none => exact get_push_self present node

theorem get_upsert_of_ne
    (mapping : Mapping) {key other : Text} (different : other ≠ key)
    (node : Node) :
    get (upsert mapping key node) other = get mapping other := by
  rw [upsert]
  cases get mapping key with
  | some old => exact get_assign_of_ne mapping different node
  | none => exact get_push_of_ne mapping different node

end Mapping

end Luminosity.Config.Domain
