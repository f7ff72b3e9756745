import Luminosity.Config.Domain

/-!
# The configuration service

The driven ports the core reads and writes levels through, and the
application service that performs precedence resolution, the nested-path walk
and the nested-path insert.  The ports are polymorphic in the monad their
implementations run in, as the source is generic in its reader and writer.

An insert works on its own copy of the mapping: the source mutates a local
root which it drops when any step fails, so a failed insert has no result.
-/

namespace Luminosity.Config.Service

open Luminosity.Foundation.TextSegments
open Luminosity.Config.Domain

/-- The outcome of resolving a key. -/
inductive Resolved where
  | found (scalar : Scalar)
  | absent
deriving DecidableEq

/-- Reads a single level's document, absent when the level's file is. -/
structure ReadConfigLevel (m : Type → Type) where
  read : Level → ExceptT ConfigError m (Option Node)

/-- Writes a whole document to a single level. -/
structure WriteConfigLevel (m : Type → Type) where
  write : Level → Node → ExceptT ConfigError m Unit

structure ConfigService (m : Type → Type) where
  reader : ReadConfigLevel m
  writer : WriteConfigLevel m

/-! ## Walking to a key -/

/-- The loop of `resolve` over the remaining segments. -/
def descend : Node → List Text → Resolved
  | .scalar scalar, [] => .found scalar
  | _, [] => .absent
  | .mapping entries, segment :: rest =>
      match Mapping.get entries segment with
      | some child => descend child rest
      | none => .absent
  | _, _ :: _ => .absent

def resolve (document : Option Node) (key : Key) : Resolved :=
  match document with
  | none => .absent
  | some current => descend current key.segments

/-! ## Inserting at a key -/

/-- Set the last segment of a path, refusing to replace a container. -/
def setLeaf
    (mapping : Mapping) (head : Text) (value : Text) (key : Key) :
    Except ConfigError Mapping :=
  match Mapping.get mapping head with
  | some (.mapping _) | some (.sequence _) =>
      .error (.pathConflict key head .section)
  | _ => .ok (Mapping.upsert mapping head (.scalar (.string value)))

/--
Find the mapping under a segment, creating it when the segment is absent.
The result pairs the parent, as it stands after a creation, with the child.
-/
def descendForInsert
    (parent : Mapping) (head : Text) (key : Key) :
    Except ConfigError (Mapping × Mapping) :=
  let parent :=
    match Mapping.get parent head with
    | none => Mapping.push parent head (.mapping [])
    | some _ => parent
  match Mapping.get parent head with
  | some (.mapping child) => .ok (parent, child)
  | _ => .error (.pathConflict key head .value)

/-- Insert a value below a mapping, writing each changed child in place. -/
def insert
    (mapping : Mapping) (segments : List Text) (value : Text) (key : Key) :
    Except ConfigError Mapping :=
  match segments with
  | [] => .ok mapping
  | [head] => setLeaf mapping head value key
  | head :: next :: rest => do
      let (parent, child) ← descendForInsert mapping head key
      let child ← insert child (next :: rest) value key
      return Mapping.assign head (.mapping child) parent

/-- The mapping a write starts from: any other root counts as empty. -/
def rootMapping : Option Node → Mapping
  | some (.mapping entries) => entries
  | _ => []

/-! ## The driving port -/

namespace ConfigService

variable {m : Type → Type} [Monad m] (service : ConfigService m)

/-- Resolve a key, full-stack when no level is given. -/
def get (key : Key) (level : Option Level) :
    ExceptT ConfigError m Resolved := do
  match level with
  | some level => return resolve (← service.reader.read level) key
  | none =>
      let personal ← service.reader.read .personal
      let team ← service.reader.read .team
      match resolve personal key with
      | .found scalar => return .found scalar
      | .absent => return resolve team key

/-- Write a string value at a key in a single level. -/
def set (key : Key) (value : Text) (level : Level) :
    ExceptT ConfigError m Unit := do
  let document ← service.reader.read level
  let root ← insert (rootMapping document) key.segments value key
  service.writer.write level (.mapping root)

end ConfigService

/-! ## What one insert does to the tree -/

theorem setLeaf_ok
    {mapping changed : Mapping} {head value : Text} {key : Key}
    (set : setLeaf mapping head value key = .ok changed) :
    changed = Mapping.upsert mapping head (.scalar (.string value)) ∧
      ∀ child, Mapping.get mapping head = some child →
        ∃ scalar, child = .scalar scalar := by
  rw [setLeaf] at set
  split at set
  · cases set
  · cases set
  · rename_i notMapping notSequence
    cases set
    refine ⟨rfl, ?_⟩
    intro child present
    cases child with
    | scalar scalar => exact ⟨scalar, rfl⟩
    | sequence items => exact absurd present (notSequence items)
    | mapping entries => exact absurd present (notMapping entries)

theorem setLeaf_error
    {mapping : Mapping} {head value : Text} {key : Key}
    {error : ConfigError}
    (set : setLeaf mapping head value key = .error error) :
    error = .pathConflict key head .section := by
  rw [setLeaf] at set
  split at set <;> cases set <;> rfl

theorem descendForInsert_ok
    {mapping parent child : Mapping} {head : Text} {key : Key}
    (entered : descendForInsert mapping head key = .ok (parent, child)) :
    Mapping.get parent head = some (.mapping child) ∧
      (parent = mapping ∨
        (Mapping.get mapping head = none ∧ child = [] ∧
          parent = Mapping.push mapping head (.mapping []))) := by
  rw [descendForInsert] at entered
  cases present : Mapping.get mapping head with
  | none =>
      have created := Mapping.get_push_self present (.mapping [])
      simp only [present, created, Except.ok.injEq, Prod.mk.injEq] at entered
      rcases entered with ⟨rfl, rfl⟩
      exact ⟨created, Or.inr ⟨rfl, rfl, rfl⟩⟩
  | some node =>
      cases node with
      | scalar scalar => simp [present] at entered
      | sequence items => simp [present] at entered
      | mapping entries =>
          simp only [present, Except.ok.injEq, Prod.mk.injEq] at entered
          rcases entered with ⟨rfl, rfl⟩
          exact ⟨present, Or.inl rfl⟩

theorem descendForInsert_error
    {mapping : Mapping} {head : Text} {key : Key} {error : ConfigError}
    (entered : descendForInsert mapping head key = .error error) :
    error = .pathConflict key head .value := by
  rw [descendForInsert] at entered
  split at entered
  · cases entered
  · cases entered
    rfl

/-- Descending below a freshly created or an existing child. -/
theorem descend_parent
    {mapping parent child : Mapping} {head : Text} {key : Key}
    (entered : descendForInsert mapping head key = .ok (parent, child))
    (other : Text) (rest : List Text) :
    descend (.mapping parent) (other :: rest) =
      descend (.mapping mapping) (other :: rest) := by
  rcases descendForInsert_ok entered with ⟨_, rfl | ⟨absent, rfl, rfl⟩⟩
  · rfl
  · by_cases same : other = head
    · subst same
      rw [descend, descend, Mapping.get_push_self absent, absent]
      cases rest <;> rfl
    · rw [descend, descend, Mapping.get_push_of_ne mapping same]

/-- Inversion of a successful insert below its first segment. -/
theorem insert_cons_cons_ok
    {mapping changed : Mapping} {head next value : Text}
    {rest : List Text} {key : Key}
    (inserted :
      insert mapping (head :: next :: rest) value key = .ok changed) :
    ∃ parent child grown,
      descendForInsert mapping head key = .ok (parent, child) ∧
        insert child (next :: rest) value key = .ok grown ∧
        changed = Mapping.assign head (.mapping grown) parent := by
  rw [insert] at inserted
  cases entered : descendForInsert mapping head key with
  | error error => simp [entered, bind, Except.bind] at inserted
  | ok pair =>
      rcases pair with ⟨parent, child⟩
      cases below : insert child (next :: rest) value key with
      | error error =>
          simp [entered, below, bind, Except.bind] at inserted
      | ok grown =>
          simp only [entered, below, bind, Except.bind, pure, Except.pure,
            Except.ok.injEq] at inserted
          exact ⟨parent, child, grown, rfl, below, inserted.symm⟩

/-- The written path resolves to the written value. -/
theorem descend_insert_self
    {mapping changed : Mapping} {segments : List Text}
    {value : Text} {key : Key}
    (nonempty : segments ≠ [])
    (inserted : insert mapping segments value key = .ok changed) :
    descend (.mapping changed) segments = .found (.string value) := by
  induction segments generalizing mapping changed with
  | nil => exact absurd rfl nonempty
  | cons head rest induction =>
      cases rest with
      | nil =>
          rcases setLeaf_ok inserted with ⟨rfl, _⟩
          rw [descend, Mapping.get_upsert_self]
          rfl
      | cons next rest =>
          rcases insert_cons_cons_ok inserted with
            ⟨parent, child, grown, entered, below, rfl⟩
          rcases descendForInsert_ok entered with ⟨present, _⟩
          rw [descend, Mapping.get_assign_self present]
          exact induction (by simp) below

/-- Every other path resolves as it did before. -/
theorem descend_insert_of_ne
    {mapping changed : Mapping} {segments other : List Text}
    {value : Text} {key : Key}
    (different : other ≠ segments)
    (inserted : insert mapping segments value key = .ok changed) :
    descend (.mapping changed) other = descend (.mapping mapping) other := by
  induction segments generalizing mapping changed other with
  | nil =>
      cases inserted
      rfl
  | cons head rest induction =>
      cases other with
      | nil => rfl
      | cons first others =>
          cases rest with
          | nil =>
              rcases setLeaf_ok inserted with ⟨rfl, scalarBefore⟩
              by_cases same : first = head
              · -- Below a scalar, written or replaced, nothing resolves.
                subst same
                have deeper : others ≠ [] := by
                  rintro rfl
                  exact different rfl
                rcases List.exists_cons_of_ne_nil deeper with
                  ⟨second, tail, rfl⟩
                rw [descend, descend, Mapping.get_upsert_self]
                cases present : Mapping.get mapping first with
                | none => rfl
                | some node =>
                    rcases scalarBefore node present with ⟨scalar, rfl⟩
                    rfl
              · rw [descend, descend, Mapping.get_upsert_of_ne mapping same]
          | cons next rest =>
              rcases insert_cons_cons_ok inserted with
                ⟨parent, child, grown, entered, below, rfl⟩
              rcases descendForInsert_ok entered with ⟨present, _⟩
              rw [← descend_parent entered first others]
              by_cases same : first = head
              · subst same
                rw [descend, descend, Mapping.get_assign_self present, present]
                exact induction
                  (fun equal => different (by rw [equal])) below
              · rw [descend, descend, Mapping.get_assign_of_ne parent same]

/-- The only failure of an insert is a shape conflict naming the key. -/
theorem insert_error
    {mapping : Mapping} {segments : List Text} {value : Text} {key : Key}
    {error : ConfigError}
    (inserted : insert mapping segments value key = .error error) :
    ∃ at_ existing, error = .pathConflict key at_ existing := by
  induction segments generalizing mapping with
  | nil => cases inserted
  | cons head rest induction =>
      cases rest with
      | nil => exact ⟨head, .section, setLeaf_error inserted⟩
      | cons next rest =>
          rw [insert] at inserted
          cases entered : descendForInsert mapping head key with
          | error conflict =>
              simp only [entered, bind, Except.bind,
                Except.error.injEq] at inserted
              subst inserted
              exact ⟨head, .value, descendForInsert_error entered⟩
          | ok pair =>
              rcases pair with ⟨parent, child⟩
              cases below : insert child (next :: rest) value key with
              | error conflict =>
                  simp only [entered, below, bind, Except.bind,
                    Except.error.injEq] at inserted
                  subst inserted
                  exact induction below
              | ok grown =>
                  simp [entered, below, bind, Except.bind, pure,
                    Except.pure] at inserted

end Luminosity.Config.Service
