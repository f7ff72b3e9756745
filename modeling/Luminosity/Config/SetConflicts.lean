import Luminosity.Config.TreeEdits

/-!
# When a set fails

A set fails at the first node on its path which is no mapping, or at a
container at the end of the path, and in no other way.  It fails before
anything is written, and otherwise it writes once, to the level it was given.
-/

namespace Luminosity.Config.SetConflicts

open Luminosity.Foundation.TextSegments
open Luminosity.Config.Domain
open Luminosity.Config.Service
open Luminosity.Config.TreeEdits

/-- What was written to each level, in order. -/
abbrev Written := List (Level × Node)

/-- The service over given documents, with a writer which succeeds. -/
def recordingService
    (documents : Level → Except ConfigError (Option Node)) :
    ConfigService (StateM Written) where
  reader :=
    { read := fun level => liftExcept (documents level) }
  writer :=
    { write := fun level document =>
        modifyThe Written fun written => written ++ [(level, document)] }
where
  liftExcept : Except ConfigError (Option Node) →
      ExceptT ConfigError (StateM Written) (Option Node)
    | .ok document => pure document
    | .error error => throw error

/-- What a set answers, and what has been written after it. -/
def setOver
    (documents : Level → Except ConfigError (Option Node))
    (key : Key) (value : Text) (level : Level) (written : Written) :
    Except ConfigError Unit × Written :=
  ((recordingService documents).set key value level).run written

/-- The path reaches a node which is no mapping. -/
def Blocked (root : Mapping) (path : List Text) : Prop :=
  ∃ node, nodeAt (.mapping root) path = some node ∧
    ∀ entries, node ≠ .mapping entries

/-- The shortest proper prefix of the path which is blocked. -/
structure FirstBlocked
    (root : Mapping) (path front : List Text) (segment : Text) : Prop where
  proper : ∃ rest, rest ≠ [] ∧ path = front ++ segment :: rest
  blocked : Blocked root (front ++ [segment])
  shortest : ∀ shorter, shorter <+: front → ¬ Blocked root shorter

/-- No proper prefix of the path is blocked. -/
def Passable (root : Mapping) (path : List Text) : Prop :=
  ∀ front rest, path = front ++ rest → rest ≠ [] → ¬ Blocked root front

/-- The path reaches a mapping or a sequence. -/
def ReachesSection (root : Mapping) (path : List Text) : Prop :=
  ∃ node, nodeAt (.mapping root) path = some node ∧
    ∀ scalar, node ≠ .scalar scalar

/-! ## Inserting -/

theorem setLeaf_section
    {mapping : Mapping} {head : Text} {node : Node}
    (present : Mapping.get mapping head = some node)
    (container : ∀ scalar, node ≠ .scalar scalar)
    (value : Text) (key : Key) :
    setLeaf mapping head value key =
      .error (.pathConflict key head .section) := by
  rw [setLeaf, present]
  cases node with
  | scalar scalar => exact absurd rfl (container scalar)
  | sequence items => rfl
  | mapping entries => rfl

theorem setLeaf_open
    {mapping : Mapping} {head : Text}
    (noSection : ∀ node, Mapping.get mapping head = some node →
      ∃ scalar, node = .scalar scalar)
    (value : Text) (key : Key) :
    ∃ changed, setLeaf mapping head value key = .ok changed := by
  rw [setLeaf]
  cases present : Mapping.get mapping head with
  | none => exact ⟨_, rfl⟩
  | some node =>
      rcases noSection node present with ⟨scalar, rfl⟩
      exact ⟨_, rfl⟩

theorem descendForInsert_blocked
    {mapping : Mapping} {head : Text} {node : Node}
    (present : Mapping.get mapping head = some node)
    (noMapping : ∀ entries, node ≠ .mapping entries) (key : Key) :
    descendForInsert mapping head key =
      .error (.pathConflict key head .value) := by
  rw [descendForInsert]
  simp only [present]
  cases node with
  | mapping entries => exact absurd rfl (noMapping entries)
  | scalar scalar => rfl
  | sequence items => rfl

theorem descendForInsert_present
    {mapping child : Mapping} {head : Text}
    (present : Mapping.get mapping head = some (.mapping child)) (key : Key) :
    descendForInsert mapping head key = .ok (mapping, child) := by
  rw [descendForInsert]
  simp only [present]

/-- An insert goes on in the child which is there. -/
theorem insert_present
    {mapping child : Mapping} {head : Text}
    (present : Mapping.get mapping head = some (.mapping child))
    {rest : List Text} (nonempty : rest ≠ []) (value : Text) (key : Key) :
    Service.insert mapping (head :: rest) value key =
      (Service.insert child rest value key).map fun grown =>
        Mapping.assign head (.mapping grown) mapping := by
  rcases List.exists_cons_of_ne_nil nonempty with ⟨next, later, rfl⟩
  rw [Service.insert, descendForInsert_present present]
  simp only [bind, Except.bind]
  cases Service.insert child (next :: later) value key with
  | error error => rfl
  | ok grown => rfl

/-- A path which starts with a mapping goes on in it. -/
theorem nodeAt_cons
    {mapping child : Mapping} {head : Text}
    (present : Mapping.get mapping head = some (.mapping child))
    (path : List Text) :
    nodeAt (.mapping mapping) (head :: path) =
      nodeAt (.mapping child) path := by
  rw [nodeAt, present]
  rfl

/-- What is reached below a name is reached in the mapping of that name. -/
theorem exists_child
    {mapping : Mapping} {head : Text} {path : List Text}
    (nonempty : path ≠ []) {node : Node}
    (reached : nodeAt (.mapping mapping) (head :: path) = some node) :
    ∃ child, Mapping.get mapping head = some (.mapping child) := by
  rcases List.exists_cons_of_ne_nil nonempty with ⟨next, rest, rfl⟩
  rw [nodeAt, Option.bind_eq_some_iff] at reached
  rcases reached with ⟨child, present, below⟩
  cases child with
  | mapping entries => exact ⟨entries, present⟩
  | scalar scalar => cases below
  | sequence items => cases below

/-- Only mappings are passed on the way to a node. -/
theorem mapping_of_reached
    {root node : Node} {front rest : List Text} (nonempty : rest ≠ [])
    (reached : nodeAt root (front ++ rest) = some node) :
    ∃ entries, nodeAt root front = some (.mapping entries) := by
  induction front generalizing root with
  | nil =>
      rcases List.exists_cons_of_ne_nil nonempty with ⟨next, later, rfl⟩
      cases root with
      | mapping entries => exact ⟨entries, rfl⟩
      | scalar scalar => cases reached
      | sequence items => cases reached
  | cons head front induction =>
      cases root with
      | mapping entries =>
          rw [List.cons_append, nodeAt, Option.bind_eq_some_iff] at reached
          rcases reached with ⟨child, present, below⟩
          rw [nodeAt, present]
          exact induction below
      | scalar scalar => cases reached
      | sequence items => cases reached

/-- When the path is not passable, it has a first blocked prefix. -/
theorem exists_firstBlocked
    {root : Mapping} {path : List Text} (closed : ¬ Passable root path) :
    ∃ front segment, FirstBlocked root path front segment := by
  simp only [Passable, not_forall, not_not] at closed
  rcases closed with ⟨front, rest, split, nonempty, blocked⟩
  rcases List.eq_nil_or_concat front with rfl | ⟨front, segment, rfl⟩
  · rcases blocked with ⟨node, reached, noMapping⟩
    cases reached
    exact absurd rfl (noMapping root)
  · rw [List.concat_eq_append] at split blocked
    refine ⟨front, segment, ⟨rest, nonempty, by simp [split]⟩, blocked, ?_⟩
    rintro shorter ⟨between, rfl⟩ ⟨node, reached, noMapping⟩
    rcases blocked with ⟨later, reachedLater, _⟩
    rw [List.append_assoc] at reachedLater
    rcases mapping_of_reached (by simp) reachedLater with ⟨entries, passed⟩
    cases reached.symm.trans passed
    exact noMapping entries rfl

/-- A blocked prefix is the conflict of the insert. -/
theorem insert_blocked
    {root : Mapping} {front : List Text} {segment : Text}
    (blocked : Blocked root (front ++ [segment]))
    {rest : List Text} (nonempty : rest ≠ []) (value : Text) (key : Key) :
    Service.insert root (front ++ segment :: rest) value key =
      .error (.pathConflict key segment .value) := by
  induction front generalizing root with
  | nil =>
      rcases blocked with ⟨node, reached, noMapping⟩
      rcases List.exists_cons_of_ne_nil nonempty with ⟨next, later, rfl⟩
      have present : Mapping.get root segment = some node := by
        rw [List.nil_append, nodeAt] at reached
        simpa [nodeAt] using reached
      rw [List.nil_append, Service.insert,
        descendForInsert_blocked present noMapping]
      rfl
  | cons head front induction =>
      rcases blocked with ⟨node, reached, noMapping⟩
      rcases exists_child (by simp) reached with ⟨child, present⟩
      rw [List.cons_append, nodeAt_cons present] at reached
      rw [List.cons_append, insert_present present (by simp),
        induction ⟨node, reached, noMapping⟩]
      rfl

theorem Passable.child
    {root child : Mapping} {head : Text} {path : List Text}
    (present : Mapping.get root head = some (.mapping child))
    (passable : Passable root (head :: path)) :
    Passable child path := by
  rintro front rest split nonempty ⟨node, reached, noMapping⟩
  apply passable (head :: front) rest (by rw [split]; rfl) nonempty
  refine ⟨node, ?_, noMapping⟩
  rw [nodeAt_cons present]
  exact reached

/-- On a passable path the next name is missing or leads to a mapping. -/
theorem Passable.next
    {root : Mapping} {head : Text} {path : List Text} (nonempty : path ≠ [])
    (passable : Passable root (head :: path)) :
    Mapping.get root head = none ∨
      ∃ child, Mapping.get root head = some (.mapping child) := by
  cases present : Mapping.get root head with
  | none => exact .inl rfl
  | some node =>
      cases node with
      | mapping entries => exact .inr ⟨entries, rfl⟩
      | scalar scalar =>
          refine absurd ⟨.scalar scalar, ?_, ?_⟩
            (passable [head] path rfl nonempty)
          · rw [nodeAt, present]
            rfl
          · rintro entries ⟨⟩
      | sequence items =>
          refine absurd ⟨.sequence items, ?_, ?_⟩
            (passable [head] path rfl nonempty)
          · rw [nodeAt, present]
            rfl
          · rintro entries ⟨⟩

/-- A container at the end of a passable path is the conflict. -/
theorem insert_section
    {root : Mapping} {front : List Text} {last : Text}
    (reaches : ReachesSection root (front ++ [last]))
    (value : Text) (key : Key) :
    Service.insert root (front ++ [last]) value key =
      .error (.pathConflict key last .section) := by
  induction front generalizing root with
  | nil =>
      rcases reaches with ⟨node, reached, container⟩
      have present : Mapping.get root last = some node := by
        simpa [nodeAt] using reached
      exact setLeaf_section present container value key
  | cons head front induction =>
      rcases reaches with ⟨node, reached, container⟩
      rcases exists_child (by simp) reached with ⟨child, present⟩
      rw [List.cons_append, nodeAt_cons present] at reached
      rw [List.cons_append, insert_present present (by simp),
        induction ⟨node, reached, container⟩]
      rfl

/-- Every other insert succeeds. -/
theorem insert_open
    {root : Mapping} {path : List Text} (nonempty : path ≠ [])
    (passable : Passable root path)
    (noSection : ¬ ReachesSection root path) (value : Text) (key : Key) :
    ∃ changed, Service.insert root path value key = .ok changed := by
  induction path generalizing root with
  | nil => exact absurd rfl nonempty
  | cons head rest induction =>
      cases rest with
      | nil =>
          apply setLeaf_open
          intro node present
          by_contra container
          refine noSection ⟨node, ?_, fun scalar same =>
            container ⟨scalar, same⟩⟩
          rw [nodeAt, present]
          rfl
      | cons next rest =>
          rcases passable.next (List.cons_ne_nil next rest) with
            absent | ⟨child, present⟩
          · have created :
                descendForInsert root head key =
                  .ok (Mapping.push root head (.mapping []), []) := by
              rw [descendForInsert]
              simp only [absent, Mapping.get_push_self absent]
            refine ⟨Mapping.assign head
              (.mapping [(next, chain value rest)])
              (Mapping.push root head (.mapping [])), ?_⟩
            rw [Service.insert, created]
            simp only [bind, Except.bind, insert_nil]
            rfl
          · have below : ¬ ReachesSection child (next :: rest) := by
              rintro ⟨node, reached, container⟩
              refine noSection ⟨node, ?_, container⟩
              rw [nodeAt_cons present]
              exact reached
            rcases induction (List.cons_ne_nil next rest)
              (passable.child present) below with ⟨grown, inserted⟩
            rw [insert_present present (List.cons_ne_nil next rest), inserted]
            exact ⟨_, rfl⟩

/-! ## Setting -/

theorem setOver_failed
    {documents : Level → Except ConfigError (Option Node)} {level : Level}
    {error : ConfigError} (failed : documents level = .error error)
    (key : Key) (value : Text) (written : Written) :
    setOver documents key value level written = (.error error, written) := by
  change
    ((recordingService.liftExcept (documents level) >>= _ :
      ExceptT ConfigError (StateM Written) Unit).run written) = _
  rw [failed]
  rfl

theorem setOver_read
    {documents : Level → Except ConfigError (Option Node)} {level : Level}
    {document : Option Node} (read : documents level = .ok document)
    (key : Key) (value : Text) (written : Written) :
    setOver documents key value level written =
      match
        Service.insert (rootMapping document) key.segments value key with
      | .error error => (.error error, written)
      | .ok root => (.ok (), written ++ [(level, .mapping root)]) := by
  change
    ((recordingService.liftExcept (documents level) >>= _ :
      ExceptT ConfigError (StateM Written) Unit).run written) = _
  rw [read]
  change
    ((do
      let root ←
        Service.insert (rootMapping document) key.segments value key
      (recordingService documents).writer.write level (.mapping root) :
        ExceptT ConfigError (StateM Written) Unit).run written) = _
  cases Service.insert (rootMapping document) key.segments value key <;> rfl

/--
What a set answers is decided by the nodes on its path, and it writes to its
level once when it succeeds, and not at all when it fails.
-/
theorem set_fails_on_conflicts
    (documents : Level → Except ConfigError (Option Node))
    (key : Key) (value : Text) (level : Level) (written : Written) :
    (∀ error, documents level = .error error →
      setOver documents key value level written = (.error error, written)) ∧
    ∀ document, documents level = .ok document →
      let root := rootMapping document
      (¬ Passable root key.segments →
        ∃ front segment, FirstBlocked root key.segments front segment ∧
          setOver documents key value level written =
            (.error (.pathConflict key segment .value), written)) ∧
      (Passable root key.segments → ReachesSection root key.segments →
        ∀ last, key.segments.getLast? = some last →
          setOver documents key value level written =
            (.error (.pathConflict key last .section), written)) ∧
      (Passable root key.segments → ¬ ReachesSection root key.segments →
        ∃ changed,
          Service.insert root key.segments value key = .ok changed ∧
            setOver documents key value level written =
              (.ok (), written ++ [(level, .mapping changed)])) := by
  constructor
  · intro error failed
    exact setOver_failed failed key value written
  intro document read root
  rw [setOver_read read]
  refine ⟨?_, ?_, ?_⟩
  · intro closed
    rcases exists_firstBlocked closed with ⟨front, segment, first⟩
    refine ⟨front, segment, first, ?_⟩
    rcases first.proper with ⟨rest, nonempty, split⟩
    rw [split, insert_blocked first.blocked nonempty]
  · intro _ reaches last isLast
    rcases List.getLast?_eq_some_iff.mp isLast with ⟨front, split⟩
    rw [split] at reaches ⊢
    rw [insert_section reaches]
  · intro passable noSection
    rcases insert_open key.nonempty passable noSection value key with
      ⟨changed, inserted⟩
    refine ⟨changed, inserted, ?_⟩
    rw [inserted]

end Luminosity.Config.SetConflicts
