import Luminosity.Config.Service

/-!
# What a set edits

A set walks down its path by the first entry of each name, and changes nothing
off the path: an entry which is there keeps its position, and a missing one is
appended with everything below it in one chain.  So the other entries of every
mapping stay as they are, and no name is repeated which was not repeated
before.
-/

namespace Luminosity.Config.TreeEdits

open Luminosity.Foundation.TextSegments
open Luminosity.Config.Domain
open Luminosity.Config.Service

/-- The names of a mapping, in order. -/
def names (mapping : Mapping) : List Text :=
  mapping.map Prod.fst

/-- A value below nothing but new segments. -/
def chain (value : Text) : List Text → Node
  | [] => .scalar (.string value)
  | segment :: rest => .mapping [(segment, chain value rest)]

/-- The node at the end of a path, by the first entry of each name. -/
def nodeAt : Node → List Text → Option Node
  | node, [] => some node
  | .mapping entries, segment :: rest =>
      (Mapping.get entries segment).bind fun child => nodeAt child rest
  | _, _ :: _ => none

/-- The mapping at the end of a path, by the first entry of each name. -/
def mappingAt (root : Mapping) (path : List Text) : Option Mapping :=
  match nodeAt (.mapping root) path with
  | some (.mapping entries) => some entries
  | _ => none

/--
One mapping on the path: only the first entry of the segment is another one,
in its place, or the one new entry is the last.
-/
structure EditedAt (value segment : Text) (rest : List Text)
    (before after : Mapping) : Prop where
  present : segment ∈ names before →
    names after = names before ∧
      ∀ position, position ≠ (names before).idxOf segment →
        after[position]? = before[position]?
  absent : segment ∉ names before →
    after = before ++ [(segment, chain value rest)]

/-- No mapping in the tree has two entries of one name. -/
inductive Distinct : Node → Prop
  | scalar (scalar : Scalar) : Distinct (.scalar scalar)
  | sequence (items : List Node) (each : ∀ item ∈ items, Distinct item) :
      Distinct (.sequence items)
  | mapping (entries : Mapping) (nodup : (names entries).Nodup)
      (each : ∀ entry ∈ entries, Distinct entry.2) :
      Distinct (.mapping entries)

/-! ## First entries -/

@[simp]
theorem names_append (front back : Mapping) :
    names (front ++ back) = names front ++ names back :=
  List.map_append

@[simp]
theorem names_cons (entry : Text × Node) (rest : Mapping) :
    names (entry :: rest) = entry.1 :: names rest := rfl

theorem get_eq_none_iff {mapping : Mapping} {key : Text} :
    Mapping.get mapping key = none ↔ key ∉ names mapping := by
  induction mapping with
  | nil => simp [names]
  | cons entry rest induction =>
      rw [Mapping.get_cons, names_cons, List.mem_cons, not_or]
      split_ifs with same
      · simp [same]
      · rw [induction]
        exact (and_iff_right (Ne.symm same)).symm

theorem get_split
    {before : Mapping} {key : Text} (first : key ∉ names before)
    (node : Node) (after : Mapping) :
    Mapping.get (before ++ (key, node) :: after) key = some node := by
  induction before with
  | nil => rw [List.nil_append, Mapping.get_cons, if_pos rfl]
  | cons entry rest induction =>
      rw [names_cons, List.mem_cons, not_or] at first
      rw [List.cons_append, Mapping.get_cons, if_neg (Ne.symm first.1)]
      exact induction first.2

/-- What is found is the first entry of its name. -/
theorem exists_split
    {mapping : Mapping} {key : Text} {node : Node}
    (present : Mapping.get mapping key = some node) :
    ∃ before after,
      mapping = before ++ (key, node) :: after ∧ key ∉ names before := by
  induction mapping with
  | nil => simp at present
  | cons entry rest induction =>
      rw [Mapping.get_cons] at present
      split_ifs at present with same
      · cases present
        subst same
        exact ⟨[], rest, rfl, List.not_mem_nil⟩
      · rcases induction present with ⟨before, after, rfl, first⟩
        refine ⟨entry :: before, after, rfl, ?_⟩
        rw [names_cons, List.mem_cons, not_or]
        exact ⟨Ne.symm same, first⟩

theorem assign_split
    {before : Mapping} {key : Text} (first : key ∉ names before)
    (old node : Node) (after : Mapping) :
    Mapping.assign key node (before ++ (key, old) :: after) =
      before ++ (key, node) :: after := by
  induction before with
  | nil => rw [List.nil_append, Mapping.assign, if_pos rfl, List.nil_append]
  | cons entry rest induction =>
      rw [names_cons, List.mem_cons, not_or] at first
      rw [List.cons_append, Mapping.assign, if_neg (Ne.symm first.1),
        induction first.2, List.cons_append]

/-! ## Edits -/

/-- The edits of a tree along a path. -/
inductive Edited (value : Text) : List Text → Mapping → Mapping → Prop
  | replaced (before after : Mapping) (segment : Text) (old : Scalar)
      (first : segment ∉ names before) :
      Edited value [segment] (before ++ (segment, .scalar old) :: after)
        (before ++ (segment, .scalar (.string value)) :: after)
  | descended (before after child grown : Mapping) (segment : Text)
      (rest : List Text) (first : segment ∉ names before)
      (edited : Edited value rest child grown) :
      Edited value (segment :: rest)
        (before ++ (segment, .mapping child) :: after)
        (before ++ (segment, .mapping grown) :: after)
  | appended (mapping : Mapping) (segment : Text) (rest : List Text)
      (absent : segment ∉ names mapping) :
      Edited value (segment :: rest) mapping
        (mapping ++ [(segment, chain value rest)])

/-- Into an empty mapping a chain is inserted. -/
theorem insert_nil (value : Text) (key : Key) (segment : Text)
    (rest : List Text) :
    insert [] (segment :: rest) value key =
      .ok [(segment, chain value rest)] := by
  induction rest generalizing segment with
  | nil => rfl
  | cons next rest induction =>
      have created :
          descendForInsert [] segment key =
            .ok ([(segment, .mapping [])], []) := by
        simp [descendForInsert, Mapping.push, Mapping.get_cons]
      rw [Service.insert, created]
      simp only [bind, Except.bind, induction next]
      simp [Mapping.assign, chain, pure, Except.pure]

/-- An insert which succeeds edits the tree along its path. -/
theorem insert_edited
    {mapping changed : Mapping} {segments : List Text} {value : Text}
    {key : Key} (nonempty : segments ≠ [])
    (inserted : insert mapping segments value key = .ok changed) :
    Edited value segments mapping changed := by
  induction segments generalizing mapping changed with
  | nil => exact absurd rfl nonempty
  | cons head rest induction =>
      cases rest with
      | nil =>
          rcases setLeaf_ok inserted with ⟨rfl, scalarBefore⟩
          rw [Mapping.upsert]
          cases present : Mapping.get mapping head with
          | none => exact .appended mapping head [] (get_eq_none_iff.mp present)
          | some node =>
              rcases scalarBefore node present with ⟨old, rfl⟩
              rcases exists_split present with ⟨before, after, rfl, first⟩
              simp only [assign_split first]
              exact .replaced before after head old first
      | cons next rest =>
          rcases insert_cons_cons_ok inserted with
            ⟨parent, child, grown, entered, below, rfl⟩
          rcases descendForInsert_ok entered with
            ⟨present, rfl | ⟨absent, rfl, rfl⟩⟩
          · rcases exists_split present with ⟨before, after, rfl, first⟩
            rw [assign_split first]
            exact .descended before after child grown head _ first
              (induction (List.cons_ne_nil next rest) below)
          · rw [insert_nil, Except.ok.injEq] at below
            subst below
            have first := get_eq_none_iff.mp absent
            rw [Mapping.push, assign_split first]
            exact .appended mapping head (next :: rest) first

/-! ## One mapping on the path -/

theorem idxOf_split
    {before : Mapping} {segment : Text} (first : segment ∉ names before)
    (node : Node) (after : Mapping) :
    (names (before ++ (segment, node) :: after)).idxOf segment =
      before.length := by
  rw [names_append, names_cons, List.idxOf_append_of_notMem first,
    List.idxOf_cons_self, names, List.length_map, Nat.add_zero]

/-- Another value at the first entry of a name edits nothing else. -/
theorem editedAt_split
    {value segment : Text} {rest : List Text}
    {before : Mapping} (first : segment ∉ names before)
    (old new : Node) (after : Mapping) :
    EditedAt value segment rest (before ++ (segment, old) :: after)
      (before ++ (segment, new) :: after) := by
  constructor
  · intro _
    constructor
    · simp
    · intro position other
      rw [idxOf_split first] at other
      rcases Nat.lt_or_gt_of_ne other with earlier | later
      · rw [List.getElem?_append_left earlier,
          List.getElem?_append_left earlier]
      · rcases Nat.exists_eq_add_of_lt later with ⟨further, rfl⟩
        rw [List.getElem?_append_right (by omega),
          List.getElem?_append_right (by omega)]
        have offset :
            before.length + further + 1 - before.length = further + 1 := by
          omega
        rw [offset, List.getElem?_cons_succ, List.getElem?_cons_succ]
  · intro absent
    exact absurd (by simp) absent

theorem Edited.editedAt
    {value segment : Text} {rest : List Text} {before after : Mapping}
    (edited : Edited value (segment :: rest) before after) :
    EditedAt value segment rest before after := by
  cases edited with
  | replaced before after segment old first =>
      exact editedAt_split first _ _ after
  | descended before after child grown segment rest first edited =>
      exact editedAt_split first _ _ after
  | appended mapping segment rest absent =>
      exact ⟨fun present => absurd present absent, fun _ => rfl⟩

theorem mappingAt_cons
    {before : Mapping} {segment : Text} (first : segment ∉ names before)
    (child after : Mapping) (path : List Text) :
    mappingAt (before ++ (segment, .mapping child) :: after)
        (segment :: path) =
      mappingAt child path := by
  rw [mappingAt, nodeAt, get_split first]
  rfl

/-- Below a name which is missing, or which is no mapping, there is none. -/
theorem mappingAt_absent
    {mapping : Mapping} {segment : Text}
    (noMapping : ∀ entries,
      Mapping.get mapping segment ≠ some (.mapping entries))
    (path : List Text) :
    mappingAt mapping (segment :: path) = none := by
  rw [mappingAt, nodeAt]
  cases present : Mapping.get mapping segment with
  | none => rfl
  | some node =>
      cases node with
      | mapping entries => exact absurd present (noMapping entries)
      | scalar scalar => cases path <;> rfl
      | sequence items => cases path <;> rfl

/-- Every mapping on the path is edited at its segment only. -/
theorem Edited.along
    {value : Text} {segments : List Text} {root changed : Mapping}
    (edited : Edited value segments root changed)
    {front : List Text} {segment : Text} {rest : List Text}
    (onPath : segments = front ++ segment :: rest)
    {before : Mapping} (reached : mappingAt root front = some before) :
    ∃ after, mappingAt changed front = some after ∧
      EditedAt value segment rest before after := by
  induction edited generalizing front before with
  | replaced earlier later name old first =>
      cases front with
      | nil =>
          cases onPath
          cases reached
          exact ⟨_, rfl, editedAt_split first _ _ later⟩
      | cons head front =>
          have lengths := congrArg List.length onPath
          simp at lengths
  | descended earlier later child grown name below first edited induction =>
      cases front with
      | nil =>
          cases onPath
          cases reached
          exact ⟨_, rfl, editedAt_split first _ _ later⟩
      | cons head front =>
          rcases List.cons.inj onPath with ⟨rfl, below⟩
          rw [mappingAt_cons first] at reached ⊢
          exact induction below reached
  | appended mapping name below absent =>
      cases front with
      | nil =>
          cases onPath
          cases reached
          exact ⟨_, rfl, (Edited.appended mapping _ _ absent).editedAt⟩
      | cons head front =>
          rcases List.cons.inj onPath with ⟨rfl, below⟩
          rw [mappingAt_absent] at reached
          · cases reached
          · intro entries
            rw [get_eq_none_iff.mpr absent]
            rintro ⟨⟩

theorem nodeAt_chain (value : Text) (segments : List Text) :
    nodeAt (chain value segments) segments =
      some (.scalar (.string value)) := by
  induction segments with
  | nil => rfl
  | cons segment rest induction =>
      rw [chain, nodeAt, Mapping.get_cons, if_pos rfl]
      exact induction

/-- The value is at the end of the path. -/
theorem Edited.written
    {value : Text} {segments : List Text} {root changed : Mapping}
    (edited : Edited value segments root changed) :
    nodeAt (.mapping changed) segments = some (.scalar (.string value)) := by
  induction edited with
  | replaced before after segment old first =>
      rw [nodeAt, get_split first]
      rfl
  | descended before after child grown segment rest first edited induction =>
      rw [nodeAt, get_split first]
      exact induction
  | appended mapping segment rest absent =>
      rw [nodeAt, get_split absent]
      exact nodeAt_chain value rest

/-! ## Repeated names -/

theorem distinct_chain (value : Text) (segments : List Text) :
    Distinct (chain value segments) := by
  induction segments with
  | nil => exact .scalar _
  | cons segment rest induction =>
      apply Distinct.mapping
      · exact List.pairwise_singleton _ segment
      · intro entry member
        rcases List.mem_singleton.mp member with rfl
        exact induction

theorem distinct_mapping {entries : Mapping} :
    Distinct (.mapping entries) ↔
      (names entries).Nodup ∧ ∀ entry ∈ entries, Distinct entry.2 := by
  constructor
  · intro distinct
    cases distinct with
    | mapping entries nodup each => exact ⟨nodup, each⟩
  · rintro ⟨nodup, each⟩
    exact .mapping entries nodup each

/-- Another value of an entry repeats no name. -/
theorem distinct_split
    {before after : Mapping} {segment : Text} {old new : Node}
    (distinct : Distinct (.mapping (before ++ (segment, old) :: after)))
    (fresh : Distinct new) :
    Distinct (.mapping (before ++ (segment, new) :: after)) := by
  rcases distinct_mapping.mp distinct with ⟨nodup, each⟩
  apply distinct_mapping.mpr
  constructor
  · simpa using nodup
  · intro entry member
    rcases List.mem_append.mp member with earlier | later
    · exact each entry (List.mem_append_left _ earlier)
    · rcases List.mem_cons.mp later with rfl | later
      · exact fresh
      · exact each entry
          (List.mem_append_right _ (List.mem_cons_of_mem _ later))

/-- An edit repeats no name which was not repeated before. -/
theorem Edited.distinct
    {value : Text} {segments : List Text} {root changed : Mapping}
    (edited : Edited value segments root changed)
    (distinct : Distinct (.mapping root)) :
    Distinct (.mapping changed) := by
  induction edited with
  | replaced before after segment old first =>
      exact distinct_split distinct (.scalar _)
  | descended before after child grown segment rest first edited induction =>
      apply distinct_split distinct
      apply induction
      exact (distinct_mapping.mp distinct).2 (segment, .mapping child)
        (by simp)
  | appended mapping segment rest absent =>
      rcases distinct_mapping.mp distinct with ⟨nodup, each⟩
      apply distinct_mapping.mpr
      constructor
      · rw [names_append]
        apply List.nodup_append.mpr
        refine ⟨nodup, List.pairwise_singleton _ segment, ?_⟩
        intro name member other isNew
        rcases List.mem_singleton.mp isNew with rfl
        rintro rfl
        exact absent member
      · intro entry member
        rcases List.mem_append.mp member with earlier | isNew
        · exact each entry earlier
        · rcases List.mem_singleton.mp isNew with rfl
          exact distinct_chain value rest

/--
An insert which succeeds edits every mapping on its path at one segment only,
puts the value at the end of the path, and repeats no name which was not
repeated before.
-/
theorem insert_edits_path
    (root changed : Mapping) (key : Key) (value : Text)
    (inserted :
      Service.insert root key.segments value key = .ok changed) :
    (∀ front segment rest before,
      key.segments = front ++ segment :: rest →
        mappingAt root front = some before →
          ∃ after, mappingAt changed front = some after ∧
            EditedAt value segment rest before after) ∧
      nodeAt (.mapping changed) key.segments =
          some (.scalar (.string value)) ∧
        (Distinct (.mapping root) → Distinct (.mapping changed)) := by
  have edited := insert_edited key.nonempty inserted
  refine ⟨?_, edited.written, edited.distinct⟩
  intro front segment rest before onPath reached
  exact edited.along onPath reached

def colourKey : Key where
  segments := ["ui".toList, "colour".toList]
  nonempty := List.cons_ne_nil _ _
  wellFormed := by decide

/-- A tree in which a name is next to the one which is set. -/
def uiTree (colours : Mapping) : Mapping :=
  [("ui".toList,
      .mapping (("dense".toList, .scalar (.bool true)) :: colours)),
    ("name".toList, .scalar .null)]

theorem insert_edits_path_colour :
    (∀ front segment rest before,
      colourKey.segments = front ++ segment :: rest →
        mappingAt (uiTree []) front = some before →
          ∃ after,
            mappingAt
                (uiTree
                  [("colour".toList, .scalar (.string "red".toList))])
                front =
              some after ∧
            EditedAt "red".toList segment rest before after) ∧
      nodeAt
          (.mapping
            (uiTree [("colour".toList, .scalar (.string "red".toList))]))
          colourKey.segments =
        some (.scalar (.string "red".toList)) ∧
      (Distinct (.mapping (uiTree [])) →
        Distinct
          (.mapping
            (uiTree
              [("colour".toList, .scalar (.string "red".toList))]))) :=
  insert_edits_path (uiTree [])
    (uiTree [("colour".toList, .scalar (.string "red".toList))])
    colourKey "red".toList rfl

end Luminosity.Config.TreeEdits
