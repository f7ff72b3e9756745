import Luminosity.Foundation.TextSegments

/-!
# JSON values

The values of a JSON library whose objects keep the order of their fields.
Storing a field replaces its value in place, or appends the field.

A value is distinct when no object in it has two fields of one name.  These
are the values which a library can write and read back.
-/

namespace Luminosity.Foundation.JsonValues

open Luminosity.Foundation.TextSegments

/-! ## Ordered dictionaries -/

section Dictionaries

variable {κ ν : Type} [DecidableEq κ]

/-- Replace the value of a key in place, or append the key. -/
def setItem (key : κ) (value : ν) : List (κ × ν) → List (κ × ν)
  | [] => [(key, value)]
  | (name, held) :: rest =>
      if name = key then
        (name, value) :: rest
      else
        (name, held) :: setItem key value rest

@[simp]
theorem lookup_setItem_self
    [BEq κ] [LawfulBEq κ] (key : κ) (value : ν) (fields : List (κ × ν)) :
    (setItem key value fields).lookup key = some value := by
  induction fields with
  | nil => simp [setItem]
  | cons entry rest induction =>
      rcases entry with ⟨name, held⟩
      by_cases same : name = key
      · simp [setItem, same]
      · have different : (key == name) = false := by
          simpa using Ne.symm same
        rw [setItem, if_neg same, List.lookup_cons, different]
        exact induction

theorem lookup_setItem_of_ne
    [BEq κ] [LawfulBEq κ] {key other : κ} (value : ν) (different : other ≠ key)
    (fields : List (κ × ν)) :
    (setItem key value fields).lookup other = fields.lookup other := by
  induction fields with
  | nil => simp [setItem, different]
  | cons entry rest induction =>
      rcases entry with ⟨name, held⟩
      by_cases same : name = key
      · subst same
        rw [setItem, if_pos rfl, List.lookup_cons, List.lookup_cons,
          beq_false_of_ne different]
      · rw [setItem, if_neg same, List.lookup_cons, List.lookup_cons,
          induction]

theorem setItem_of_notMem
    {key : κ} (value : ν) {fields : List (κ × ν)}
    (absent : key ∉ fields.map Prod.fst) :
    setItem key value fields = fields ++ [(key, value)] := by
  induction fields with
  | nil => rfl
  | cons entry rest induction =>
      rw [List.map_cons, List.mem_cons, not_or] at absent
      rw [setItem, if_neg (Ne.symm absent.1), induction absent.2]
      rfl

/-- The second of two stores is the one which counts. -/
@[simp]
theorem setItem_setItem (key : κ) (value earlier : ν)
    (fields : List (κ × ν)) :
    setItem key value (setItem key earlier fields) =
      setItem key value fields := by
  induction fields with
  | nil => simp [setItem]
  | cons entry rest induction =>
      rcases entry with ⟨name, held⟩
      by_cases same : name = key
      · simp [setItem, same]
      · simp [setItem, same, induction]

/-- An entry of a store is the stored one, or was there. -/
theorem mem_setItem
    {key : κ} {value : ν} {fields : List (κ × ν)} {entry : κ × ν}
    (member : entry ∈ setItem key value fields) :
    entry = (key, value) ∨ entry ∈ fields := by
  induction fields with
  | nil => exact Or.inl (List.mem_singleton.mp member)
  | cons first rest induction =>
      rcases first with ⟨name, held⟩
      by_cases same : name = key
      · subst same
        rw [setItem, if_pos rfl] at member
        rcases List.mem_cons.mp member with rfl | later
        · exact Or.inl rfl
        · exact Or.inr (List.mem_cons_of_mem _ later)
      · rw [setItem, if_neg same] at member
        rcases List.mem_cons.mp member with rfl | later
        · exact Or.inr List.mem_cons_self
        · exact (induction later).imp id (List.mem_cons_of_mem _)

theorem nodup_setItem
    (key : κ) (value : ν) {fields : List (κ × ν)}
    (nodup : (fields.map Prod.fst).Nodup) :
    ((setItem key value fields).map Prod.fst).Nodup := by
  induction fields with
  | nil => simp [setItem]
  | cons first rest induction =>
      rcases first with ⟨name, held⟩
      rw [List.map_cons, List.nodup_cons] at nodup
      by_cases same : name = key
      · rw [setItem, if_pos same, List.map_cons, List.nodup_cons]
        exact nodup
      · rw [setItem, if_neg same, List.map_cons, List.nodup_cons]
        refine ⟨?_, induction nodup.2⟩
        intro member
        rcases List.mem_map.mp member with ⟨entry, stored, rfl⟩
        rcases mem_setItem stored with rfl | old
        · exact same rfl
        · exact nodup.1 (List.mem_map.mpr ⟨entry, old, rfl⟩)

end Dictionaries

/-! ## Values -/

inductive Json where
  | null
  | boolean (value : Bool)
  | integer (value : Int)
  /-- A number with a fraction or an exponent, by its digits. -/
  | float (digits : Text)
  | string (value : Text)
  | array (items : List Json)
  | object (fields : List (Text × Json))

namespace Json

/-- No object in the value has two fields of one name. -/
inductive Distinct : Json → Prop where
  | null : Distinct .null
  | boolean (value : Bool) : Distinct (.boolean value)
  | integer (value : Int) : Distinct (.integer value)
  | float (digits : Text) : Distinct (.float digits)
  | string (value : Text) : Distinct (.string value)
  | array {items : List Json} (each : ∀ item ∈ items, Distinct item) :
      Distinct (.array items)
  | object {fields : List (Text × Json)}
      (nodup : (fields.map Prod.fst).Nodup)
      (each : ∀ field ∈ fields, Distinct field.2) :
      Distinct (.object fields)

theorem Distinct.of_field
    {fields : List (Text × Json)} (distinct : Distinct (.object fields))
    {field : Text × Json} (member : field ∈ fields) :
    Distinct field.2 := by
  cases distinct with
  | object _ each => exact each field member

theorem Distinct.of_lookup
    {fields : List (Text × Json)} (distinct : Distinct (.object fields))
    {name : Text} {value : Json} (found : fields.lookup name = some value) :
    Distinct value := by
  rcases List.lookup_eq_some_iff.mp found with ⟨before, after, rfl, _⟩
  exact distinct.of_field
    (List.mem_append_right before List.mem_cons_self)

theorem Distinct.setItem
    {fields : List (Text × Json)} (distinct : Distinct (.object fields))
    (name : Text) {value : Json} (stored : Distinct value) :
    Distinct (.object (JsonValues.setItem name value fields)) := by
  cases distinct with
  | object nodup each =>
      apply Distinct.object (nodup_setItem name value nodup)
      intro field member
      rcases mem_setItem member with rfl | old
      · exact stored
      · exact each field old

/-- The value is nested at most so deep, and has no fractions. -/
inductive Within : Nat → Json → Prop where
  | null (depth : Nat) : Within depth .null
  | boolean (depth : Nat) (value : Bool) : Within depth (.boolean value)
  | integer (depth : Nat) (value : Int) : Within depth (.integer value)
  | string (depth : Nat) (value : Text) : Within depth (.string value)
  | array {depth : Nat} {items : List Json}
      (each : ∀ item ∈ items, Within depth item) :
      Within (depth + 1) (.array items)
  | object {depth : Nat} {fields : List (Text × Json)}
      (each : ∀ field ∈ fields, Within depth field.2) :
      Within (depth + 1) (.object fields)

/-! ### Equality -/

mutual

/-- Whether two values are the same. -/
def same : Json → Json → Bool
  | .null, .null => true
  | .boolean value, .boolean other => value == other
  | .integer value, .integer other => value == other
  | .float digits, .float others => digits == others
  | .string value, .string other => value == other
  | .array items, .array others => sameItems items others
  | .object fields, .object others => sameFields fields others
  | _, _ => false

def sameItems : List Json → List Json → Bool
  | [], [] => true
  | item :: items, other :: others =>
      same item other && sameItems items others
  | _, _ => false

def sameFields : List (Text × Json) → List (Text × Json) → Bool
  | [], [] => true
  | (name, value) :: fields, (otherName, other) :: others =>
      name == otherName && (same value other && sameFields fields others)
  | _, _ => false

end

mutual

theorem eq_of_same {first second : Json} (holds : same first second = true) :
    first = second := by
  match first, second, holds with
  | .null, .null, _ => rfl
  | .boolean _, .boolean _, holds => rw [beq_iff_eq.mp holds]
  | .integer _, .integer _, holds => rw [beq_iff_eq.mp holds]
  | .float _, .float _, holds => rw [beq_iff_eq.mp holds]
  | .string _, .string _, holds => rw [beq_iff_eq.mp holds]
  | .array _, .array _, holds => rw [items_eq_of_same holds]
  | .object _, .object _, holds => rw [fields_eq_of_same holds]

theorem items_eq_of_same
    {first second : List Json} (holds : sameItems first second = true) :
    first = second := by
  match first, second, holds with
  | [], [], _ => rfl
  | item :: items, other :: others, holds =>
      rw [sameItems, Bool.and_eq_true] at holds
      rw [eq_of_same holds.1, items_eq_of_same holds.2]

theorem fields_eq_of_same
    {first second : List (Text × Json)}
    (holds : sameFields first second = true) :
    first = second := by
  match first, second, holds with
  | [], [], _ => rfl
  | (name, value) :: fields, (otherName, other) :: others, holds =>
      rw [sameFields, Bool.and_eq_true, Bool.and_eq_true, beq_iff_eq] at holds
      rw [holds.1, eq_of_same holds.2.1, fields_eq_of_same holds.2.2]

end

mutual

theorem same_self (value : Json) : same value value = true := by
  match value with
  | .null => rfl
  | .boolean value => exact beq_self_eq_true value
  | .integer value => exact beq_self_eq_true value
  | .float digits => exact beq_self_eq_true digits
  | .string value => exact beq_self_eq_true value
  | .array items => exact sameItems_self items
  | .object fields => exact sameFields_self fields

theorem sameItems_self (items : List Json) :
    sameItems items items = true := by
  match items with
  | [] => rfl
  | item :: items =>
      rw [sameItems, same_self item, sameItems_self items]
      rfl

theorem sameFields_self (fields : List (Text × Json)) :
    sameFields fields fields = true := by
  match fields with
  | [] => rfl
  | (name, value) :: fields =>
      rw [sameFields, same_self value, sameFields_self fields,
        beq_self_eq_true]
      rfl

end

instance : DecidableEq Json := fun first second =>
  decidable_of_iff (same first second = true)
    ⟨eq_of_same, fun equal => equal ▸ same_self first⟩

end Json

/-! ## Printing -/

def indentation (depth : Nat) : Text :=
  '\n' :: List.replicate (2 * depth) ' '

mutual

/-- `json.dumps` with an indent, for texts in which nothing is escaped. -/
def printAt (depth : Nat) : Json → Text
  | .null => "null".toList
  | .boolean true => "true".toList
  | .boolean false => "false".toList
  | .integer value => decimal value.toNat
  | .float digits => digits
  | .string value => "\"".toList ++ value ++ "\"".toList
  | .array [] => "[]".toList
  | .array (item :: items) =>
      '[' :: indentation (depth + 1) ++ printAt (depth + 1) item ++
        printItems (depth + 1) items ++ indentation depth ++ "]".toList
  | .object [] => "\x7b\x7d".toList
  | .object ((name, value) :: fields) =>
      "\x7b".toList ++ indentation (depth + 1) ++ "\"".toList ++ name ++
        "\": ".toList ++ printAt (depth + 1) value ++
        printFields (depth + 1) fields ++ indentation depth ++
        "\x7d".toList

def printItems (depth : Nat) : List Json → Text
  | [] => []
  | item :: items =>
      ',' :: indentation depth ++ printAt depth item ++ printItems depth items

def printFields (depth : Nat) : List (Text × Json) → Text
  | [] => []
  | (name, value) :: fields =>
      ',' :: indentation depth ++ "\"".toList ++ name ++ "\": ".toList ++
        printAt depth value ++ printFields depth fields

end

/-! ## Libraries -/

/-- What parses JSON texts and prints values, unless they are too deep. -/
structure JsonLibrary where
  loads : Text → Except Text Json
  dumps : Json → Except Text Text

/-- A value is read back as it was printed, also with its last line ended. -/
structure JsonLibrary.Lawful (library : JsonLibrary) : Prop where
  distinct : ∀ text value, library.loads text = .ok value → value.Distinct
  loads_dumps : ∀ value text, value.Distinct →
    library.dumps value = .ok text → library.loads text = .ok value
  loads_line : ∀ value text, value.Distinct →
    library.dumps value = .ok text →
      library.loads (text ++ ['\n']) = .ok value
  unreturned : ∀ value text, library.dumps value = .ok text → '\r' ∉ text

section Tables

variable (print : Json → Text) (values : List Json)

/-- The value which is printed as the text, or as its last line. -/
def printedAs (text : Text) (value : Json) : Bool :=
  decide (text = print value ∨ text = print value ++ ['\n'])

/-- A library which knows finitely many values, by what is printed of them. -/
def tableLibrary : JsonLibrary where
  loads text :=
    match values.find? (printedAs print text) with
    | some value => .ok value
    | none => .error "unsupported".toList
  dumps value :=
    if value ∈ values then .ok (print value) else .error "unsupported".toList

/-- The values of the table can be told from what is printed of them. -/
structure Table : Prop where
  distinct : ∀ value ∈ values, value.Distinct
  unreturned : ∀ value ∈ values, '\r' ∉ print value
  apart : ∀ value ∈ values, ∀ other ∈ values,
    printedAs print (print value) other = true ∨
      printedAs print (print value ++ ['\n']) other = true →
    value = other

variable {print values}

theorem tableLibrary_loads
    {text : Text} {value : Json} (member : value ∈ values)
    (printed : printedAs print text value = true)
    (apart : ∀ other ∈ values, printedAs print text other = true →
      value = other) :
    (tableLibrary print values).loads text = .ok value := by
  have found : (values.find? (printedAs print text)) = some value := by
    cases result : values.find? (printedAs print text) with
    | none =>
        exact absurd printed (List.find?_eq_none.mp result value member)
    | some other =>
        rw [apart other (List.mem_of_find?_eq_some result)
          (List.find?_some result)]
  simp only [tableLibrary, found]

theorem tableLibrary_dumps_ok
    {value : Json} {text : Text}
    (dumped : (tableLibrary print values).dumps value = .ok text) :
    value ∈ values ∧ text = print value := by
  simp only [tableLibrary] at dumped
  split_ifs at dumped with member
  cases dumped
  exact ⟨member, rfl⟩

theorem tableLibrary_lawful (table : Table print values) :
    (tableLibrary print values).Lawful where
  distinct text value loaded := by
    simp only [tableLibrary] at loaded
    split at loaded
    · rename_i other found
      cases loaded
      exact table.distinct value (List.mem_of_find?_eq_some found)
    · cases loaded
  loads_dumps value text _ dumped := by
    rcases tableLibrary_dumps_ok dumped with ⟨member, rfl⟩
    exact tableLibrary_loads member (decide_eq_true (Or.inl rfl))
      fun other otherMember printed =>
        table.apart value member other otherMember (Or.inl printed)
  loads_line value text _ dumped := by
    rcases tableLibrary_dumps_ok dumped with ⟨member, rfl⟩
    exact tableLibrary_loads member (decide_eq_true (Or.inr rfl))
      fun other otherMember printed =>
        table.apart value member other otherMember (Or.inr printed)
  unreturned value text dumped := by
    rcases tableLibrary_dumps_ok dumped with ⟨member, rfl⟩
    exact table.unreturned value member

end Tables

end Luminosity.Foundation.JsonValues
