import Mathlib.Data.List.Nodup
import Luminosity.Foundation.JsonValues
import Luminosity.Launch.Verifier

/-!
# The format of the manifest

The launcher reads a manifest as the derived deserialisers of its structs do.
A field which is not known is ignored, and one which has a default may be
missing.  So a manifest may gain fields at every level, and is read as it was
before.
-/

namespace Luminosity.Launch.ManifestFormat

open Luminosity.Foundation.TextSegments
open Luminosity.Foundation.JsonValues
open Luminosity.Launch.Verifier

variable {α : Type}

/-! ## Values -/

def textOf : Json → Option Text
  | .string value => some value
  | _ => none

def wordOf : Json → Option UInt64
  | .integer value =>
      if 0 ≤ value ∧ value.toNat < UInt64.size then
        some (UInt64.ofNat value.toNat)
      else
        none
  | _ => none

/-- The entries of a map, in the order of the text. -/
def entriesOf (read : Json → Option α) :
    List (Text × Json) → Option (List (Text × α))
  | [] => some []
  | (name, value) :: later => do
      let item ← read value
      let entries ← entriesOf read later
      return (name, item) :: entries

def mapOf (read : Json → Option α) : Json → Option (List (Text × α))
  | .object fields => entriesOf read fields
  | _ => none

/-- The last entry of a name is the one which a map keeps. -/
def lastOf (entries : List (Text × α)) (name : Text) : Option α :=
  entries.reverse.lookup name

/-- Where no name is repeated, the last entry is the first. -/
theorem lastOf_eq_lookup
    {entries : List (Text × α)} (nodup : (entries.map Prod.fst).Nodup)
    (name : Text) :
    lastOf entries name = entries.lookup name := by
  unfold lastOf
  induction entries with
  | nil => rfl
  | cons entry later induction =>
      rw [List.map_cons, List.nodup_cons] at nodup
      rw [List.reverse_cons, List.lookup_append, induction nodup.2,
        List.lookup_cons, List.lookup_cons]
      by_cases same : name = entry.1
      · have absent : later.lookup name = none := by
          rw [List.lookup_eq_none_iff]
          intro other member
          have different : name ≠ other.1 := by
            rintro equal
            exact nodup.1 (List.mem_map.mpr ⟨other, member,
              equal.symm.trans same⟩)
          simpa using different
        rw [absent]
        simp [same]
      · rw [beq_false_of_ne same]
        simp

/-! ## Structs -/

/--
The fields a struct is read from.  An object may not repeat one of them, and
may have others.  An array has them in order, and no more.
-/
def structFields (names : List Text) : Json → Option (List (Text × Json))
  | .object fields =>
      if ∀ name ∈ names, (fields.map Prod.fst).count name ≤ 1 then
        some fields
      else
        none
  | .array items =>
      if items.length ≤ names.length then some (names.zip items) else none
  | _ => none

def required (name : Text) (read : Json → Option α)
    (fields : List (Text × Json)) : Option α :=
  match fields.lookup name with
  | some value => read value
  | none => none

/-- A field with `#[serde(default)]`. -/
def withDefault (name : Text) (read : Json → Option α) (default : α)
    (fields : List (Text × Json)) : Option α :=
  match fields.lookup name with
  | some value => read value
  | none => some default

/-! ## The manifest -/

structure BinaryDocument where
  description : Text
  platforms : List (Text × PlatformEntry)

/-- A manifest, with its maps in the order of the text. -/
structure Document where
  schemaVersion : UInt64
  version : Text
  binaries : List (Text × BinaryDocument)

def platformNames : List Text :=
  ["sha256".toList, "signature".toList]

def platformOf (value : Json) : Option PlatformEntry := do
  let fields ← structFields platformNames value
  let sha256 ← required "sha256".toList textOf fields
  let signature ← required "signature".toList textOf fields
  return { sha256, signature }

def binaryNames : List Text :=
  ["description".toList, "platforms".toList]

def binaryOf (value : Json) : Option BinaryDocument := do
  let fields ← structFields binaryNames value
  let description ← withDefault "description".toList textOf [] fields
  let platforms ←
    withDefault "platforms".toList (mapOf platformOf) [] fields
  return { description, platforms }

def manifestNames : List Text :=
  ["schema_version".toList, "version".toList, "binaries".toList]

def deserialize (value : Json) : Option Document := do
  let fields ← structFields manifestNames value
  let schemaVersion ← required "schema_version".toList wordOf fields
  let version ← required "version".toList textOf fields
  let binaries ← withDefault "binaries".toList (mapOf binaryOf) [] fields
  return { schemaVersion, version, binaries }

/-- What the launcher keeps of a manifest. -/
def Document.contract (document : Document) : Manifest where
  schemaVersion := document.schemaVersion
  version := document.version
  binaries name :=
    (lastOf document.binaries name).map fun binary =>
      { platforms := lastOf binary.platforms }

/--
The launcher's parser reads what the writer prints of a value, as long as the
value is not nested too deep for it.
-/
def ReadsManifests (libraries : Libraries) (json : JsonLibrary) : Prop :=
  ∀ value text ending, value.Distinct → value.Within 127 →
    json.dumps value = .ok text → (ending = [] ∨ ending = ['\n']) →
      (libraries.fromSlice (encode (text ++ ending))).toOption =
        (deserialize value).map Document.contract

/-- A parser by way of the values of a JSON library. -/
def readManifest (json : JsonLibrary) (bytes : Bytes) :
    Except Text Manifest :=
  match decode bytes with
  | none => .error "invalid unicode code point".toList
  | some text =>
      match json.loads text with
      | .error detail => .error detail
      | .ok value =>
          match deserialize value with
          | none => .error "invalid type".toList
          | some document => .ok document.contract

theorem readsManifests_of_lawful
    {libraries : Libraries} {json : JsonLibrary} (lawful : json.Lawful)
    (parser : libraries.fromSlice = readManifest json) :
    ReadsManifests libraries json := by
  intro value text ending distinct _ dumped line
  have loaded : json.loads (text ++ ending) = .ok value := by
    rcases line with rfl | rfl
    · rw [List.append_nil]
      exact lawful.loads_dumps value text distinct dumped
    · exact lawful.loads_line value text distinct dumped
  rw [parser, readManifest, decode_encode]
  simp only [loaded]
  cases deserialize value with
  | none => rfl
  | some document => rfl

/-! ## Fields which are not known -/

section Additive

/-- The same field, or a field on both sides which is read alike. -/
def Keeps (evolves : Json → Json → Prop) (name : Text)
    (first second : List (Text × Json)) : Prop :=
  first.lookup name = second.lookup name ∨
    ∃ value other, first.lookup name = some value ∧
      second.lookup name = some other ∧ evolves value other

/-- The names are those of the first value, and the others are kept. -/
def MapEvolves (evolves : Json → Json → Prop) (first second : Json) :
    Prop :=
  ∃ fields others, first = .object fields ∧ second = .object others ∧
    List.Forall₂
      (fun field other => field.1 = other.1 ∧
        (field.2 = other.2 ∨ evolves field.2 other.2))
      fields others

/-- A platform may gain fields. -/
def PlatformEvolves (first second : Json) : Prop :=
  ∃ fields others, first = .object fields ∧ second = .object others ∧
    ∀ name ∈ platformNames, fields.lookup name = others.lookup name

/-- A binary may gain fields, and so may its platforms. -/
def BinaryEvolves (first second : Json) : Prop :=
  ∃ fields others, first = .object fields ∧ second = .object others ∧
    fields.lookup "description".toList =
        others.lookup "description".toList ∧
      Keeps (MapEvolves PlatformEvolves) "platforms".toList fields others

/-- A manifest may gain fields, and so may its binaries. -/
def ManifestEvolves (first second : Json) : Prop :=
  ∃ fields others, first = .object fields ∧ second = .object others ∧
    fields.lookup "schema_version".toList =
        others.lookup "schema_version".toList ∧
      fields.lookup "version".toList = others.lookup "version".toList ∧
        Keeps (MapEvolves BinaryEvolves) "binaries".toList fields others

theorem structFields_object
    (names : List Text) {fields : List (Text × Json)}
    (distinct : (Json.object fields).Distinct) :
    structFields names (.object fields) = some fields := by
  cases distinct with
  | object nodup _ =>
      apply if_pos
      intro name _
      exact List.nodup_iff_count_le_one.mp nodup name

theorem required_congr
    {name : Text} {fields others : List (Text × Json)}
    (same : fields.lookup name = others.lookup name)
    (read : Json → Option α) :
    required name read fields = required name read others := by
  rw [required, required, same]

theorem withDefault_congr
    {name : Text} {fields others : List (Text × Json)}
    (same : fields.lookup name = others.lookup name)
    (read : Json → Option α) (default : α) :
    withDefault name read default fields =
      withDefault name read default others := by
  rw [withDefault, withDefault, same]

/-- A reader which does not tell evolved values apart. -/
def Ignores (evolves : Json → Json → Prop) (read : Json → Option α) : Prop :=
  ∀ first second, first.Distinct → second.Distinct →
    evolves first second → read first = read second

variable {evolves : Json → Json → Prop} {read : Json → Option α}

theorem withDefault_keeps
    {name : Text} {fields others : List (Text × Json)} (default : α)
    (ignores : Ignores evolves read)
    (distinct : (Json.object fields).Distinct)
    (otherDistinct : (Json.object others).Distinct)
    (keeps : Keeps evolves name fields others) :
    withDefault name read default fields =
      withDefault name read default others := by
  rcases keeps with same | ⟨value, other, found, otherFound, evolved⟩
  · exact withDefault_congr same read default
  · rw [withDefault, withDefault, found, otherFound]
    exact ignores value other (distinct.of_lookup found)
      (otherDistinct.of_lookup otherFound) evolved

/-- A map is read alike when each of its entries is. -/
theorem mapOf_ignores
    (ignores : Ignores evolves read) :
    Ignores (MapEvolves evolves) (mapOf read) := by
  rintro _ _ distinct otherDistinct ⟨fields, others, rfl, rfl, entries⟩
  rw [mapOf, mapOf]
  have each (field : Text × Json) (member : field ∈ fields) :=
    distinct.of_field member
  have otherEach (field : Text × Json) (member : field ∈ others) :=
    otherDistinct.of_field member
  clear distinct otherDistinct
  induction entries with
  | nil => rfl
  | @cons field other fields others head _ induction =>
      have values : read field.2 = read other.2 := by
        rcases head.2 with same | evolved
        · rw [same]
        · exact ignores _ _ (each field List.mem_cons_self)
            (otherEach other List.mem_cons_self) evolved
      have rest := induction
        (fun entry member => each entry (List.mem_cons_of_mem _ member))
        (fun entry member => otherEach entry (List.mem_cons_of_mem _ member))
      change (do
          let item ← read field.2
          let entries ← entriesOf read fields
          pure ((field.1, item) :: entries)) = _
      rw [values, rest, head.1]
      rfl

theorem platformOf_ignores : Ignores PlatformEvolves platformOf := by
  rintro _ _ distinct otherDistinct ⟨fields, others, rfl, rfl, same⟩
  rw [platformOf, platformOf, structFields_object _ distinct,
    structFields_object _ otherDistinct]
  simp only [Option.bind_eq_bind, Option.bind_some]
  rw [required_congr (same _ (by decide)), required_congr (same _ (by decide))]

theorem binaryOf_ignores : Ignores BinaryEvolves binaryOf := by
  rintro _ _ distinct otherDistinct
    ⟨fields, others, rfl, rfl, description, platforms⟩
  rw [binaryOf, binaryOf, structFields_object _ distinct,
    structFields_object _ otherDistinct]
  simp only [Option.bind_eq_bind, Option.bind_some]
  rw [withDefault_congr description,
    withDefault_keeps [] (mapOf_ignores platformOf_ignores) distinct
      otherDistinct platforms]

/-- Fields which are not known change nothing, at any level. -/
theorem deserialize_ignores : Ignores ManifestEvolves deserialize := by
  rintro _ _ distinct otherDistinct
    ⟨fields, others, rfl, rfl, schemaVersion, version, binaries⟩
  rw [deserialize, deserialize, structFields_object _ distinct,
    structFields_object _ otherDistinct]
  simp only [Option.bind_eq_bind, Option.bind_some]
  rw [required_congr schemaVersion, required_congr version,
    withDefault_keeps [] (mapOf_ignores binaryOf_ignores) distinct
      otherDistinct binaries]

end Additive

/-- A manifest which a parser finds to be the same one is judged alike. -/
theorem parseAndValidate_congr
    {libraries : Libraries} {first second : Bytes}
    (same : (libraries.fromSlice first).toOption =
      (libraries.fromSlice second).toOption)
    (version : Text) :
    (Manifest.parseAndValidate libraries first version).toOption =
      (Manifest.parseAndValidate libraries second version).toOption := by
  have option {ε α : Type} (result : Except ε α) (value : α) :
      result.toOption = some value ↔ result = .ok value := by
    cases result with
    | error error => simp [Except.toOption]
    | ok other => simp [Except.toOption]
  apply Option.ext
  intro manifest
  rw [option, option, parseAndValidate_ok_iff, parseAndValidate_ok_iff,
    ← option (libraries.fromSlice first), same, option]

section Small

def plainFields : List (Text × Json) :=
  [("schema_version".toList, .integer 1),
    ("version".toList, .string "1.0.0".toList)]

def plainManifest : Json :=
  .object plainFields

def grownManifest : Json :=
  .object (plainFields ++ [("future_field".toList, .integer 42)])

def smallLibrary : JsonLibrary :=
  tableLibrary (printAt 0) [plainManifest, grownManifest]

def smallLibraries : Libraries where
  digest _ := Vector.replicate 32 0
  PublicKey := Unit
  Signature := Unit
  decodeSignature _ := .ok ()
  verify _ _ _ _ := .ok ()
  fromSlice := readManifest smallLibrary

theorem plain_field
    {field : Text × Json} (member : field ∈ plainFields) :
    field.2.Distinct ∧ field.2.Within 126 := by
  simp only [plainFields, List.mem_cons, List.not_mem_nil, or_false]
    at member
  rcases member with rfl | rfl
  · exact ⟨.integer _, .integer _ _⟩
  · exact ⟨.string _, .string _ _⟩

theorem grown_field
    {field : Text × Json}
    (member :
      field ∈ plainFields ++ [("future_field".toList, .integer 42)]) :
    field.2.Distinct ∧ field.2.Within 126 := by
  rcases List.mem_append.mp member with plain | new
  · exact plain_field plain
  · rw [List.mem_singleton.mp new]
    exact ⟨.integer _, .integer _ _⟩

theorem plainManifest_distinct : plainManifest.Distinct :=
  .object (by decide) fun _ member => (plain_field member).1

theorem grownManifest_distinct : grownManifest.Distinct :=
  .object (by decide) fun _ member => (grown_field member).1

theorem smallLibrary_lawful : smallLibrary.Lawful := by
  apply tableLibrary_lawful
  constructor
  · intro value member
    simp only [List.mem_cons, List.not_mem_nil, or_false] at member
    rcases member with rfl | rfl
    · exact plainManifest_distinct
    · exact grownManifest_distinct
  · intro value member
    simp only [List.mem_cons, List.not_mem_nil, or_false] at member
    rcases member with rfl | rfl <;> decide +kernel
  · intro value member other otherMember
    simp only [List.mem_cons, List.not_mem_nil, or_false]
      at member otherMember
    rcases member with rfl | rfl <;> rcases otherMember with rfl | rfl <;>
      decide +kernel

end Small

end Luminosity.Launch.ManifestFormat
