import Luminosity.Adapters.Store
import Luminosity.Host.FlatDisk

/-!
# Documents and prose on a disk

Each operation of the store is specified by the content of the one file it
reads.  An operation which only reads yields what a pure function of that
content says, unless the host fails or refuses it; a write leaves the rendered
text or the file as it was.

When nothing fails the operations do yield these results, so the specifications
describe runs which exist.
-/

namespace Luminosity.Adapters.StoreDocuments

open Luminosity.Foundation.TextSegments
open Luminosity.Foundation.EffectPrograms
open Luminosity.Config.Domain
open Luminosity.Config.Service
open Luminosity.Host.Paths
open Luminosity.Host.Calls
open Luminosity.Host.FlatDisk
open Luminosity.Adapters.Frontmatter
open Luminosity.Adapters.Document
open Luminosity.Adapters.Store
open Luminosity.Adapters.Store.FileConfigStore

variable {α β : Type}

/-! ## What an operation yields -/

/-- An error which reports the host or the place of a file, not its content. -/
def HostError : ConfigError → Prop
  | .io _ _ => True
  | .unsafePath _ => True
  | _ => False

def HostFails : Except ConfigError α → Prop
  | .error error => HostError error
  | .ok _ => False

section Specifications

variable (surroundings : Surroundings) (process : UInt32) (disk : Disk)

/-- The operation changes nothing and yields this, unless the host fails. -/
def Gives (program : StoreProgram α) (expected : Except ConfigError α) :
    Prop :=
  Ensures (flat surroundings process) program.run
    (fun result after => after = disk ∧ (HostFails result ∨ result = expected))
    disk

/-- The operation changes nothing and fails only by the host. -/
def Harmless (program : StoreProgram α) : Prop :=
  Ensures (flat surroundings process) program.run
    (onOk (fun _ after => after = disk)
      (fun error after => after = disk ∧ HostError error))
    disk

variable {surroundings process disk}

theorem Gives.pure (value : α) :
    Gives surroundings process disk (Pure.pure value) (.ok value) :=
  ⟨rfl, Or.inr rfl⟩

theorem Gives.throw (error : ConfigError) :
    Gives surroundings process disk
      (MonadExceptOf.throw error : StoreProgram α) (.error error) :=
  ⟨rfl, Or.inr rfl⟩

/-- Continue an operation by its expected value. -/
theorem Gives.ensures
    {program : StoreProgram α} {next : α → StoreProgram β}
    {expected : Except ConfigError α}
    {post : Except ConfigError β → Disk → Prop}
    (gives : Gives surroundings process disk program expected)
    (continued : ∀ value, expected = .ok value →
      Ensures (flat surroundings process) (next value).run post disk)
    (failed : ∀ error, HostError error ∨ expected = .error error →
      post (.error error) disk) :
    Ensures (flat surroundings process) (program >>= next).run post disk := by
  rw [ensures_run_bind]
  apply gives.mono
  intro result after outcome
  rcases outcome with ⟨rfl, outcome⟩
  cases result with
  | error error =>
      exact failed error (outcome.imp id Eq.symm)
  | ok value =>
      rcases outcome with hostFailed | equal
      · exact hostFailed.elim
      · exact continued value equal.symm

theorem Gives.bind
    {program : StoreProgram α} {next : α → StoreProgram β}
    {expected : Except ConfigError α}
    {final : α → Except ConfigError β}
    (first : Gives surroundings process disk program expected)
    (rest : ∀ value,
      Gives surroundings process disk (next value) (final value)) :
    Gives surroundings process disk (program >>= next)
      (expected >>= final) := by
  apply first.ensures
  · rintro value rfl
    exact rest value
  · rintro error (hostFailed | rfl)
    · exact ⟨rfl, Or.inl hostFailed⟩
    · exact ⟨rfl, Or.inr rfl⟩

/-- The rest of an operation whose first part yields one value. -/
theorem Gives.next
    {program : StoreProgram α} {next : α → StoreProgram β} {value : α}
    {expected : Except ConfigError β}
    (first : Gives surroundings process disk program (.ok value))
    (rest : Gives surroundings process disk (next value) expected) :
    Gives surroundings process disk (program >>= next) expected := by
  apply first.ensures
  · rintro _ ⟨⟩
    exact rest
  · rintro error (hostFailed | impossible)
    · exact ⟨rfl, Or.inl hostFailed⟩
    · cases impossible

theorem Gives.of_run
    {program : StoreProgram α} {expected result : Except ConfigError α}
    {after : Disk}
    (gives : Gives surroundings process disk program expected)
    (runs : Runs (flat surroundings process) program.run disk result after)
    (granted : ¬ HostFails result) :
    after = disk ∧ result = expected := by
  have outcome := Ensures.of_run gives runs
  exact ⟨outcome.1, outcome.2.resolve_left granted⟩

theorem Harmless.bind
    {program : StoreProgram α} {next : α → StoreProgram β}
    (first : Harmless surroundings process disk program)
    (rest : ∀ value, Harmless surroundings process disk (next value)) :
    Harmless surroundings process disk (program >>= next) := by
  apply Ensures.run_bind first
  · rintro value after rfl
    exact rest value
  · intro error after outcome
    exact outcome

theorem Harmless.gives
    {program : StoreProgram Unit}
    (harmless : Harmless surroundings process disk program) :
    Gives surroundings process disk program (.ok ()) := by
  apply harmless.mono
  intro result after outcome
  cases result with
  | error error => exact ⟨outcome.1, Or.inl outcome.2⟩
  | ok value => exact ⟨outcome, Or.inr rfl⟩

/-! ## The containment check -/

theorem harmless_canonical (path : Path) :
    Harmless surroundings process disk (canonical path) := by
  rw [Harmless, canonical, ensures_invoke_bind]
  rintro answer after rfl
  cases answer with
  | ok resolved => rfl
  | error error =>
      simp only
      split_ifs
      · rfl
      · exact ⟨rfl, trivial⟩

theorem harmless_isSymlink (path : Path) :
    Harmless surroundings process disk (isSymlink path) := by
  rw [Harmless, isSymlink, ensures_invoke_bind]
  rintro answer after rfl
  cases answer with
  | ok fileType => rfl
  | error error =>
      simp only
      split_ifs
      · rfl
      · exact ⟨rfl, trivial⟩

theorem harmless_refuseOutside (root path looked : Path) :
    Harmless surroundings process disk (refuseOutside root path looked) := by
  apply (harmless_canonical looked).bind
  intro found
  cases found with
  | none => rfl
  | some resolved =>
      simp only
      split_ifs
      · rfl
      · exact ⟨rfl, trivial⟩

theorem harmless_refuseEscapingPath (store : FileConfigStore) (path : Path) :
    Harmless surroundings process disk (store.refuseEscapingPath path) := by
  apply (harmless_canonical _).bind
  intro root
  cases root with
  | none => rfl
  | some root =>
      have parentChecked :
          Harmless surroundings process disk (refuseParent root path) := by
        rw [refuseParent]
        cases path.parent with
        | none => rfl
        | some parent => exact harmless_refuseOutside root path parent
      apply parentChecked.bind
      intro _
      apply (harmless_isSymlink path).bind
      intro link
      cases link with
      | false => rfl
      | true => exact harmless_refuseOutside root path path

/-! ## Reading -/

/-- A file which is absent or holds this text. -/
def Stores (disk : Disk) (path : Path) (existing : Option Text) : Prop :=
  disk.file path = existing.map encode

variable {path : Path} {existing : Option Text}

theorem gives_readExisting (stores : Stores disk path existing) :
    Gives surroundings process disk (readExisting path) (.ok existing) := by
  rw [Stores] at stores
  rw [Gives, readExisting, ensures_run_bind, ensures_run_lift,
    ensures_readToString]
  rintro answer after ⟨rfl, answered⟩
  cases answer with
  | ok bytes =>
      simp only at answered
      rw [answered] at stores
      cases existing with
      | none => cases stores
      | some content =>
          have equal : bytes = encode content := Option.some.inj stores
          subst equal
          simp [textOf]
  | error error =>
      by_cases absent : error.kind = .notFound
      · have none_ : existing = none := by
          rw [answered absent] at stores
          cases existing with
          | none => rfl
          | some content => cases stores
        simp [textOf, absent, none_]
      · simp [textOf, absent, ioError, HostFails, HostError]

/-- The content of a file with its parts. -/
def splitFound (path : Path) (existing : Option Text) :
    Except ConfigError (Option (Text × Split)) :=
  match existing with
  | none => .ok none
  | some content =>
      match split content with
      | .ok parts => .ok (some (content, parts))
      | .error detail => .error (malformed path detail)

theorem gives_readAndSplit (stores : Stores disk path existing) :
    Gives surroundings process disk (readAndSplit path)
      (splitFound path existing) := by
  apply (gives_readExisting stores).next
  cases existing with
  | none => exact Gives.pure none
  | some content =>
      simp only [splitFound]
      cases split content with
      | ok parts => exact Gives.pure _
      | error detail => exact Gives.throw _

/-- The injected body of a file. -/
def fragmentOf (saphyr : Saphyr) (path : Path) (existing : Option Text) :
    Except ConfigError (Option Text) := do
  match ← splitFound path existing with
  | none => return none
  | some (content, parts) => return some (fragmentBody saphyr content parts)

theorem fragmentOf_some
    (saphyr : Saphyr) (path : Path) (content : Text) :
    fragmentOf saphyr path (some content) =
      match split content with
      | .ok parts => .ok (some (fragmentBody saphyr content parts))
      | .error detail => .error (malformed path detail) := by
  rw [fragmentOf, splitFound]
  cases split content <;> rfl

theorem gives_readFragmentBody
    (store : FileConfigStore) (saphyr : Saphyr)
    (stores : Stores disk path existing) :
    Gives surroundings process disk (store.readFragmentBody saphyr path)
      (fragmentOf saphyr path existing) := by
  apply (harmless_refuseEscapingPath store path).gives.next
  apply (gives_readAndSplit stores).bind
  intro found
  cases found with
  | none => exact Gives.pure none
  | some pair => exact Gives.pure _

/-- The document of a level's file. -/
def documentOf (saphyr : Saphyr) (path : Path) (existing : Option Text) :
    Except ConfigError (Option Node) := do
  match ← splitFound path existing with
  | none => return none
  | some (_, parts) =>
      match parseFrontmatter saphyr parts.frontmatter with
      | .ok node => return some node
      | .error detail => throw (malformed path detail)

theorem documentOf_parses
    {saphyr : Saphyr} {content : Text} {parts : Split} {node : Node}
    (path : Path) (parses : Parses saphyr content parts node) :
    documentOf saphyr path (some content) = .ok (some node) := by
  rw [documentOf, splitFound, parses.1]
  show (match parseFrontmatter saphyr parts.frontmatter with
    | .ok node => pure (some node)
    | .error detail => throw (malformed path detail) :
      Except ConfigError (Option Node)) = _
  rw [parses.2]
  rfl

theorem documentOf_malformed
    {saphyr : Saphyr} {content detail : Text} {parts : Split}
    (path : Path) (divided : split content = .ok parts)
    (parsed : parseFrontmatter saphyr parts.frontmatter = .error detail) :
    documentOf saphyr path (some content) =
      .error (malformed path detail) := by
  rw [documentOf, splitFound, divided]
  show (match parseFrontmatter saphyr parts.frontmatter with
    | .ok node => pure (some node)
    | .error detail => throw (malformed path detail) :
      Except ConfigError (Option Node)) = _
  rw [parsed]
  rfl

theorem gives_read
    (store : FileConfigStore) (saphyr : Saphyr) (level : Level)
    (stores : Stores disk (store.configPath level) existing) :
    Gives surroundings process disk (store.read saphyr level)
      (documentOf saphyr (store.configPath level) existing) := by
  apply (harmless_refuseEscapingPath store _).gives.next
  apply (gives_readAndSplit stores).bind
  intro found
  cases found with
  | none => exact Gives.pure none
  | some pair =>
      rcases pair with ⟨content, parts⟩
      simp only
      cases parseFrontmatter saphyr parts.frontmatter with
      | ok node => exact Gives.pure _
      | error detail => exact Gives.throw _

/-! ## Writing -/

/-- A failed step removes the scratch file at most. -/
theorem ensures_discard
    {temp target : Path} (different : target ≠ temp) (error : ConfigError)
    (content : Option Bytes) {state : Disk}
    (kept : state.file target = content) :
    Ensures (flat surroundings process)
      (discard temp error : StoreProgram Unit).run
      (onOk (fun _ _ => False) fun _ after => after.file target = content)
      state := by
  rw [FileConfigStore.discard, ensures_invoke_bind]
  intro answer after step
  cases answer with
  | ok _ =>
      rcases step with ⟨_, rfl⟩
      exact (state.remove_file_of_ne different).trans kept
  | error _ =>
      rcases step with ⟨rfl, _⟩
      exact kept

/-- The target is replaced by the whole contents, or kept as it was. -/
theorem ensures_replaceBy
    {temp target : Path} (different : target ≠ temp) (contents : Text) :
    Ensures (flat surroundings process)
      (replaceBy target contents temp).run
      (onOk (fun _ after => after.file target = some (encode contents))
        fun _ after => after.file target = disk.file target)
      disk := by
  rw [replaceBy, ensures_run_bind, ensures_run_lift]
  apply (ensures_writeFile_flat surroundings process disk _).mono
  intro written middle outcome
  have kept := outcome.1 target different
  cases written with
  | error error =>
      apply (ensures_discard different _ _ kept).mono
      intro result after holds
      cases result with
      | ok _ => exact holds.elim
      | error _ => exact holds
  | ok _ =>
      have whole := outcome.2 rfl
      simp only [onOk_ok]
      rw [ensures_invoke_bind]
      intro answer after step
      cases answer with
      | ok _ =>
          rcases step with ⟨bytes, present, rfl⟩
          rw [whole] at present
          cases present
          exact middle.move_file_target _ _
      | error error =>
          cases step
          apply (ensures_discard different _ _ kept).mono
          intro result after holds
          cases result with
          | ok _ => exact holds.elim
          | error _ => exact holds

theorem ensures_atomicWrite
    (store : FileConfigStore) (level : Level) (contents : Text) :
    Ensures (flat surroundings process)
      (store.atomicWrite (store.configPath level) contents).run
      (onOk
        (fun _ after =>
          after.file (store.configPath level) = some (encode contents))
        fun _ after =>
          after.file (store.configPath level) =
            disk.file (store.configPath level))
      disk := by
  rw [atomicWrite, ensures_run_bind, ensures_run_lift]
  have scaffolded :
      Ensures (flat surroundings process) (createDirAll store.tempDir)
        (fun _ after => after = disk) disk := by
    apply (asks_createDirAll store.tempDir).ensures
    · rintro call before answer after scaffolds step rfl
      exact flat_scaffolds scaffolds step
    · rfl
  apply scaffolded.mono
  rintro created after rfl
  cases created with
  | error error => rfl
  | ok _ =>
      simp only [onOk_ok]
      rw [ensures_invoke_bind]
      rintro own after' ⟨rfl, _⟩
      rw [ensures_invoke_bind]
      rintro count after'' ⟨_, rfl⟩
      exact ensures_replaceBy
        (store.tempPath_ne_configPath own count level).symm contents

/-- A write leaves the rendering, or the file as it was. -/
theorem ensures_write
    (store : FileConfigStore) (saphyr : Saphyr) (level : Level)
    (document : Node)
    (stores : Stores disk (store.configPath level) existing) :
    Ensures (flat surroundings process)
      (store.write saphyr level document).run
      (onOk
        (fun _ after => ∃ rendered,
          render saphyr existing document = .ok rendered ∧
            Stores after (store.configPath level) (some rendered))
        fun _ after => Stores after (store.configPath level) existing)
      disk := by
  apply (harmless_refuseEscapingPath store _).gives.ensures
  · intro _ _
    apply (gives_readExisting stores).ensures
    · rintro found ⟨⟩
      cases rendering : render saphyr existing document with
      | error detail => exact stores
      | ok rendered =>
          apply (ensures_atomicWrite store level rendered).mono
          intro result last outcome
          cases result with
          | ok _ => exact ⟨rendered, rfl, outcome⟩
          | error _ => exact outcome.trans stores
    · intro error _
      exact stores
  · intro error _
    exact stores

/-! ## Runs in which nothing fails -/

variable (surroundings process)

theorem faultless_refuseEscapingPath (store : FileConfigStore) (path : Path) :
    (store.refuseEscapingPath path).run.execute
        (faultless surroundings process) disk = (.ok (), disk) := rfl

theorem faultless_readExisting (stores : Stores disk path existing) :
    (readExisting path).run.execute (faultless surroundings process) disk =
      (.ok existing, disk) := by
  rw [Stores] at stores
  have answered :
      (ExceptT.lift (readToString path) :
          StoreProgram (Except IoError Text)).run.execute
          (faultless surroundings process) disk =
        (.ok (textOf (found (existing.map encode))), disk) := by
    have read := faultless_readToString surroundings process path disk
    rw [stores] at read
    rw [execute_run_lift]
    exact congrArg (fun run => (Except.ok run.1, run.2)) read
  rw [readExisting, execute_run_bind_ok answered]
  cases existing with
  | none => rfl
  | some content =>
      simp only [found, textOf, Option.map_some, decode_encode]
      rfl

theorem faultless_readFragmentBody
    (store : FileConfigStore) (saphyr : Saphyr)
    (stores : Stores disk path existing) :
    (store.readFragmentBody saphyr path).run.execute
        (faultless surroundings process) disk =
      (fragmentOf saphyr path existing, disk) := by
  have found := faultless_readExisting surroundings process stores
  rw [readFragmentBody,
    execute_run_bind_ok
      (faultless_refuseEscapingPath surroundings process store path)]
  rw [readAndSplit, bind_assoc, execute_run_bind_ok found]
  cases existing with
  | none => rfl
  | some content =>
      rw [fragmentOf_some]
      simp only
      cases split content with
      | ok parts => rfl
      | error detail => rfl

theorem faultless_read
    (store : FileConfigStore) (saphyr : Saphyr) (level : Level)
    (stores : Stores disk (store.configPath level) existing) :
    (store.read saphyr level).run.execute
        (faultless surroundings process) disk =
      (documentOf saphyr (store.configPath level) existing, disk) := by
  have found := faultless_readExisting surroundings process stores
  rw [FileConfigStore.read,
    execute_run_bind_ok
      (faultless_refuseEscapingPath surroundings process store _)]
  rw [readAndSplit, bind_assoc, execute_run_bind_ok found]
  cases existing with
  | none => rfl
  | some content =>
      rw [documentOf, splitFound]
      simp only
      cases split content with
      | error detail => rfl
      | ok parts =>
          show (ExceptT.run (
            match parseFrontmatter saphyr parts.frontmatter with
            | .ok node => pure (some node)
            | .error detail => throw (malformed _ detail) :
              StoreProgram (Option Node))).execute _ disk =
            (match parseFrontmatter saphyr parts.frontmatter with
              | .ok node => pure (some node)
              | .error detail => throw (malformed _ detail), disk)
          cases parseFrontmatter saphyr parts.frontmatter <;> rfl

theorem faultless_replaceBy (target temp : Path) (contents : Text) :
    ((replaceBy target contents temp).run.execute
      (faultless surroundings process) disk).1 = .ok () := by
  let handler := faultless surroundings process
  have written :=
    faultless_writeFile surroundings process temp (encode contents) disk
  have outcome :=
    (ensures_writeFile_flat surroundings process disk _).of_run
      (runs_execute (faultless_admissible surroundings process)
        (writeFile temp (encode contents)) disk)
  have whole := outcome.2 written
  generalize after_eq :
    (writeFile temp (encode contents)).execute handler disk = after
    at written whole
  rcases after with ⟨result, after⟩
  simp only at written whole
  subst written
  have lifted :
      (ExceptT.lift (writeFile temp (encode contents)) :
          StoreProgram (Except IoError Unit)).run.execute handler disk =
        (.ok (.ok ()), after) := by
    rw [execute_run_lift, after_eq]
  rw [replaceBy, execute_run_bind_ok lifted]
  have renamed :
      (invoke (.rename temp target) :
          StoreProgram (Except IoError Unit)).run.execute handler after =
        (.ok (.ok ()), after.move temp target (encode contents)) := by
    show (Except.ok (handler (.rename temp target) after).1,
      (handler (.rename temp target) after).2) = _
    simp [handler, faultless, whole]
  simp only
  rw [execute_run_bind_ok renamed]
  rfl

/-- A document which renders is written when nothing fails. -/
theorem faultless_write
    (store : FileConfigStore) (saphyr : Saphyr) (level : Level)
    {document : Node} {rendered : Text}
    (stores : Stores disk (store.configPath level) existing)
    (rendering : render saphyr existing document = .ok rendered) :
    ((store.write saphyr level document).run.execute
      (faultless surroundings process) disk).1 = .ok () := by
  have found := faultless_readExisting surroundings process stores
  have scaffolded :
      (ExceptT.lift (createDirAll store.tempDir) :
          StoreProgram (Except IoError Unit)).run.execute
          (faultless surroundings process) disk = (.ok (.ok ()), disk) := by
    rw [execute_run_lift, faultless_createDirAll]
  rw [FileConfigStore.write,
    execute_run_bind_ok
      (faultless_refuseEscapingPath surroundings process store _),
    execute_run_bind_ok found]
  simp only [rendering]
  rw [atomicWrite, execute_run_bind_ok scaffolded]
  exact faultless_replaceBy surroundings process _ _ rendered

/-- What `readFragmentBody` yields when nothing fails. -/
theorem runs_readFragmentBody
    (store : FileConfigStore) (saphyr : Saphyr)
    (stores : Stores disk path existing) :
    Runs (flat surroundings process)
      (store.readFragmentBody saphyr path).run disk
      (fragmentOf saphyr path existing) disk := by
  have runs :=
    runs_execute (faultless_admissible surroundings process)
      (store.readFragmentBody saphyr path).run disk
  rwa [faultless_readFragmentBody surroundings process store saphyr
    stores] at runs

end Specifications

end Luminosity.Adapters.StoreDocuments
