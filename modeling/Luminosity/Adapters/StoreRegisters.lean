import Luminosity.Adapters.StoreCalls
import Luminosity.Adapters.StoreProse
import Luminosity.Config.ServiceRuns

/-!
# Registers behind the files

The service over a store which remembers documents is a family of registers,
one for each level and key.  The service over files is one as well, whatever
the files hold at first and whichever calls of the host fail on the way: a
`set` which succeeds writes one register, one which fails writes none, and the
file of the other level is left alone in any case.

A call on files is refused, and then changes nothing, or does what the call
does on the remembered documents: the files refine the remembering store.
-/

namespace Luminosity.Adapters.StoreRegisters

open Luminosity.Foundation.TextSegments
open Luminosity.Foundation.EffectPrograms
open Luminosity.Foundation.LastWrite
open Luminosity.Host.Paths
open Luminosity.Host.Calls
open Luminosity.Host.FlatDisk
open Luminosity.Config.Domain
open Luminosity.Config.Service
open Luminosity.Config.ServiceRuns
open Luminosity.Adapters.Document
open Luminosity.Adapters.Store
open Luminosity.Adapters.Store.FileConfigStore
open Luminosity.Adapters.StoreCalls
open Luminosity.Adapters.StoreDocuments
open Luminosity.Adapters.StoreProse

/-! ## What the files answer -/

/-- What the files of the levels hold. -/
abbrev LevelTexts := Level → Option Text

section Answers

variable (saphyr : Saphyr) (store : FileConfigStore)

def Holds (disk : Disk) (texts : LevelTexts) : Prop :=
  ∀ level, Stores disk (store.configPath level) (texts level)

/-- What a key resolves to at a level, or why the level cannot be read. -/
def answers (texts : LevelTexts) (register : Level × Key) :
    Except ConfigError Resolved :=
  (documentOf saphyr (store.configPath register.1)
    (texts register.1)).map fun document => resolve document register.2

/-- What a full-stack read prefers. -/
def prefer : Resolved → Resolved → Resolved
  | .found scalar, _ => .found scalar
  | .absent, team => team

/-- What a read of the registers answers. -/
def answer (registers : Level × Key → Except ConfigError Resolved)
    (key : Key) : Option Level → Except ConfigError Resolved
  | some level => registers (level, key)
  | none => do
      let personal ← registers (.personal, key)
      let team ← registers (.team, key)
      return prefer personal team

end Answers

variable {saphyr : Saphyr} {store : FileConfigStore}
variable {surroundings : Surroundings} {process : UInt32}
variable {disk : Disk} {texts : LevelTexts}

/-- A read answers by the registers, unless the host fails. -/
theorem gives_get (holds : Holds store disk texts) (key : Key)
    (level : Option Level) :
    Gives surroundings process disk ((store.service saphyr).get key level)
      (answer (answers saphyr store texts) key level) := by
  have read (at_ : Level) :
      Gives surroundings process disk (store.read saphyr at_)
        (documentOf saphyr (store.configPath at_) (texts at_)) :=
    gives_read store saphyr at_ (holds at_)
  cases level with
  | some level =>
      apply (read level).ensures
      · intro document found
        rw [answer, answers, found]
        exact ⟨rfl, Or.inr rfl⟩
      · rintro error (hostFailed | found)
        · exact ⟨rfl, Or.inl hostFailed⟩
        · rw [answer, answers, found]
          exact ⟨rfl, Or.inr rfl⟩
  | none =>
      apply (read .personal).ensures
      · intro personal foundPersonal
        apply (read .team).ensures
        · intro team foundTeam
          rw [answer, answers, answers, foundPersonal, foundTeam]
          cases resolved : resolve personal key with
          | found scalar =>
              refine ⟨rfl, Or.inr ?_⟩
              show _ = Except.ok (prefer (resolve personal key) _)
              rw [resolved]
              rfl
          | absent =>
              refine ⟨rfl, Or.inr ?_⟩
              show _ = Except.ok (prefer (resolve personal key) _)
              rw [resolved]
              rfl
        · rintro error (hostFailed | found)
          · exact ⟨rfl, Or.inl hostFailed⟩
          · rw [answer, answers, answers, foundPersonal, found]
            exact ⟨rfl, Or.inr rfl⟩
      · rintro error (hostFailed | found)
        · exact ⟨rfl, Or.inl hostFailed⟩
        · rw [answer, answers, found]
          exact ⟨rfl, Or.inr rfl⟩

/-! ## The file of the other level -/

/-- The call leaves the file at the path alone. -/
def Avoids (path : Path) (call : Call) : Prop :=
  ¬ Touches path call ∧ ∀ source, call ≠ .rename source path

theorem avoids_of_scaffolds {path : Path} {call : Call}
    (scaffolds : call.Scaffolds) : Avoids path call := by
  cases call with
  | createDir other => exact ⟨id, fun _ => nofun⟩
  | isDir other => exact ⟨id, fun _ => nofun⟩
  | _ => exact scaffolds.elim

theorem avoids_of_looks {path : Path} {call : Call} (looks : Looks call) :
    Avoids path call := by
  cases call with
  | canonicalize other => exact ⟨id, fun _ => nofun⟩
  | symlinkMetadata other => exact ⟨id, fun _ => nofun⟩
  | isDir other => exact ⟨id, fun _ => nofun⟩
  | pathExists other => exact ⟨id, fun _ => nofun⟩
  | read other => exact ⟨id, fun _ => nofun⟩
  | processId => exact ⟨id, fun _ => nofun⟩
  | _ => exact looks.elim

theorem configPath_injective {level other : Level}
    (same : store.configPath level = store.configPath other) :
    level = other := by
  rw [configPath_eq, configPath_eq] at same
  have names := (child_injective same).2
  cases level <;> cases other <;> first | rfl | exact absurd names (by decide)

/-- Writing a level avoids the file of every other one. -/
theorem avoids_allowsWrite {level other : Level} (different : other ≠ level) :
    AllowsWrite store level (Avoids (store.configPath other)) where
  looks _ := avoids_of_looks
  makes _ makes := avoids_of_scaffolds makes.scaffolds
  counts := ⟨id, fun _ => nofun⟩
  creates process count :=
    ⟨store.tempPath_ne_configPath process count other, fun _ => nofun⟩
  appends process count _ :=
    ⟨store.tempPath_ne_configPath process count other, fun _ => nofun⟩
  removes process count :=
    ⟨store.tempPath_ne_configPath process count other, fun _ => nofun⟩
  renames process count := by
    refine ⟨store.tempPath_ne_configPath process count other, ?_⟩
    intro source same
    exact different (configPath_injective (Call.rename.inj same).2).symm

theorem ensures_avoids {α : Type} {program : HostProgram α} {path : Path}
    (avoids : Asks (Avoids path) program) :
    Ensures (flat surroundings process) program
      (fun _ after => after.file path = disk.file path) disk := by
  apply avoids.ensures
  · intro call before answer after allowed step kept
    rw [flat_keeps step allowed.1 allowed.2, kept]
  · rfl

/-! ## One call -/

/-- The rendering of a level after a key was set in it. -/
def Sets (saphyr : Saphyr) (path : Path) (existing : Option Text)
    (key : Key) (value rendered : Text) : Prop :=
  ∃ document root,
    documentOf saphyr path existing = .ok document ∧
      Config.Service.insert (rootMapping document) key.segments value key =
          .ok root ∧
        render saphyr existing (.mapping root) = .ok rendered

/-- A `set` leaves its rendering, or the file of the level as it was. -/
theorem ensures_set_level {level : Level} {existing : Option Text}
    (stores : Stores disk (store.configPath level) existing)
    (key : Key) (value : Text) :
    Ensures (flat surroundings process)
      ((store.service saphyr).set key value level).run
      (onOk
        (fun _ after => ∃ rendered,
          Sets saphyr (store.configPath level) existing key value rendered ∧
            Stores after (store.configPath level) (some rendered))
        fun _ after => Stores after (store.configPath level) existing)
      disk := by
  apply (gives_read store saphyr level stores).ensures
  · intro document found
    rw [ensures_run_bind, ensures_run_except]
    cases inserted :
        Config.Service.insert (rootMapping document) key.segments value key with
    | error error => exact stores
    | ok root =>
        apply (ensures_write store saphyr level (.mapping root) stores).mono
        intro result after outcome
        cases result with
        | error error => exact outcome
        | ok _ =>
            rcases outcome with ⟨rendered, rendering, kept⟩
            exact ⟨rendered, ⟨document, root, found, inserted, rendering⟩,
              kept⟩
  · intro error _
    exact stores

/-- A rendering reads back as the mapping it was made of. -/
theorem documentOf_rendered (lawful : saphyr.Lawful) {path : Path}
    {existing : Option Text} {root : Mapping} {rendered : Text}
    (rendering : render saphyr existing (.mapping root) = .ok rendered) :
    documentOf saphyr path (some rendered) = .ok (some (.mapping root)) := by
  rcases render_ok.mp rendering with ⟨yaml, body, emitted, _, rfl⟩
  exact documentOf_parses path (lawful.parses_rendered emitted body)

/-- The register which a `set` call writes, with its value. -/
def fileWrite (call : SetCall) :
    (Level × Key) × Except ConfigError Resolved :=
  ((call.level, call.key), .ok (.found (.string call.value)))

/-- What a call writes, by its outcome. -/
def effect (call : SetCall) (outcome : Except ConfigError Unit) :
    List ((Level × Key) × Except ConfigError Resolved) :=
  if outcome.isOk then [fileWrite call] else []

/-- A rendering with a key set changes exactly the register of the key. -/
theorem answers_sets (lawful : saphyr.Lawful) {call : SetCall}
    {rendered : Text}
    (sets : Sets saphyr (store.configPath call.level) (texts call.level)
      call.key call.value rendered) :
    answers saphyr store
        (Function.update texts call.level (some rendered)) =
      Function.update (answers saphyr store texts)
        (call.level, call.key) (.ok (.found (.string call.value))) := by
  rcases sets with ⟨document, root, found, inserted, rendering⟩
  funext register
  rcases register with ⟨level, key⟩
  by_cases sameLevel : level = call.level
  · subst sameLevel
    have now :
        answers saphyr store
            (Function.update texts call.level (some rendered))
            (call.level, key) =
          .ok (resolve (some (.mapping root)) key) := by
      rw [answers, Function.update_self, documentOf_rendered lawful rendering]
      rfl
    rw [now]
    by_cases sameKey : key = call.key
    · subst sameKey
      rw [Function.update_self]
      exact congrArg Except.ok
        (descend_insert_self call.key.nonempty inserted)
    · have differentSegments : key.segments ≠ call.key.segments :=
        fun equal => sameKey (Key.ext_segments equal)
      rw [Function.update_of_ne (by simp [sameKey]), answers, found]
      apply congrArg Except.ok
      calc
        resolve (some (.mapping root)) key =
            resolve (some (.mapping (rootMapping document))) key :=
          descend_insert_of_ne differentSegments inserted
        _ = resolve document key := resolve_rootMapping document key
  · rw [Function.update_of_ne (by simp [sameLevel]), answers,
      Function.update_of_ne sameLevel]
    rfl

def perform (saphyr : Saphyr) (store : FileConfigStore) (call : SetCall) :
    HostProgram (Except ConfigError Unit) :=
  ((store.service saphyr).set call.key call.value call.level).run

/-- The texts after a call with this outcome. -/
def Leaves (saphyr : Saphyr) (store : FileConfigStore) (texts : LevelTexts)
    (call : SetCall) (outcome : Except ConfigError Unit)
    (later : LevelTexts) : Prop :=
  onOk
    (fun _ later => ∃ rendered,
      Sets saphyr (store.configPath call.level) (texts call.level) call.key
          call.value rendered ∧
        later = Function.update texts call.level (some rendered))
    (fun _ later => later = texts) outcome later

/-- One call replaces the file of its level, or leaves both files alone. -/
theorem ensures_perform_texts (holds : Holds store disk texts)
    (call : SetCall) :
    Ensures (flat surroundings process) (perform saphyr store call)
      (fun outcome after => ∃ later, Holds store after later ∧
        Leaves saphyr store texts call outcome later)
      disk := by
  have others :
      Ensures (flat surroundings process) (perform saphyr store call)
        (fun _ after => ∀ other, other ≠ call.level →
          after.file (store.configPath other) =
            disk.file (store.configPath other))
        disk := by
    rw [ensures_iff_runs]
    intro outcome after runs other different
    have avoided :
        Ensures (flat surroundings process) (perform saphyr store call)
          (fun _ after =>
            after.file (store.configPath other) =
              disk.file (store.configPath other))
          disk :=
      ensures_avoids
        (asks_set store saphyr (avoids_allowsWrite different) call.key
          call.value)
    exact avoided.of_run runs
  have kept (after : Disk) (content : Option Text)
      (own : Stores after (store.configPath call.level) content)
      (rest : ∀ other, other ≠ call.level →
        after.file (store.configPath other) =
          disk.file (store.configPath other)) :
      Holds store after (Function.update texts call.level content) := by
    intro level
    by_cases same : level = call.level
    · subst same
      rw [Function.update_self]
      exact own
    · rw [Function.update_of_ne same, Stores, rest level same]
      exact holds level
  apply ((ensures_set_level (holds call.level) call.key call.value).and
    others).mono
  rintro outcome after ⟨own, rest⟩
  cases outcome with
  | ok _ =>
      rcases own with ⟨rendered, sets, stores⟩
      exact ⟨_, kept after _ stores rest, rendered, sets, rfl⟩
  | error error =>
      refine ⟨texts, ?_, rfl⟩
      have same := kept after _ own rest
      rwa [Function.update_eq_self] at same

/-- Such a call writes its register, or none. -/
theorem Leaves.answers (lawful : saphyr.Lawful) {call : SetCall}
    {outcome : Except ConfigError Unit} {later : LevelTexts}
    (leaves : Leaves saphyr store texts call outcome later) :
    StoreRegisters.answers saphyr store later =
      applyWrites (effect call outcome)
        (StoreRegisters.answers saphyr store texts) := by
  cases outcome with
  | ok _ =>
      rcases leaves with ⟨rendered, sets, rfl⟩
      rw [answers_sets lawful sets]
      rfl
  | error error =>
      cases leaves
      rfl

/-- A level at which it did not succeed is left alone. -/
theorem Leaves.untouched {call : SetCall}
    {outcome : Except ConfigError Unit} {later : LevelTexts}
    (leaves : Leaves saphyr store texts call outcome later) {level : Level}
    (failed : call.level = level → outcome.isOk = false) :
    later level = texts level := by
  cases outcome with
  | ok _ =>
      rcases leaves with ⟨rendered, _, rfl⟩
      apply Function.update_of_ne
      rintro rfl
      exact absurd (failed rfl) nofun
  | error error =>
      cases leaves
      rfl

/-! ## Runs of calls -/

/-- Perform calls one after the other, whatever comes of them. -/
def performAll (saphyr : Saphyr) (store : FileConfigStore) :
    List SetCall → HostProgram (List (Except ConfigError Unit))
  | [] => return []
  | call :: calls => do
      let outcome ← perform saphyr store call
      let outcomes ← performAll saphyr store calls
      return outcome :: outcomes

/-- The writes of calls with these outcomes, oldest first. -/
def effects (calls : List SetCall)
    (outcomes : List (Except ConfigError Unit)) :
    List ((Level × Key) × Except ConfigError Resolved) :=
  ((calls.zip outcomes).filter fun pair => pair.2.isOk).map
    fun pair => fileWrite pair.1

theorem effects_cons (call : SetCall) (calls : List SetCall)
    (outcome : Except ConfigError Unit)
    (outcomes : List (Except ConfigError Unit)) :
    effects (call :: calls) (outcome :: outcomes) =
      effect call outcome ++ effects calls outcomes := by
  cases outcome with
  | ok _ => rfl
  | error error => rfl

/-- No call with these outcomes succeeded at the level. -/
def Untouched (calls : List SetCall)
    (outcomes : List (Except ConfigError Unit)) (level : Level) : Prop :=
  ∀ pair ∈ calls.zip outcomes, pair.1.level = level → pair.2.isOk = false

theorem ensures_performAll (lawful : saphyr.Lawful)
    (calls : List SetCall) (holds : Holds store disk texts) :
    Ensures (flat surroundings process) (performAll saphyr store calls)
      (fun outcomes after => ∃ later, Holds store after later ∧
        answers saphyr store later =
            applyWrites (effects calls outcomes)
              (answers saphyr store texts) ∧
          ∀ level, Untouched calls outcomes level →
            later level = texts level)
      disk := by
  induction calls generalizing disk texts with
  | nil => exact ⟨texts, holds, rfl, fun _ _ => rfl⟩
  | cons call calls induction =>
      rw [performAll, ensures_bind]
      apply (ensures_perform_texts holds call).mono
      rintro outcome middle ⟨between, now, leaves⟩
      rw [ensures_bind]
      apply (induction now).mono
      rintro outcomes after ⟨later, last, rest, stays⟩
      refine ⟨later, last, ?_, ?_⟩
      · rw [rest, leaves.answers lawful, effects_cons, applyWrites,
          applyWrites, applyWrites, List.foldl_append]
      · intro level untouched
        rw [stays level, leaves.untouched]
        · exact untouched (call, outcome) List.mem_cons_self
        · intro pair member
          exact untouched pair (List.mem_cons_of_mem _ member)

/-- The last write of a register is the last call which succeeded on it. -/
theorem lastWrite_effects (calls : List SetCall)
    (outcomes : List (Except ConfigError Unit)) (level : Level)
    (key : Key) :
    lastWrite (effects calls outcomes) (level, key) =
      (lastSuccessful calls outcomes key level).map fun value =>
        .ok (.found (.string value)) := by
  have sameTest :
      (fun pair : SetCall × Except ConfigError Unit =>
          decide ((fileWrite pair.1).1 = (level, key)) && pair.2.isOk) =
        fun pair =>
          decide (pair.1.key = key) && decide (pair.1.level = level) &&
            pair.2.isOk := by
    funext pair
    rcases pair with ⟨call, outcome⟩
    by_cases sameKey : call.key = key
    · by_cases sameLevel : call.level = level
      · simp [fileWrite, sameKey, sameLevel]
      · simp [fileWrite, sameKey, sameLevel]
    · simp [fileWrite, sameKey]
  rw [lastWrite, effects, List.filter_map, List.filter_filter,
    List.getLast?_map, lastSuccessful]
  simp only [Function.comp_def] at sameTest ⊢
  rw [sameTest]
  simp [fileWrite, Function.comp_def]

/-- What a register holds after calls with these outcomes. -/
def afterCalls (saphyr : Saphyr) (store : FileConfigStore)
    (texts : LevelTexts) (calls : List SetCall)
    (outcomes : List (Except ConfigError Unit)) (register : Level × Key) :
    Except ConfigError Resolved :=
  ((lastSuccessful calls outcomes register.2 register.1).map fun value =>
    .ok (.found (.string value))).getD (answers saphyr store texts register)

/-! ### A file set once -/

/-- What the files of the small disk hold. -/
def smallTexts : LevelTexts
  | .team => some fencedSample
  | .personal => none

theorem smallDisk_holds :
    Holds smallStore (smallDisk fencedSample) smallTexts := by
  intro level
  cases level with
  | team => exact smallDisk_stores fencedSample
  | personal => rfl

/-- The call which sets the key of the small mapping. -/
def smallCall : SetCall :=
  { key := smallKey
    value := ['v']
    level := .team }

theorem exists_runs_smallCall :
    ∃ after,
      Runs (flat quiet 0) (performAll smallSaphyr smallStore [smallCall])
        (smallDisk fencedSample) [.ok ()] after := by
  have found :
      documentOf smallSaphyr (smallStore.configPath .team)
        (some fencedSample) = .ok (some (.mapping smallMapping)) := rfl
  have inserted :
      Config.Service.insert (rootMapping (some (.mapping smallMapping)))
        smallKey.segments ['v'] smallKey = .ok smallMapping := rfl
  have rendering :
      render smallSaphyr (some fencedSample) (.mapping smallMapping) =
        .ok fencedSample := rfl
  rcases exists_runs_set quiet 0 (smallDisk_stores fencedSample) found
      inserted rendering with
    ⟨after, runs⟩
  exact ⟨after, Runs.bind runs (.done _ after)⟩

/-! ### The law of a sequence -/

/--
Over any two files and however the host fails, a read after calls answers with
the last value which was set with success, or with what the files held; and a
level at which no call succeeded holds what it held.
-/
theorem file_sequence_law
    (lawful : saphyr.Lawful) (holds : Holds store disk texts)
    {calls : List SetCall} {outcomes : List (Except ConfigError Unit)}
    {middle after : Disk} {key : Key} {level : Option Level}
    {result : Except ConfigError Resolved}
    (performed : Runs (flat surroundings process)
      (performAll saphyr store calls) disk outcomes middle)
    (read : Runs (flat surroundings process)
      ((store.service saphyr).get key level).run middle result after) :
    after = middle ∧
      (HostFails result ∨
        result =
          answer (afterCalls saphyr store texts calls outcomes) key level) ∧
      ∀ level, Untouched calls outcomes level →
        Stores after (store.configPath level) (texts level) := by
  rcases (ensures_performAll lawful calls holds).of_run performed with
    ⟨later, now, written, kept⟩
  have outcome := Ensures.of_run (gives_get now key level) read
  have registers :
      answers saphyr store later =
        afterCalls saphyr store texts calls outcomes := by
    funext register
    rw [written, applyWrites_apply, lastWrite_effects]
    rfl
  rw [registers] at outcome
  refine ⟨outcome.1, outcome.2, ?_⟩
  intro level untouched
  rw [outcome.1, ← kept level untouched]
  exact now level

theorem file_sequence_law_once :
    ∃ after,
      Runs (flat quiet 0) (performAll smallSaphyr smallStore [smallCall])
          (smallDisk fencedSample) [.ok ()] after ∧
        ∀ result final,
          Runs (flat quiet 0)
            ((smallStore.service smallSaphyr).get smallKey none).run after
            result final →
          HostFails result ∨
            result =
              answer
                (afterCalls smallSaphyr smallStore smallTexts [smallCall]
                  [.ok ()])
                smallKey none := by
  rcases exists_runs_smallCall with ⟨after, performed⟩
  refine ⟨after, performed, ?_⟩
  intro result final read
  exact (file_sequence_law smallSaphyr_lawful smallDisk_holds performed
    read).2.1

/-! ## Refinement -/

/-- The files are those of a store which remembers these documents. -/
def Represents (saphyr : Saphyr) (store : FileConfigStore) (disk : Disk)
    (documents : LevelDocuments) : Prop :=
  ∃ texts, Holds store disk texts ∧ ∀ level,
    documentOf saphyr (store.configPath level) (texts level) =
      .ok (documents level)

/-- An error of the host or of a file, which the core never makes itself. -/
def Refused : Except ConfigError Unit → Prop
  | .error (.io _ _) | .error (.unsafePath _)
  | .error (.malformedFrontmatter _ _) => True
  | _ => False

/-- Calls on remembered documents, some of which are refused. -/
inductive Follows :
    LevelDocuments → List SetCall → List (Except ConfigError Unit) →
      LevelDocuments → Prop where
  | nil (documents : LevelDocuments) : Follows documents [] [] documents
  | refused (refused : Refused outcome)
      (rest : Follows documents calls outcomes final) :
      Follows documents (call :: calls) (outcome :: outcomes) final
  | performed
      (rest : Follows (setAt documents call).2 calls outcomes final) :
      Follows documents (call :: calls)
        ((setAt documents call).1 :: outcomes) final

/-- Calls none of which is refused are those of the service. -/
theorem Follows.accepted {documents final : LevelDocuments}
    {calls : List SetCall} {outcomes : List (Except ConfigError Unit)}
    (follows : Follows documents calls outcomes final)
    (granted : ∀ outcome ∈ outcomes, ¬ Refused outcome) :
    outcomes = (runSets documents calls).1 ∧
      final = (runSets documents calls).2 := by
  induction follows with
  | nil documents => exact ⟨rfl, rfl⟩
  | refused refused _ _ =>
      exact absurd refused (granted _ List.mem_cons_self)
  | performed rest induction =>
      rcases induction fun outcome member =>
          granted outcome (List.mem_cons_of_mem _ member) with
        ⟨same, last⟩
      exact ⟨congrArg _ same, last⟩

/-- What a refusal says is an error of the host or of a file. -/
abbrev Refuses {α : Type} : Except ConfigError α → Disk → Prop :=
  onOk (fun _ _ => True) fun error _ => Refused (.error error)

theorem refused_of_hostError {error : ConfigError}
    (hostError : HostError error) : Refused (.error error) := by
  cases error with
  | io path detail => trivial
  | unsafePath path => trivial
  | _ => exact hostError.elim

theorem ensures_anything {α : Type} (program : HostProgram α) :
    Ensures (flat surroundings process) program (fun _ _ => True) disk :=
  (ensures_iff_runs program _ disk).mpr fun _ _ _ => trivial

theorem refuses_discard {α : Type} (temp path : Path) (error : IoError) :
    Ensures (flat surroundings process)
      (discard temp (ioError path error) : StoreProgram α).run Refuses
      disk := by
  rw [FileConfigStore.discard, ensures_invoke_bind]
  intro _ after _
  trivial

theorem refuses_atomicWrite (target : Path) (contents : Text) :
    Ensures (flat surroundings process)
      (store.atomicWrite target contents).run Refuses disk := by
  rw [atomicWrite, ensures_run_bind, ensures_run_lift]
  apply (ensures_anything (createDirAll store.tempDir)).mono
  intro created after _
  cases created with
  | error error => trivial
  | ok _ =>
      rw [onOk_ok, ensures_invoke_bind]
      intro number after _
      rw [ensures_invoke_bind]
      intro count after _
      rw [replaceBy, ensures_run_bind, ensures_run_lift]
      apply (ensures_anything (writeFile _ (encode contents))).mono
      intro written after _
      cases written with
      | error error => exact refuses_discard _ _ error
      | ok _ =>
          rw [onOk_ok, ensures_invoke_bind]
          intro renamed after _
          cases renamed with
          | error error => exact refuses_discard _ _ error
          | ok _ => trivial

theorem refuses_write {level : Level} {existing : Option Text}
    (stores : Stores disk (store.configPath level) existing)
    (document : Node) :
    Ensures (flat surroundings process)
      (store.write saphyr level document).run Refuses disk := by
  apply (harmless_refuseEscapingPath store _).gives.ensures
  · intro _ _
    apply (gives_readExisting stores).ensures
    · rintro found ⟨⟩
      cases render saphyr existing document with
      | error detail => trivial
      | ok rendered => exact refuses_atomicWrite _ rendered
    · rintro error (hostError | impossible)
      · exact refused_of_hostError hostError
      · cases impossible
  · rintro error (hostError | impossible)
    · exact refused_of_hostError hostError
    · cases impossible

/-- Where the documents can be read, a call fails as the service does. -/
theorem refuses_perform {documents : LevelDocuments}
    (holds : Holds store disk texts) {call : SetCall}
    (read : documentOf saphyr (store.configPath call.level)
      (texts call.level) = .ok (documents call.level)) :
    Ensures (flat surroundings process) (perform saphyr store call)
      (fun outcome _ => outcome.isOk = true ∨ Refused outcome ∨
        outcome = (setAt documents call).1 ∧
          (setAt documents call).2 = documents)
      disk := by
  apply (gives_read store saphyr call.level (holds call.level)).ensures
  · intro document found
    rw [read] at found
    cases found
    rw [ensures_run_bind, ensures_run_except, setAt_eq]
    cases inserted :
        Config.Service.insert (rootMapping (documents call.level))
          call.key.segments call.value call.key with
    | error error => exact Or.inr (Or.inr ⟨rfl, rfl⟩)
    | ok root =>
        apply (refuses_write (holds call.level) (.mapping root)).mono
        intro outcome after refuses
        cases outcome with
        | ok _ => exact Or.inl rfl
        | error error => exact Or.inr (Or.inl refuses)
  · rintro error (hostError | impossible)
    · exact Or.inr (Or.inl (refused_of_hostError hostError))
    · rw [read] at impossible
      cases impossible

/-- One call is refused, or does what the service does. -/
theorem ensures_perform_documents (lawful : saphyr.Lawful)
    {documents : LevelDocuments}
    (represents : Represents saphyr store disk documents)
    (call : SetCall) :
    Ensures (flat surroundings process) (perform saphyr store call)
      (fun outcome after =>
        Refused outcome ∧ Represents saphyr store after documents ∨
          outcome = (setAt documents call).1 ∧
            Represents saphyr store after (setAt documents call).2)
      disk := by
  rcases represents with ⟨texts, holds, read⟩
  apply ((ensures_perform_texts holds call).and
    (refuses_perform holds (read call.level))).mono
  rintro outcome after ⟨⟨later, now, leaves⟩, refuses⟩
  cases outcome with
  | ok _ =>
      rcases leaves with ⟨rendered, ⟨document, root, found, inserted,
        rendering⟩, rfl⟩
      rw [read call.level] at found
      cases found
      have performed :
          setAt documents call =
            (.ok (), Function.update documents call.level
              (some (.mapping root))) := by
        rw [setAt_eq, inserted]
      apply Or.inr
      rw [performed]
      refine ⟨rfl, _, now, ?_⟩
      intro level
      show documentOf saphyr (store.configPath level) _ =
        .ok (Function.update documents call.level (some (.mapping root)) level)
      by_cases same : level = call.level
      · subst same
        rw [Function.update_self, Function.update_self]
        exact documentOf_rendered lawful rendering
      · rw [Function.update_of_ne same, Function.update_of_ne same]
        exact read level
  | error error =>
      cases leaves
      rcases refuses with impossible | refused | ⟨same, kept⟩
      · cases impossible
      · exact Or.inl ⟨refused, texts, now, read⟩
      · apply Or.inr
        rw [kept]
        exact ⟨same, texts, now, read⟩

theorem ensures_follows (lawful : saphyr.Lawful)
    {documents : LevelDocuments} (calls : List SetCall)
    (represents : Represents saphyr store disk documents) :
    Ensures (flat surroundings process) (performAll saphyr store calls)
      (fun outcomes after => ∃ final,
        Follows documents calls outcomes final ∧
          Represents saphyr store after final)
      disk := by
  induction calls generalizing disk documents with
  | nil => exact ⟨documents, .nil documents, represents⟩
  | cons call calls induction =>
      rw [performAll, ensures_bind]
      apply (ensures_perform_documents lawful represents call).mono
      rintro outcome middle (⟨refused, now⟩ | ⟨rfl, now⟩)
      · rw [ensures_bind]
        apply (induction now).mono
        rintro outcomes after ⟨final, follows, last⟩
        exact ⟨final, .refused refused follows, last⟩
      · rw [ensures_bind]
        apply (induction now).mono
        rintro outcomes after ⟨final, follows, last⟩
        exact ⟨final, .performed follows, last⟩

/--
Calls on files do what the same calls do on remembered documents, apart from
those which are refused and change nothing; where none is refused the outcomes
and the documents are those of the service.
-/
theorem files_refine_service (lawful : saphyr.Lawful)
    {documents : LevelDocuments}
    (represents : Represents saphyr store disk documents)
    {calls : List SetCall} {outcomes : List (Except ConfigError Unit)}
    {after : Disk}
    (performed : Runs (flat surroundings process)
      (performAll saphyr store calls) disk outcomes after) :
    ∃ final, Follows documents calls outcomes final ∧
      Represents saphyr store after final ∧
        ((∀ outcome ∈ outcomes, ¬ Refused outcome) →
          outcomes = (runSets documents calls).1 ∧
            final = (runSets documents calls).2) := by
  rcases (ensures_follows lawful calls represents).of_run performed with
    ⟨final, follows, last⟩
  exact ⟨final, follows, last, follows.accepted⟩

/-- The documents in the files of the small disk. -/
def smallDocuments : LevelDocuments
  | .team => some (.mapping smallMapping)
  | .personal => none

theorem smallDisk_represents :
    Represents smallSaphyr smallStore (smallDisk fencedSample)
      smallDocuments := by
  refine ⟨smallTexts, smallDisk_holds, ?_⟩
  intro level
  cases level with
  | team => rfl
  | personal => rfl

theorem files_refine_service_once :
    ∃ after final,
      Runs (flat quiet 0) (performAll smallSaphyr smallStore [smallCall])
          (smallDisk fencedSample) [.ok ()] after ∧
        Represents smallSaphyr smallStore after final ∧
          final = (runSets smallDocuments [smallCall]).2 := by
  rcases exists_runs_smallCall with ⟨after, performed⟩
  rcases files_refine_service smallSaphyr_lawful smallDisk_represents
      performed with
    ⟨final, _, represents, accepted⟩
  have granted :
      ∀ outcome ∈ [(.ok () : Except ConfigError Unit)],
        ¬ Refused outcome := by
    intro outcome member
    rw [List.mem_singleton.mp member]
    exact id
  exact ⟨after, final, performed, represents, (accepted granted).2⟩

end Luminosity.Adapters.StoreRegisters
