import Luminosity.Foundation.LastWrite
import Luminosity.Config.Service

/-!
# Whole-run law of the configuration service

The service runs over a store which remembers the current document of each
level.  Abstractly such a store is a family of registers indexed by a level
and a key: a successful `set` writes one register, and a failed `set` writes
none, although the documents behind the registers are trees in which keys
overlap as prefixes and extensions of each other.

The refinement makes the last-write-wins run law available for every sequence
of `set` calls, starting from arbitrary documents.
-/

namespace Luminosity.Config.ServiceRuns

open Luminosity.Foundation.TextSegments
open Luminosity.Foundation.LastWrite
open Luminosity.Config.Domain
open Luminosity.Config.Service

/-- The current document of each level, absent when never written. -/
abbrev LevelDocuments := Level → Option Node

/-- The service over a store which remembers what was last written. -/
def rememberingService : ConfigService (StateM LevelDocuments) where
  reader :=
    { read := fun level => do
        let documents ← getThe LevelDocuments
        return documents level }
  writer :=
    { write := fun level document =>
        modifyThe LevelDocuments fun documents =>
          Function.update documents level (some document) }

/-- One `set` request. -/
structure SetCall where
  key : Key
  value : Text
  level : Level

/-- What `get` answers over the given documents. -/
def getAt
    (documents : LevelDocuments) (key : Key) (level : Option Level) :
    Except ConfigError Resolved :=
  ((rememberingService.get key level).run documents).1

/-- What `set` answers over the given documents, and what it leaves. -/
def setAt (documents : LevelDocuments) (call : SetCall) :
    Except ConfigError Unit × LevelDocuments :=
  (rememberingService.set call.key call.value call.level).run documents

/-- The answers of a sequence of `set` calls, and what it leaves. -/
def runSets :
    LevelDocuments → List SetCall →
      List (Except ConfigError Unit) × LevelDocuments
  | documents, [] => ([], documents)
  | documents, call :: calls =>
      let (outcome, next) := setAt documents call
      let (outcomes, final) := runSets next calls
      (outcome :: outcomes, final)

/-- The value of the last successful `set` of a key at a level. -/
def lastSuccessful
    (calls : List SetCall) (outcomes : List (Except ConfigError Unit))
    (key : Key) (level : Level) : Option Text :=
  (((calls.zip outcomes).filter fun (call, outcome) =>
      call.key = key && call.level = level && outcome.isOk).getLast?).map
    fun (call, _) => call.value

/-! ## The two operations over the remembering store -/

@[simp]
theorem getAt_some
    (documents : LevelDocuments) (key : Key) (level : Level) :
    getAt documents key (some level) =
      .ok (resolve (documents level) key) := rfl

theorem getAt_none (documents : LevelDocuments) (key : Key) :
    getAt documents key none =
      match resolve (documents .personal) key with
      | .found scalar => .ok (.found scalar)
      | .absent => .ok (resolve (documents .team) key) := by
  change
    (((match resolve (documents .personal) key with
        | .found scalar => pure (.found scalar)
        | .absent => pure (resolve (documents .team) key) :
        ExceptT ConfigError (StateM LevelDocuments) Resolved)).run
      documents).1 = _
  cases resolve (documents .personal) key <;> rfl

theorem setAt_eq (documents : LevelDocuments) (call : SetCall) :
    setAt documents call =
      match insert (rootMapping (documents call.level))
          call.key.segments call.value call.key with
      | .error error => (.error error, documents)
      | .ok root =>
          (.ok (),
            Function.update documents call.level (some (.mapping root))) := by
  change
    ((do
      let root ← insert (rootMapping (documents call.level))
        call.key.segments call.value call.key
      rememberingService.writer.write call.level (.mapping root) :
        ExceptT ConfigError (StateM LevelDocuments) Unit).run documents) = _
  cases insert (rootMapping (documents call.level))
      call.key.segments call.value call.key <;> rfl

/-- No key resolves below a root which is not a mapping. -/
theorem resolve_rootMapping (document : Option Node) (key : Key) :
    resolve (some (.mapping (rootMapping document))) key =
      resolve document key := by
  rcases List.exists_cons_of_ne_nil key.nonempty with ⟨segment, rest, segments⟩
  cases document with
  | none => simp [resolve, rootMapping, segments, descend]
  | some node =>
      cases node <;> simp [resolve, rootMapping, segments, descend]

theorem setAt_error
    {documents after : LevelDocuments} {call : SetCall} {error : ConfigError}
    (failed : setAt documents call = (.error error, after)) :
    after = documents ∧
      ∃ at_ existing, error = .pathConflict call.key at_ existing := by
  rw [setAt_eq] at failed
  split at failed
  · rename_i conflict inserted
    cases failed
    exact ⟨rfl, insert_error inserted⟩
  · cases failed

theorem setAt_ok
    {documents after : LevelDocuments} {call : SetCall}
    (succeeded : setAt documents call = (.ok (), after)) :
    ∃ root,
      insert (rootMapping (documents call.level))
          call.key.segments call.value call.key = .ok root ∧
        after =
          Function.update documents call.level (some (.mapping root)) := by
  rw [setAt_eq] at succeeded
  split at succeeded
  · cases succeeded
  · rename_i root inserted
    cases succeeded
    exact ⟨root, inserted, rfl⟩

/-! ## The registers behind the documents -/

/-- What a key resolves to at a level. -/
def registerView (documents : LevelDocuments) : Level × Key → Resolved :=
  fun register => resolve (documents register.1) register.2

/-- The register a `set` call addresses, with the value it writes there. -/
def SetCall.write (call : SetCall) : (Level × Key) × Resolved :=
  ((call.level, call.key), .found (.string call.value))

/-- The write a `set` call performs: one on success, none on failure. -/
def registerEffect (documents : LevelDocuments) (call : SetCall) :
    Option ((Level × Key) × Resolved) :=
  if (setAt documents call).1.isOk then some call.write else none

/-- A successful `set` writes exactly the register it addresses. -/
theorem registerView_setAt_ok
    {documents after : LevelDocuments} {call : SetCall}
    (succeeded : setAt documents call = (.ok (), after)) :
    registerView after =
      Function.update (registerView documents)
        (call.level, call.key) (.found (.string call.value)) := by
  rcases setAt_ok succeeded with ⟨root, inserted, rfl⟩
  funext register
  rcases register with ⟨level, key⟩
  by_cases sameLevel : level = call.level
  · subst sameLevel
    rw [registerView, Function.update_self]
    by_cases sameKey : key = call.key
    · subst sameKey
      rw [Function.update_self]
      exact descend_insert_self call.key.nonempty inserted
    · have differentSegments : key.segments ≠ call.key.segments :=
        fun equal => sameKey (Key.ext_segments equal)
      rw [Function.update_of_ne (by simp [sameKey])]
      calc
        resolve (some (.mapping root)) key =
            resolve
              (some (.mapping (rootMapping (documents call.level)))) key :=
          descend_insert_of_ne differentSegments inserted
        _ = resolve (documents call.level) key :=
          resolve_rootMapping (documents call.level) key
  · rw [registerView, Function.update_of_ne sameLevel,
      Function.update_of_ne (by simp [sameLevel])]
    rfl

theorem registerView_setAt
    (documents : LevelDocuments) (call : SetCall) :
    registerView (setAt documents call).2 =
      applyWrites (registerEffect documents call).toList
        (registerView documents) := by
  cases outcome : setAt documents call with
  | mk answer after =>
      cases answer with
      | error error =>
          have unchanged := (setAt_error outcome).1
          simp [registerEffect, outcome, Except.isOk, Except.toBool,
            applyWrites, unchanged]
      | ok done =>
          rw [registerView_setAt_ok outcome]
          simp [registerEffect, outcome, Except.isOk, Except.toBool,
            applyWrites, SetCall.write]

/-- The remembering store, seen as a family of registers. -/
def registers :
    RegisterSystem LevelDocuments SetCall (Level × Key) Resolved where
  step := fun documents call => (setAt documents call).2
  view := registerView
  effect := registerEffect
  view_step := registerView_setAt

theorem run_registers (documents : LevelDocuments) (calls : List SetCall) :
    registers.run documents calls = (runSets documents calls).2 := by
  induction calls generalizing documents with
  | nil => rfl
  | cons call calls induction => exact induction (setAt documents call).2

/-- The writes of a run are its successful calls, in order. -/
theorem writes_registers
    (documents : LevelDocuments) (calls : List SetCall) :
    registers.writes documents calls =
      ((calls.zip (runSets documents calls).1).filter
          fun (_, outcome) => outcome.isOk).map
        fun (call, _) => call.write := by
  induction calls generalizing documents with
  | nil => rfl
  | cons call calls induction =>
      have tailWrites := induction (setAt documents call).2
      rw [RegisterSystem.writes]
      change
        (registerEffect documents call).toList ++
            registers.writes (setAt documents call).2 calls = _
      rw [tailWrites]
      cases answer : (setAt documents call).1 with
      | error error =>
          simp [registerEffect, runSets, answer, Except.isOk, Except.toBool]
      | ok done =>
          simp [registerEffect, runSets, answer, Except.isOk, Except.toBool]

theorem lastWrite_registers
    (documents : LevelDocuments) (calls : List SetCall)
    (key : Key) (level : Level) :
    lastWrite (registers.writes documents calls) (level, key) =
      (lastSuccessful calls (runSets documents calls).1 key level).map
        fun value => .found (.string value) := by
  have sameTest :
      (fun pair : SetCall × Except ConfigError Unit =>
          decide (pair.1.write.1 = (level, key)) && pair.2.isOk) =
        fun pair =>
          decide (pair.1.key = key) && decide (pair.1.level = level) &&
            pair.2.isOk := by
    funext pair
    rcases pair with ⟨call, outcome⟩
    by_cases sameKey : call.key = key <;>
      by_cases sameLevel : call.level = level <;>
        simp [SetCall.write, sameKey, sameLevel]
  rw [writes_registers, lastWrite, List.filter_map, List.filter_filter,
    List.getLast?_map, lastSuccessful]
  simp only [Function.comp_def] at sameTest ⊢
  rw [sameTest]
  simp [SetCall.write, Function.comp_def]

/-! ## The run law -/

theorem getAt_runSets
    (documents : LevelDocuments) (calls : List SetCall)
    (key : Key) (level : Level) :
    getAt (runSets documents calls).2 key (some level) =
      match lastSuccessful calls (runSets documents calls).1 key level with
      | some value => .ok (.found (.string value))
      | none => getAt documents key (some level) := by
  have law := registers.view_run_apply documents calls (level, key)
  rw [run_registers, lastWrite_registers] at law
  change resolve ((runSets documents calls).2 level) key = _ at law
  rw [getAt_some, law]
  cases lastSuccessful calls (runSets documents calls).1 key level <;> rfl

/-- A full-stack read prefers what the personal level resolves to. -/
theorem getAt_none_eq (documents : LevelDocuments) (key : Key) :
    getAt documents key none =
      match getAt documents key (some .personal) with
      | .ok (.found scalar) => .ok (.found scalar)
      | _ => getAt documents key (some .team) := by
  rw [getAt_none, getAt_some, getAt_some]
  cases resolve (documents .personal) key <;> rfl

theorem setAt_outcome (documents : LevelDocuments) (call : SetCall) :
    (setAt documents call).1 = .ok () ∨
      ∃ at_ existing,
        (setAt documents call).1 =
          .error (.pathConflict call.key at_ existing) := by
  cases answer : (setAt documents call).1 with
  | ok done => exact Or.inl rfl
  | error error =>
      rcases setAt_error (Prod.ext answer rfl) with ⟨_, at_, existing, conflict⟩
      exact Or.inr ⟨at_, existing, by rw [conflict]⟩

theorem runSets_outcome
    (documents : LevelDocuments) (calls : List SetCall) :
    ∀ outcome ∈ (runSets documents calls).1,
      outcome = .ok () ∨
        ∃ key at_ existing,
          outcome = .error (.pathConflict key at_ existing) := by
  induction calls generalizing documents with
  | nil => simp [runSets]
  | cons call calls induction =>
      intro outcome member
      rcases List.mem_cons.mp member with first | later
      · rw [first]
        rcases setAt_outcome documents call with succeeded | conflict
        · exact Or.inl succeeded
        · exact Or.inr ⟨call.key, conflict⟩
      · exact induction (setAt documents call).2 outcome later

/-- A `set` of one key never changes what another key resolves to. -/
theorem getAt_setAt_of_ne
    (documents : LevelDocuments) (call : SetCall) {key : Key}
    (different : key ≠ call.key) (level : Option Level) :
    getAt (setAt documents call).2 key level =
      getAt documents key level := by
  have unchanged (at_ : Level) :
      resolve ((setAt documents call).2 at_) key =
        resolve (documents at_) key := by
    have step := congrFun (registerView_setAt documents call) (at_, key)
    rw [applyWrites_apply] at step
    change resolve ((setAt documents call).2 at_) key = _ at step
    rw [step]
    by_cases succeeded : (setAt documents call).1.isOk
    · simp [registerEffect, succeeded, lastWrite, SetCall.write,
        Ne.symm different, registerView]
    · simp [registerEffect, succeeded, lastWrite, registerView]
  cases level with
  | none => rw [getAt_none, getAt_none, unchanged, unchanged]
  | some level => rw [getAt_some, getAt_some, unchanged]

/--
After any sequence of `set` calls over any initial documents, a key resolves
at a level to the value of the last successful `set` of exactly that key at
that level, or else to what it resolved to before the run; a full-stack read
is the personal result when that is found and the team result otherwise.
Every call succeeds or reports a shape conflict, a failed call changes
nothing, and no call changes what another key resolves to.
-/
theorem set_sequence_law
    (documents : LevelDocuments) (calls : List SetCall) (key : Key) :
    (∀ level,
      getAt (runSets documents calls).2 key (some level) =
        match lastSuccessful calls (runSets documents calls).1 key level with
        | some value => .ok (.found (.string value))
        | none => getAt documents key (some level)) ∧
    (getAt (runSets documents calls).2 key none =
      match getAt (runSets documents calls).2 key (some .personal) with
      | .ok (.found scalar) => .ok (.found scalar)
      | _ => getAt (runSets documents calls).2 key (some .team)) ∧
    (∀ outcome ∈ (runSets documents calls).1,
      outcome = .ok () ∨
        ∃ named at_ existing,
          outcome = .error (.pathConflict named at_ existing)) ∧
    (∀ (current : LevelDocuments) (call : SetCall),
      (∀ error, (setAt current call).1 = .error error →
        (setAt current call).2 = current) ∧
      (key ≠ call.key → ∀ level : Option Level,
        getAt (setAt current call).2 key level =
          getAt current key level)) := by
  refine ⟨getAt_runSets documents calls key, getAt_none_eq _ key,
    runSets_outcome documents calls, ?_⟩
  intro current call
  constructor
  · intro error failed
    exact (setAt_error (Prod.ext failed rfl)).1
  · intro different level
    exact getAt_setAt_of_ne current call different level

end Luminosity.Config.ServiceRuns
