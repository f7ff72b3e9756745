import Luminosity.Launch.Requests

/-!
# Faults while an entry is stored

A store creates, writes, marks and renames two files.  Where one of these steps
fails, the store fails, and what it leaves is told by the step and by the file
which it belongs to.

The names of the cache may be links, so that a scratch file is written through
its name.  What else can be told is of the names which lead to other files.
-/

namespace Luminosity.Launch.StoreFaults

open Luminosity.Foundation.TextSegments
open Luminosity.Foundation.EffectPrograms
open Luminosity.Foundation.Chains
open Luminosity.Host.Paths
open Luminosity.Host.Calls
open Luminosity.Host.Volumes
open Luminosity.Host
open Luminosity.Launch.Core
open Luminosity.Launch.Cache
open Luminosity.Launch.Requests

/-! ## What fails -/

/-- The steps in which a file is placed; writing may stop after some bytes. -/
inductive Step
  | creating
  | writing (written : Nat)
  | marking
  | moving
deriving DecidableEq

/-- The one step which fails. -/
structure Fault where
  item : Item
  step : Step
  error : IoError

namespace Fault

variable (request : Request) (fault : Fault)

/-- The step which fails is this one, of the file at this path. -/
def hits (path : Path) (step : Step) : Bool :=
  path = request.scratch fault.item && fault.step = step

/-- The step is taken, so that the store fails. -/
def Strikes : Prop :=
  match fault.step with
  | .creating => True
  | .writing written => written < (request.contents fault.item).length
  | .marking => fault.item = .binary
  | .moving => True

/-- A failure of the step leaves the scratch file. -/
def Leaves : Prop :=
  match fault.step with
  | .creating => False
  | .writing _ => True
  | .marking => True
  | .moving => False

/-- How a step is answered. -/
def answer (hit : Bool) : Except IoError Unit :=
  if hit then .error fault.error else .ok ()

end Fault

section Run

variable (surroundings : Surroundings) (request : Request) (fault : Fault)

/-- How far the process has written. -/
def position (volume : Volume) : Nat :=
  ((volume.opened request.unique).map Prod.snd).getD 0

/-- One step fails, and all others succeed. -/
def Answers (volume : Volume) : (call : Call) → call.Answer → Prop
  | .createDir _, answer => answer = .ok ()
  | .create path, answer =>
      answer = fault.answer (fault.hits request path .creating)
  | .append path _, answer =>
      answer =
        fault.answer
          (fault.hits request path (.writing (position request volume)))
  | .setPermissions path _, answer =>
      answer = fault.answer (fault.hits request path .marking)
  | .rename source _, answer =>
      answer = fault.answer (fault.hits request source .moving)
  | .removeFile _, answer => answer = .ok ()
  | _, _ => True

/-- The calls of a process one of whose steps fails. -/
def failing : Semantics host Volume :=
  fun call before answer after =>
    linked surroundings request.unique call before answer after ∧
      Answers request fault before call answer

/-- Storing the entry, up to the step which fails. -/
def Attempts (before : Volume)
    (result : Except ResolutionError CachedBinary) (after : Volume) : Prop :=
  Runs (failing surroundings request fault) request.storing.run before
    result after

end Run

/-! ## What is left -/

section Remains

variable (request : Request)

/-- The scratch file of an item is written. -/
def Stages (item : Item) (before after : Volume) : Prop :=
  ∃ bytes,
    Volume.Stages request.unique (request.scratch item) bytes before after

/-- A file of the entry is put in place. -/
def Places (item : Item) (before after : Volume) : Prop :=
  ∃ bytes,
    Placements.Places request.unique (request.scratch item)
      (request.placed item) bytes before after

/-- What a failure of the step makes of the volume. -/
def Fault.Remains (fault : Fault) (before after : Volume) : Prop :=
  match fault.step with
  | .creating => after = before
  | .writing _ | .marking => Stages request fault.item before after
  | .moving =>
      ∃ staged,
        Stages request fault.item before staged ∧
          after = staged.remove (request.scratch fault.item)

/-- The steps of placing a file before the one which fails can succeed. -/
def Fault.Starts (fault : Fault) (volume : Volume) : Prop :=
  fault.step = .creating ∨ volume.Openable (request.scratch fault.item)

end Remains

/-! ## The step which fails -/

section Hits

variable {request : Request}

theorem hits_scratch {fault : Fault} {item : Item} {step : Step} :
    fault.hits request (request.scratch item) step = true ↔
      item = fault.item ∧ fault.step = step := by
  rw [Fault.hits, Bool.and_eq_true, decide_eq_true_eq, decide_eq_true_eq,
    scratch_inj]

theorem hits_own
    {fault : Fault} {taken : Step} (isStep : fault.step = taken) :
    fault.hits request (request.scratch fault.item) taken = true :=
  hits_scratch.mpr ⟨rfl, isStep⟩

end Hits

/-! ## Placing a file -/

section Placing

variable {surroundings : Surroundings} {request : Request} {fault : Fault}
variable {item : Item} {before : Volume}

/-- The step is not the one which fails. -/
theorem answer_ok {hit : Bool} (answered : .ok () = fault.answer hit) :
    hit = false := by
  cases hit with
  | false => rfl
  | true => cases answered

theorem answer_error {hit : Bool} {error : IoError}
    (answered : .error error = fault.answer hit) :
    hit = true := by
  cases hit with
  | false => cases answered
  | true => rfl

theorem answer_of_not {hit : Bool} (misses : ¬ hit = true) :
    .ok () = fault.answer hit := by
  cases hit with
  | false => rfl
  | true => exact absurd rfl misses

/-- What is written while no step of it fails. -/
structure Progress (request : Request) (fault : Fault) (item : Item)
    (before : Volume) (written : Bytes) (after : Volume) : Prop where
  stages :
    Volume.Stages request.unique (request.scratch item) written before after
  created : item = fault.item → fault.step ≠ .creating
  quiet : item = fault.item → ∀ length, length < written.length →
    fault.step ≠ .writing length

/-- The step which fails is one of this file. -/
structure Struck (request : Request) (fault : Fault) (item : Item)
    (before after : Volume) : Prop where
  own : item = fault.item
  strikes : fault.Strikes request
  remains : fault.Remains request before after

theorem ensures_writeFile_failing
    (request : Request) (fault : Fault) (item : Item) (before : Volume) :
    Ensures (failing surroundings request fault)
      (writeFile (request.scratch item) (request.contents item))
      (onOk (fun _ => Progress request fault item before
          (request.contents item))
        fun _ => Struck request fault item before)
      before := by
  apply @ensures_writeFile_within _ _ _ (fun volume => volume = before)
    (Progress request fault item before)
    fun _ => Struck request fault item before
  · rintro _ answer after rfl ⟨step, answers⟩
    cases answer with
    | ok _ =>
        rcases step with ⟨last, inode, arrives, opens⟩
        refine ⟨Volume.stages_opens arrives opens, ?_, ?_⟩
        · rintro rfl isStep
          have misses := answer_ok answers
          rw [hits_own isStep] at misses
          cases misses
        · rintro _ length ⟨⟩
    | error error =>
        rcases hits_scratch.mp (answer_error answers) with ⟨own, isStep⟩
        refine ⟨own, ?_, ?_⟩
        · rw [Fault.Strikes, isStep]
          trivial
        · rw [Fault.Remains, isStep]
          exact step
  · rintro written byte middle answer after within progress ⟨step, answers⟩
    rcases progress with ⟨stages, created, quiet⟩
    rcases stages.opened with ⟨inode, opened⟩
    have reached : position request middle = written.length := by
      rw [position, opened]
      rfl
    change answer = fault.answer (fault.hits request (request.scratch item)
      (.writing (position request middle))) at answers
    rw [reached] at answers
    cases answer with
    | ok _ =>
        refine ⟨stages.write step, created, ?_⟩
        intro own length short isStep
        rw [List.length_append, List.length_singleton, Nat.lt_succ_iff]
          at short
        rcases Nat.lt_or_eq_of_le short with earlier | rfl
        · exact quiet own length earlier isStep
        · have misses := answer_ok answers
          rw [own, hits_own isStep] at misses
          cases misses
    | error error =>
        rcases hits_scratch.mp (answer_error answers) with ⟨own, isStep⟩
        refine ⟨own, ?_, ?_⟩
        · rw [Fault.Strikes, isStep, ← own]
          have length := within.length_le
          rw [List.length_append] at length
          exact length
        · rw [Fault.Remains, isStep]
          cases step
          exact ⟨written, own ▸ stages⟩
  · rfl

/-- Marking a file may fail; the file stays written. -/
theorem ensures_marked
    {staged : Volume} (stages : Stages request item before staged)
    (written : item = fault.item → fault.Strikes request →
      fault.step = .marking ∨ fault.step = .moving) :
    Ensures (failing surroundings request fault)
      (if (decide (item = .binary)) = true then
          setExecutable (request.scratch item)
        else pure () : ResolutionProgram Unit).run
      (onOk
        (fun _ after => after = staged ∧
          (item = fault.item → fault.Strikes request →
            fault.step = .moving))
        fun _ => Struck request fault item before)
      staged := by
  cases item with
  | signature =>
      refine ⟨rfl, ?_⟩
      intro own strikes
      rcases written own strikes with marking | moving
      · rw [Fault.Strikes, marking, ← own] at strikes
        cases strikes
      · exact moving
  | binary =>
      rw [if_pos (decide_eq_true rfl), setExecutable, ensures_invoke_bind]
      rintro answer after ⟨step, answers⟩
      cases step
      cases answer with
      | ok _ =>
          refine ⟨rfl, ?_⟩
          intro own strikes
          rcases written own strikes with marking | moving
          · have misses := answer_ok answers
            rw [own, hits_own marking] at misses
            cases misses
          · exact moving
      | error error =>
          rcases hits_scratch.mp (answer_error answers) with ⟨own, isStep⟩
          refine ⟨own, ?_, ?_⟩
          · rw [Fault.Strikes, isStep]
            exact own.symm
          · rw [Fault.Remains, isStep]
            exact own ▸ stages

/-- Placing a file fails when its step fails, and leaves the remains. -/
theorem ensures_placing
    (request : Request) (fault : Fault) (item : Item) (before : Volume) :
    Ensures (failing surroundings request fault)
      (request.placing item).run
      (onOk
        (fun _ after => Places request item before after ∧
          (item = fault.item → ¬ fault.Strikes request))
        fun _ => Struck request fault item before)
      before := by
  rw [Request.placing, writeThenRename, ensures_run_bind, ensures_run_lift]
  apply (ensures_writeFile_failing request fault item before).mono
  intro written staged outcome
  cases written with
  | error error => exact outcome
  | ok _ =>
      have whole := outcome.stages
      have stages : Stages request item before staged := ⟨_, whole⟩
      have passed (own : item = fault.item)
          (strikes : fault.Strikes request) :
          fault.step = .marking ∨ fault.step = .moving := by
        rw [Fault.Strikes] at strikes
        cases isStep : fault.step with
        | creating => exact absurd isStep (outcome.created own)
        | writing length =>
            rw [isStep, ← own] at strikes
            exact absurd isStep (outcome.quiet own length strikes)
        | marking => exact .inl rfl
        | moving => exact .inr rfl
      simp only [onOk_ok]
      rw [ensures_run_bind]
      apply (ensures_marked stages passed).mono
      rintro marked now outcome
      cases marked with
      | error error => exact outcome
      | ok _ =>
          rcases outcome with ⟨rfl, last⟩
          rw [onOk_ok, ensures_invoke_bind]
          rintro answer after ⟨step, answers⟩
          cases answer with
          | ok _ =>
              rcases step with ⟨inode, present, _, free, rfl⟩
              refine ⟨⟨_, now, inode, whole, present, free, rfl⟩, ?_⟩
              intro own strikes
              have misses := answer_ok answers
              rw [own, hits_own (last own strikes)] at misses
              cases misses
          | error error =>
              rcases hits_scratch.mp (answer_error answers) with
                ⟨own, isStep⟩
              cases step
              rw [ensures_invoke_bind]
              rintro removed final ⟨removing, done⟩
              cases done
              refine ⟨own, ?_, ?_⟩
              · rw [Fault.Strikes, isStep]
                trivial
              · rw [Fault.Remains, isStep]
                exact ⟨now, own ▸ stages, own ▸ removing.2.2⟩

end Placing

/-! ## Storing -/

/-- What the failure of a store makes of the volume. -/
def Failure (request : Request) (fault : Fault) (before after : Volume) :
    Prop :=
  match fault.item with
  | .binary => fault.Remains request before after
  | .signature =>
      ∃ placed,
        Places request .binary before placed ∧
          fault.Remains request placed after

section Storing

variable {surroundings : Surroundings} {request : Request} {fault : Fault}
variable {before : Volume}

/-- A store fails when the step is taken, and leaves what it leaves. -/
theorem ensures_storing :
    Ensures (failing surroundings request fault) request.storing.run
      (fun result after => ∀ error, result = .error error →
        fault.Strikes request ∧ Failure request fault before after)
      before := by
  have made :
      Ensures (failing surroundings request fault)
        (createDirAll request.root)
        (fun answer after => after = before ∧ answer = .ok ()) before := by
    have created (path : Path) :
        Ensures (failing surroundings request fault) (issue (.createDir path))
          (fun answer after => after = before ∧ answer = .ok ()) before :=
      fun _ _ step => ⟨step.1, step.2⟩
    rw [createDirAll]
    cases request.root.components.reverse with
    | nil =>
        cases request.root.absolute with
        | false => exact ⟨rfl, rfl⟩
        | true =>
            rintro answer after ⟨rfl, rfl⟩
            exact ⟨rfl, rfl⟩
    | cons component ancestors =>
        rintro answer after ⟨rfl, rfl⟩
        exact ⟨rfl, rfl⟩
  rw [Request.storing, store, ensures_run_bind, ensures_run_lift]
  apply made.mono
  rintro _ _ ⟨rfl, rfl⟩
  rw [onOk_ok, ensures_invoke_bind]
  rintro unique _ ⟨⟨rfl, rfl⟩, _⟩
  rw [ensures_run_bind]
  apply (ensures_placing request fault .binary _).mono
  intro placed middle outcome
  cases placed with
  | error error =>
      rintro _ ⟨⟩
      refine ⟨outcome.strikes, ?_⟩
      rw [Failure, ← outcome.own]
      exact outcome.remains
  | ok _ =>
      rcases outcome with ⟨places, _⟩
      rw [onOk_ok, ensures_run_bind]
      apply (ensures_placing request fault .signature middle).mono
      intro renamed last outcome
      cases renamed with
      | error error =>
          rintro _ ⟨⟩
          refine ⟨outcome.strikes, ?_⟩
          rw [Failure, ← outcome.own]
          exact ⟨middle, places, outcome.remains⟩
      | ok _ => rintro _ ⟨⟩

end Storing

/-! ## Runs which fail -/

section Runs

variable {surroundings : Surroundings} {request : Request} {fault : Fault}
variable {item : Item} {before after staged : Volume} {error : IoError}

/-- The whole file can be written when no step of it fails. -/
theorem exists_written
    {total : Bytes} (openable : before.Openable (request.scratch item))
    (created : item = fault.item → fault.step ≠ .creating)
    (quiet : item = fault.item → ∀ length, length < total.length →
      fault.step ≠ .writing length) :
    ∃ staged,
      Volume.Stages request.unique (request.scratch item) total before
          staged ∧
        ∀ rest result after,
          Runs (failing surroundings request fault)
              (writeAll (request.scratch item) rest) staged result after →
            Runs (failing surroundings request fault)
              (writeFile (request.scratch item) (total ++ rest)) before result
              after := by
  rcases Volume.exists_opens openable request.unique with
    ⟨last, inode, opened, arrives, opens⟩
  let state := opened.filled request.unique inode
  have misses {step : Step} (other : item = fault.item → fault.step ≠ step) :
      ¬ fault.hits request (request.scratch item) step = true := by
    intro hits
    rcases hits_scratch.mp hits with ⟨own, isStep⟩
    exact other own isStep
  have appended (written : Bytes) (byte : UInt8)
      (within : written ++ [byte] <+: total) :
      failing surroundings request fault
        (.append (request.scratch item) byte) (state written) (.ok ())
        (state (written ++ [byte])) := by
    refine ⟨Volume.appends_filled _ written byte, ?_⟩
    have reached : position request (state written) = written.length := by
      rw [position, Volume.filled_opened_self]
      rfl
    change .ok () = fault.answer (fault.hits request (request.scratch item)
      (.writing (position request (state written))))
    rw [reached]
    apply answer_of_not
    apply misses
    intro own
    apply quiet own
    have length := within.length_le
    rw [List.length_append] at length
    exact length
  refine ⟨state total, ⟨last, inode, opened, arrives, opens, rfl⟩, ?_⟩
  intro rest result after further
  have opening :
      failing surroundings request fault (.create (request.scratch item))
        before (.ok ()) (state []) := by
    refine ⟨⟨last, inode, arrives, ?_⟩, answer_of_not (misses created)⟩
    change before.Opens request.unique last inode
      (opened.filled request.unique inode [])
    rw [opens.filled]
    exact opens
  exact Runs.ask opening
    (@runs_writeAll _ _ _ _ _ appended total [] rest List.prefix_rfl _ _
      further)

/-- A file which is not written is not placed. -/
theorem runs_placing_unwritten
    (run : Runs (failing surroundings request fault)
      (writeFile (request.scratch item) (request.contents item)) before
      (.error error) after) :
    Runs (failing surroundings request fault) (request.placing item).run
      before (.error (cacheError (request.scratch item) error)) after := by
  rw [Request.placing, writeThenRename]
  apply run.run_lift.run_bind
  exact .done _ _

/-- Marking succeeds where it is not the step which fails. -/
theorem runs_marked (unmarked : item = fault.item → fault.step ≠ .marking) :
    Runs (failing surroundings request fault)
      (if (decide (item = .binary)) = true then
          setExecutable (request.scratch item)
        else pure () : ResolutionProgram Unit).run staged (.ok ()) staged := by
  cases item with
  | signature => exact .done _ _
  | binary =>
      have marked :
          Runs (failing surroundings request fault)
            (invoke (.setPermissions (request.scratch .binary) 0o755) :
              ResolutionProgram (Except IoError Unit)).run
            staged (.ok (.ok ())) staged := by
        refine Runs.run_lift (Runs.perform ⟨rfl, answer_of_not ?_⟩)
        intro hits
        rcases hits_scratch.mp hits with ⟨own, isStep⟩
        exact unmarked own isStep
      rw [if_pos (decide_eq_true rfl), setExecutable]
      apply marked.run_bind
      exact .done _ _

section Written

variable (run : Runs (failing surroundings request fault)
  (writeFile (request.scratch item) (request.contents item)) before (.ok ())
  staged)

include run

/-- A binary which is not marked is not placed. -/
theorem runs_placing_unmarked
    (own : item = fault.item) (isStep : fault.step = .marking)
    (isBinary : item = .binary) :
    Runs (failing surroundings request fault) (request.placing item).run
      before (.error (cacheError (request.scratch item) fault.error))
      staged := by
  subst own
  have refused :
      Runs (failing surroundings request fault)
        (invoke (.setPermissions (request.scratch fault.item) 0o755) :
          ResolutionProgram (Except IoError Unit)).run
        staged (.ok (.error fault.error)) staged := by
    refine Runs.run_lift (Runs.perform ⟨rfl, ?_⟩)
    change _ = fault.answer _
    rw [hits_own isStep]
    rfl
  rw [Request.placing, writeThenRename]
  apply run.run_lift.run_bind
  apply Runs.run_bind_error
  rw [if_pos (decide_eq_true isBinary), setExecutable]
  apply refused.run_bind
  exact .done _ _

/-- A file which is not renamed is removed. -/
theorem runs_placing_unmoved
    (own : item = fault.item) (isStep : fault.step = .moving)
    (stages : Stages request item before staged) :
    Runs (failing surroundings request fault) (request.placing item).run
      before (.error (cacheError (request.placed item) fault.error))
      (staged.remove (request.scratch item)) := by
  subst own
  rcases stages with ⟨bytes, stages⟩
  rcases stages.present with ⟨⟨found, present⟩, isFile⟩
  have refused :
      Runs (failing surroundings request fault)
        (invoke (.rename (request.scratch fault.item)
            (request.placed fault.item)) :
          ResolutionProgram (Except IoError Unit)).run
        staged (.ok (.error fault.error)) staged := by
    refine Runs.run_lift (Runs.perform ⟨rfl, ?_⟩)
    change _ = fault.answer _
    rw [hits_own isStep]
    rfl
  have removed :
      Runs (failing surroundings request fault)
        (invoke (.removeFile (request.scratch fault.item)) :
          ResolutionProgram (Except IoError Unit)).run
        staged (.ok (.ok ()))
        (staged.remove (request.scratch fault.item)) := by
    refine Runs.run_lift (Runs.perform ⟨⟨?_, isFile, rfl⟩, rfl⟩)
    rw [present]
    exact Option.some_ne_none found
  rw [Request.placing, writeThenRename]
  apply run.run_lift.run_bind
  apply (runs_marked (by rw [isStep]; rintro _ ⟨⟩)).run_bind
  apply refused.run_bind
  apply removed.run_bind
  exact .done _ _

/-- One which can be renamed is placed. -/
theorem runs_placing_moved
    (spared : item ≠ fault.item) (stages : Stages request item before staged)
    (free : ¬ before.IsDirectory (request.placed item)) :
    ∃ after,
      Runs (failing surroundings request fault) (request.placing item).run
        before (.ok ()) after := by
  rcases stages with ⟨bytes, stages⟩
  rcases stages.present with ⟨⟨found, present⟩, isFile⟩
  have moved :
      Runs (failing surroundings request fault)
        (invoke (.rename (request.scratch item) (request.placed item)) :
          ResolutionProgram (Except IoError Unit)).run
        staged (.ok (.ok ()))
        (staged.rename (request.scratch item) (request.placed item)
          found) := by
    refine Runs.run_lift (Runs.perform
      ⟨⟨found, present, isFile, mt stages.of_isDirectory free, rfl⟩,
        answer_of_not ?_⟩)
    intro hits
    exact spared (hits_scratch.mp hits).1
  refine ⟨staged.rename (request.scratch item) (request.placed item) found,
    ?_⟩
  rw [Request.placing, writeThenRename]
  apply run.run_lift.run_bind
  apply (runs_marked fun own => absurd own spared).run_bind
  apply moved.run_bind
  exact .done _ _

end Written

/-- The step which fails is refused. -/
theorem answers_own
    {step : Step} (isStep : fault.step = step) :
    .error fault.error =
      fault.answer
        (fault.hits request (request.scratch fault.item) step) := by
  rw [hits_own isStep]
  rfl

/-- Writing can come to the byte which fails. -/
theorem exists_writing_stopped
    {length : Nat} (isStep : fault.step = .writing length)
    (short : length < (request.contents fault.item).length)
    (openable : before.Openable (request.scratch fault.item)) :
    ∃ after,
      Runs (failing surroundings request fault)
        (writeFile (request.scratch fault.item)
          (request.contents fault.item)) before (.error fault.error)
        after := by
  let written := (request.contents fault.item).take length
  have reached : written.length = length :=
    List.length_take_of_le (Nat.le_of_lt short)
  rcases @exists_written surroundings request fault fault.item before written
      openable (by rw [isStep]; rintro _ ⟨⟩)
      (by
        intro _ earlier within same
        rw [isStep, Step.writing.injEq] at same
        rw [reached, same] at within
        exact Nat.lt_irrefl earlier within) with
    ⟨staged, stages, further⟩
  rcases stages.opened with ⟨inode, opened⟩
  have stops (byte : UInt8) (rest : Bytes) :
      Runs (failing surroundings request fault)
        (writeAll (request.scratch fault.item) (byte :: rest)) staged
        (.error fault.error) staged := by
    have refused :
        failing surroundings request fault
          (.append (request.scratch fault.item) byte) staged
          (.error fault.error) staged := by
      refine ⟨rfl, answers_own ?_⟩
      rw [isStep, position, opened]
      exact congrArg Step.writing reached.symm
    exact Runs.ask refused (.done _ _)
  have split := List.take_append_drop length (request.contents fault.item)
  cases left : (request.contents fault.item).drop length with
  | nil =>
      rw [List.drop_eq_nil_iff] at left
      exact absurd short (Nat.not_lt.mpr left)
  | cons byte rest =>
      rw [left] at split
      rw [← split]
      exact ⟨staged, further (byte :: rest) _ _ (stops byte rest)⟩

/-- Placing a file can come to the step which fails. -/
theorem exists_placing_struck
    (strikes : fault.Strikes request)
    (starts : fault.Starts request before) :
    ∃ error after,
      Runs (failing surroundings request fault)
        (request.placing fault.item).run before (.error error) after := by
  by_cases creating : fault.step = .creating
  · have refused :
        failing surroundings request fault
          (.create (request.scratch fault.item)) before (.error fault.error)
          before :=
      ⟨rfl, answers_own creating⟩
    exact ⟨_, _, runs_placing_unwritten (Runs.ask refused (.done _ _))⟩
  · have openable := starts.resolve_left creating
    have whole
        (late : ∀ length, fault.step ≠ .writing length) :
        ∃ staged,
          Stages request fault.item before staged ∧
            Runs (failing surroundings request fault)
              (writeFile (request.scratch fault.item)
                (request.contents fault.item)) before (.ok ()) staged := by
      rcases @exists_written surroundings request fault fault.item before
          (request.contents fault.item) openable (fun _ => creating)
          (fun _ length _ => late length) with ⟨staged, stages, further⟩
      have run := further [] (.ok ()) staged (.done _ _)
      rw [List.append_nil] at run
      exact ⟨staged, ⟨_, stages⟩, run⟩
    rw [Fault.Strikes] at strikes
    cases isStep : fault.step with
    | creating => exact absurd isStep creating
    | writing length =>
        rw [isStep] at strikes
        rcases @exists_writing_stopped surroundings request fault before length
            isStep strikes openable with ⟨after, run⟩
        exact ⟨_, after, runs_placing_unwritten run⟩
    | marking =>
        rw [isStep] at strikes
        rcases whole (by rw [isStep]; rintro length ⟨⟩) with ⟨staged, _, run⟩
        exact ⟨_, staged, runs_placing_unmarked run rfl isStep strikes⟩
    | moving =>
        rcases whole (by rw [isStep]; rintro length ⟨⟩) with
          ⟨staged, stages, run⟩
        exact ⟨_, _, runs_placing_unmoved run rfl isStep stages⟩

/-- A file none of whose steps fails can be placed. -/
theorem exists_placing
    (spared : item ≠ fault.item)
    (openable : before.Openable (request.scratch item))
    (free : ¬ before.IsDirectory (request.placed item)) :
    ∃ after,
      Runs (failing surroundings request fault) (request.placing item).run
        before (.ok ()) after := by
  rcases @exists_written surroundings request fault item before
      (request.contents item) openable
      (fun own => absurd own spared) (fun own => absurd own spared) with
    ⟨staged, stages, further⟩
  have run := further [] (.ok ()) staged (.done _ _)
  rw [List.append_nil] at run
  exact runs_placing_moved run spared ⟨_, stages⟩ free

/-- What is placed first decides how the store ends. -/
theorem runs_storing
    {result : Except ResolutionError CachedBinary} {final : Volume}
    (rest : Runs (failing surroundings request fault)
      (do
        request.placing .binary
        request.placing .signature
        return {
          path := request.placed .binary
          sha256 := request.sha256
          signaturePath := request.placed .signature } :
        ResolutionProgram CachedBinary).run before result final) :
    Attempts surroundings request fault before result final := by
  have made :
      Runs (failing surroundings request fault) (createDirAll request.root)
        before (.ok ()) before :=
    runs_createDirAll (fun _ => ⟨rfl, rfl⟩) request.root
  have number :
      Runs (failing surroundings request fault)
        (invoke .processId : ResolutionProgram UInt32).run before
        (.ok request.unique) before :=
    Runs.run_lift (Runs.perform ⟨⟨rfl, rfl⟩, trivial⟩)
  rw [Attempts, Request.storing, store]
  apply made.run_lift.run_bind
  apply number.run_bind
  exact rest

end Runs

end Luminosity.Launch.StoreFaults
