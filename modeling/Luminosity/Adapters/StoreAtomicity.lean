import Mathlib.Data.List.Nodup
import Luminosity.Adapters.StoreProse
import Luminosity.Foundation.Interleaving

/-!
# Concurrent writes of one file

Any number of writers replace the file of one level, each in the process it
belongs to.  Their calls interleave in any order, every call may fail, and a
writer may crash between any two of its calls.  The machine records what each
writer did.

A writer only ever changes the scratch file whose number it drew, and only
ever renames it onto the target once it holds a whole rendering.  Numbers are
drawn from the process's counter, which wraps, so two writers have different
scratch files as long as no process has drawn more numbers than the counter
can tell apart.
-/

namespace Luminosity.Adapters.StoreAtomicity

open Relation
open Luminosity.Foundation.TextSegments
open Luminosity.Foundation.EffectPrograms
open Luminosity.Foundation.Interleaving
open Luminosity.Config.Domain
open Luminosity.Host.Paths
open Luminosity.Host.Calls
open Luminosity.Host.FlatDisk
open Luminosity.Adapters.Document
open Luminosity.Adapters.Store
open Luminosity.Adapters.Store.FileConfigStore
open Luminosity.Adapters.StoreDocuments
open Luminosity.Adapters.StoreProse

variable {ι : Type}

/-! ## What a history says -/

/-- What the writers did, newest first. -/
abbrev History (ι : Type) := List (Event host ι Disk)

/-- The disk and the history which led to it. -/
abbrev Log (ι : Type) := Disk × History ι

/-- The number an event drew. -/
def numbering : Event host ι Disk → Option (ι × UInt64)
  | ⟨actor, .fetchAdd, count, _, _⟩ => some (actor, count)
  | _ => none

/-- The writer drew this number. -/
def Owns (actor : ι) (count : UInt64) (history : History ι) : Prop :=
  (actor, count) ∈ history.filterMap numbering

/-- The writer tried to create this file. -/
def Created (actor : ι) (path : Path) (history : History ι) : Prop :=
  ∃ event ∈ history, event.actor = actor ∧ event.op = .create path

/-- The content a read of a file stands for, absent when the file is. -/
def StandsFor (existing : Option Text) : Except IoError Text → Prop
  | .ok content => existing = some content
  | .error error => error.kind = .notFound ∧ existing = none

/-- The event is a read of this file with this content. -/
def Finds (path : Path) (existing : Option Text) :
    Event host ι Disk → Prop
  | ⟨_, .read other, answer, _, _⟩ =>
      other = path ∧ StandsFor existing (textOf answer)
  | _ => False

/-- The removal of a file did not fail, unless there was no file. -/
def RemovalWorked : Event host ι Disk → Prop
  | ⟨_, .removeFile _, answer, _, _⟩ =>
      ∀ error, answer = .error error → error.kind = .notFound
  | _ => True

/-- Nothing the writer did changed this file. -/
def Unchanged (actor : ι) (path : Path) (history : History ι) : Prop :=
  ∀ event ∈ history, event.actor = actor →
    event.after.file path = event.before.file path

/-- If the writer's removals worked, no file it created is left. -/
def Swept (actor : ι) (log : Log ι) : Prop :=
  (∀ event ∈ log.2, event.actor = actor → RemovalWorked event) →
    ∀ path, Created actor path log.2 → log.1.file path = none

theorem Owns.cons
    {actor : ι} {count : UInt64} {history : History ι}
    (owns : Owns actor count history) (event : Event host ι Disk) :
    Owns actor count (event :: history) := by
  rw [Owns, List.filterMap_cons]
  cases numbering event with
  | none => exact owns
  | some drawn => exact List.mem_cons_of_mem drawn owns

theorem numbering_actor
    {event : Event host ι Disk} {drawn : ι × UInt64}
    (draws : numbering event = some drawn) :
    drawn.1 = event.actor ∧ event.op = .fetchAdd := by
  rcases event with ⟨actor, op, answer, before, after⟩
  cases op with
  | fetchAdd =>
      cases draws
      exact ⟨rfl, rfl⟩
  | _ => cases draws

theorem owns_cons_of_ne
    {actor : ι} {count : UInt64} {history : History ι}
    {event : Event host ι Disk} (different : event.actor ≠ actor) :
    Owns actor count (event :: history) ↔ Owns actor count history := by
  rw [Owns, Owns, List.filterMap_cons]
  cases draws : numbering event with
  | none => rfl
  | some drawn =>
      have other : (actor, count) ≠ drawn := by
        rintro rfl
        exact different (numbering_actor draws).1.symm
      simp [other]

theorem owns_cons_of_op
    {actor : ι} {count : UInt64} {history : History ι}
    {event : Event host ι Disk} (notDrawn : event.op ≠ .fetchAdd) :
    Owns actor count (event :: history) ↔ Owns actor count history := by
  rw [Owns, Owns, List.filterMap_cons]
  cases draws : numbering event with
  | none => rfl
  | some drawn => exact absurd (numbering_actor draws).2 notDrawn

theorem unchanged_cons_of_ne
    {actor : ι} {path : Path} {history : History ι}
    {event : Event host ι Disk} (different : event.actor ≠ actor) :
    Unchanged actor path (event :: history) ↔
      Unchanged actor path history := by
  simp [Unchanged, different]

theorem unchanged_cons
    {actor : ι} {path : Path} {history : History ι}
    {event : Event host ι Disk} (unchanged : Unchanged actor path history)
    (same : event.after.file path = event.before.file path) :
    Unchanged actor path (event :: history) := by
  intro past member own
  rcases List.mem_cons.mp member with rfl | old
  · exact same
  · exact unchanged past old own

/-! ## Concurrent writers -/

/-- The writers of one level's file, and the disk they start from. -/
structure Writers (ι : Type) where
  process : ι → UInt32
  document : ι → Node
  store : FileConfigStore
  saphyr : Saphyr
  level : Level
  surroundings : Surroundings
  initial : Disk

namespace Writers

variable (writers : Writers ι)

def target : Path :=
  writers.store.configPath writers.level

/-- The scratch file a writer uses under a number. -/
def scratch (actor : ι) (count : UInt64) : Path :=
  writers.store.tempPath (writers.process actor) count

/-- The program of a writer. -/
def program (actor : ι) : HostProgram (Except ConfigError Unit) :=
  (writers.store.write writers.saphyr writers.level
    (writers.document actor)).run

/-- The calls of each writer, recorded. -/
abbrev calls : ι → Semantics host (Log ι) :=
  recorded fun actor => flat writers.surroundings (writers.process actor)

/-- All writers before their first call. -/
def start : Machine host ι (Log ι) (Except ConfigError Unit) where
  state := (writers.initial, [])
  thread actor := some (writers.program actor)

/-- The writer read the target with this content. -/
def Found (actor : ι) (existing : Option Text) (history : History ι) : Prop :=
  ∃ event ∈ history, event.actor = actor ∧
    Finds writers.target existing event

/-- The writer computed this rendering from what it had read. -/
def Rendered (actor : ι) (rendered : Text) (history : History ι) : Prop :=
  ∃ existing, writers.Found actor existing history ∧
    render writers.saphyr existing (writers.document actor) = .ok rendered

/-- The numbers drawn in a process, with the writers which drew them. -/
def numberings (own : UInt32) (history : History ι) : List (ι × UInt64) :=
  (history.filterMap numbering).filter fun drawn =>
    writers.process drawn.1 = own

/-- No process has drawn more numbers than its counter tells apart. -/
def Bounded (log : Log ι) : Prop :=
  ∀ own, (writers.numberings own log.2).length ≤ 2 ^ 64

/-! ### The invariant -/

/-- The numbers a process drew are the values its counter went through. -/
def Counted (log : Log ι) : Prop :=
  ∀ own,
    let drawn := writers.numberings own log.2
    log.1.counter own =
        writers.initial.counter own + UInt64.ofNat drawn.length ∧
      (∀ pair ∈ drawn, ∃ index < drawn.length,
        pair.2 = writers.initial.counter own + UInt64.ofNat index) ∧
      (drawn.map Prod.snd).Nodup

/-- Every scratch file is touched only by the writer which owns it. -/
def Attributed (log : Log ι) : Prop :=
  ∀ event ∈ log.2, ∀ path, Touches path event.op →
    ∃ count, Owns event.actor count log.2 ∧
      path = writers.scratch event.actor count

/-- The target is as it was, or holds a whole rendering. -/
def TargetWhole (log : Log ι) : Prop :=
  log.1.file writers.target = writers.initial.file writers.target ∨
    ∃ actor rendered, writers.Rendered actor rendered log.2 ∧
      log.1.file writers.target = some (encode rendered)

structure Invariant (log : Log ι) : Prop where
  counted : writers.Counted log
  attributed : writers.Attributed log
  targetWhole : writers.TargetWhole log

/-! ### The rules of one writer -/

/-- What a writer may ask for, by what it did before. -/
def Permitted (actor : ι) (log : Log ι) : Call → Prop
  | .create path | .append path _ | .removeFile path =>
      ∃ count, Owns actor count log.2 ∧ path = writers.scratch actor count
  | .rename source target =>
      target = writers.target ∧
        ∃ count rendered, Owns actor count log.2 ∧
          source = writers.scratch actor count ∧
            writers.Rendered actor rendered log.2 ∧
              log.1.file source = some (encode rendered)
  | _ => True

/-- One permitted call of a writer. -/
def Performs (actor : ι) (before after : Log ι) : Prop :=
  ∃ op answer, writers.calls actor op before answer after ∧
    writers.Permitted actor before op

/-- A writer relies on the others performing permitted calls only. -/
def rules (actor : ι) : Rules (Log ι) where
  invariant := writers.Invariant
  rely before after :=
    ∃ other, other ≠ actor ∧ writers.Performs other before after
  guarantee := writers.Performs actor

/-- The calls of each writer, as long as the counters suffice. -/
abbrev boundedCalls : ι → Semantics host (Log ι) :=
  fun actor op before answer after =>
    writers.calls actor op before answer after ∧ writers.Bounded after

/-- The writer has drawn no number and changed nothing. -/
structure Fresh (actor : ι) (log : Log ι) : Prop where
  unchanged : Unchanged actor writers.target log.2
  unnumbered : ∀ count, ¬ Owns actor count log.2

/-- The writer has drawn this number only, and has not replaced the target. -/
structure Holding (actor : ι) (count : UInt64) (log : Log ι) : Prop where
  unchanged : Unchanged actor writers.target log.2
  owns : Owns actor count log.2
  only : ∀ other, Owns actor other log.2 → other = count

/-- A writer which failed changed nothing and swept up, if it could. -/
def Outcome (actor : ι) : Except ConfigError Unit → Log ι → Prop
  | .ok _, _ => True
  | .error _, log =>
      Unchanged actor writers.target log.2 ∧ Swept actor log

variable {writers} {before after : Log ι} {actor : ι}

/-! ## What a permitted call keeps -/

theorem Found.cons
    {existing : Option Text} {history : History ι}
    (found : writers.Found actor existing history)
    (event : Event host ι Disk) :
    writers.Found actor existing (event :: history) := by
  rcases found with ⟨past, member, own, finds⟩
  exact ⟨past, List.mem_cons_of_mem event member, own, finds⟩

theorem Rendered.cons
    {rendered : Text} {history : History ι}
    (computed : writers.Rendered actor rendered history)
    (event : Event host ι Disk) :
    writers.Rendered actor rendered (event :: history) := by
  rcases computed with ⟨existing, found, rendering⟩
  exact ⟨existing, found.cons event, rendering⟩

theorem ofNat_injective_below
    {left right : Nat} (leftBelow : left < 2 ^ 64)
    (rightBelow : right < 2 ^ 64)
    (equal : UInt64.ofNat left = UInt64.ofNat right) :
    left = right := by
  have values := congrArg UInt64.toNat equal
  rwa [UInt64.toNat_ofNat_of_lt' leftBelow,
    UInt64.toNat_ofNat_of_lt' rightBelow] at values

theorem numberings_cons_of_op
    {own : UInt32} {history : History ι} {event : Event host ι Disk}
    (notDrawn : event.op ≠ .fetchAdd) :
    writers.numberings own (event :: history) =
      writers.numberings own history := by
  rw [numberings, numberings, List.filterMap_cons]
  cases draws : numbering event with
  | none => rfl
  | some drawn => exact absurd (numbering_actor draws).2 notDrawn

/-- Within the bound a process draws every value of its counter once. -/
theorem Counted.step
    (counted : writers.Counted before)
    (performs : writers.Performs actor before after)
    (bounded : writers.Bounded after) :
    writers.Counted after := by
  rcases performs with ⟨op, answer, ⟨called, recorded⟩, _⟩
  intro own
  by_cases draws : op = .fetchAdd
  swap
  · rw [recorded, numberings_cons_of_op draws, flat_counter called draws]
    exact counted own
  subst draws
  rcases called with ⟨drawnCount, advanced⟩
  have room := bounded own
  by_cases same : writers.process actor = own
  swap
  · have elsewhere :
        writers.numberings own after.2 = writers.numberings own before.2 := by
      rw [recorded]
      simp [numberings, numbering, same]
    have kept : after.1.counter own = before.1.counter own := by
      rw [advanced]
      exact Function.update_of_ne (Ne.symm same) _ _
    rw [elsewhere, kept]
    exact counted own
  · subst same
    have grown :
        writers.numberings (writers.process actor) after.2 =
          (actor, answer) ::
            writers.numberings (writers.process actor) before.2 := by
      rw [recorded]
      simp [numberings, numbering]
    have moved :
        after.1.counter (writers.process actor) =
          before.1.counter (writers.process actor) + 1 := by
      rw [advanced]
      exact Function.update_self _ _ _
    rw [grown] at room ⊢
    rcases counted (writers.process actor) with ⟨value, range, nodup⟩
    generalize writers.numberings (writers.process actor) before.2 = drawn
      at room value range nodup ⊢
    rw [List.length_cons] at room
    have fresh : answer ∉ drawn.map Prod.snd := by
      intro member
      rcases List.mem_map.mp member with ⟨pair, drawnPair, equal⟩
      rcases range pair drawnPair with ⟨index, below, drawnValue⟩
      have indices : UInt64.ofNat index = UInt64.ofNat drawn.length := by
        apply (UInt64.add_left_inj
          (writers.initial.counter (writers.process actor))).mp
        rw [UInt64.add_comm, ← drawnValue, equal, drawnCount, value,
          UInt64.add_comm]
      have numbers := ofNat_injective_below (by omega) (by omega) indices
      omega
    refine ⟨?_, ?_, ?_⟩
    · rw [moved, value, List.length_cons, UInt64.ofNat_add,
        UInt64.add_assoc]
      rfl
    · intro pair member
      rcases List.mem_cons.mp member with rfl | old
      · refine ⟨drawn.length, by simp, ?_⟩
        exact drawnCount.trans value
      · rcases range pair old with ⟨index, below, drawnValue⟩
        exact ⟨index, Nat.lt_succ_of_lt below, drawnValue⟩
    · exact List.nodup_cons.mpr ⟨fresh, nodup⟩

/-- A permitted call touches the writer's own scratch files only. -/
theorem Permitted.scratch
    {call : Call} {path : Path}
    (permitted : writers.Permitted actor before call)
    (touches : Touches path call) :
    ∃ count, Owns actor count before.2 ∧
      path = writers.scratch actor count := by
  cases call with
  | create other =>
      cases touches
      exact permitted
  | append other byte =>
      cases touches
      exact permitted
  | removeFile other =>
      cases touches
      exact permitted
  | rename source target =>
      cases touches
      rcases permitted with ⟨_, count, _, owns, equal, _⟩
      exact ⟨count, owns, equal⟩
  | _ => exact touches.elim

theorem scratch_ne_target (actor : ι) (count : UInt64) :
    writers.scratch actor count ≠ writers.target :=
  writers.store.tempPath_ne_configPath _ _ _

theorem Attributed.step
    (attributed : writers.Attributed before)
    (performs : writers.Performs actor before after) :
    writers.Attributed after := by
  rcases performs with ⟨op, answer, ⟨_, recorded⟩, permitted⟩
  rw [Attributed, recorded]
  intro event member path touches
  rcases List.mem_cons.mp member with rfl | old
  · rcases permitted.scratch touches with ⟨count, owns, equal⟩
    exact ⟨count, owns.cons _, equal⟩
  · rcases attributed event old path touches with ⟨count, owns, equal⟩
    exact ⟨count, owns.cons _, equal⟩

/-- Only a rename of a whole rendering changes the target. -/
theorem TargetWhole.step
    (whole : writers.TargetWhole before)
    (performs : writers.Performs actor before after) :
    writers.TargetWhole after := by
  rcases performs with ⟨op, answer, ⟨called, recorded⟩, permitted⟩
  have kept :
      after.1.file writers.target = before.1.file writers.target →
        writers.TargetWhole after := by
    intro unchanged
    rw [TargetWhole, unchanged, recorded]
    rcases whole with same | ⟨writer, rendered, computed, holds⟩
    · exact Or.inl same
    · exact Or.inr ⟨writer, rendered, computed.cons _, holds⟩
  by_cases renames : ∃ source, op = .rename source writers.target
  · rcases renames with ⟨source, rfl⟩
    cases answer with
    | error error =>
        have unmoved : after.1 = before.1 := called
        exact kept (by rw [unmoved])
    | ok _ =>
        rcases permitted with ⟨_, count, rendered, _, _, computed, holds⟩
        rcases called with ⟨bytes, present, moved⟩
        rw [holds] at present
        cases present
        refine Or.inr ⟨actor, rendered, ?_, ?_⟩
        · rw [recorded]
          exact computed.cons _
        · rw [moved]
          exact before.1.move_file_target _ _
  · apply kept
    apply flat_keeps called
    · intro touches
      rcases permitted.scratch touches with ⟨count, _, equal⟩
      exact scratch_ne_target actor count equal.symm
    · intro source equal
      exact renames ⟨source, equal⟩

theorem Invariant.step
    (invariant : writers.Invariant before)
    (performs : writers.Performs actor before after)
    (bounded : writers.Bounded after) :
    writers.Invariant after where
  counted := invariant.counted.step performs bounded
  attributed := invariant.attributed.step performs
  targetWhole := invariant.targetWhole.step performs

/-- The scratch files of two writers are different. -/
theorem Counted.owner
    (counted : writers.Counted before)
    {other : ι} {count otherCount : UInt64}
    (owns : Owns actor count before.2)
    (otherOwns : Owns other otherCount before.2)
    (equal :
      writers.scratch actor count = writers.scratch other otherCount) :
    actor = other := by
  rcases writers.store.tempPath_injective equal with ⟨processes, rfl⟩
  rcases counted (writers.process actor) with ⟨_, _, nodup⟩
  have drawn :
      (actor, count) ∈
        writers.numberings (writers.process actor) before.2 :=
    List.mem_filter.mpr ⟨owns, by simp⟩
  have otherDrawn :
      (other, count) ∈
        writers.numberings (writers.process actor) before.2 :=
    List.mem_filter.mpr ⟨otherOwns, by simp [processes]⟩
  have pairs := List.inj_on_of_nodup_map nodup drawn otherDrawn rfl
  exact congrArg Prod.fst pairs

/-- No other writer changes a writer's scratch file. -/
theorem Invariant.scratch_kept
    (invariant : writers.Invariant before)
    {other : ι} {count : UInt64} (different : other ≠ actor)
    (owns : Owns actor count before.2)
    (performs : writers.Performs other before after) :
    after.1.file (writers.scratch actor count) =
      before.1.file (writers.scratch actor count) := by
  rcases performs with ⟨op, answer, ⟨called, _⟩, permitted⟩
  apply flat_keeps called
  · intro touches
    rcases permitted.scratch touches with ⟨otherCount, otherOwns, equal⟩
    exact different (invariant.counted.owner owns otherOwns equal).symm
  · rintro source rfl
    exact scratch_ne_target actor count permitted.1

/-- A file a writer created is its scratch file. -/
theorem Attributed.created
    {log : Log ι} (attributed : writers.Attributed log)
    {path : Path} (created : Created actor path log.2) :
    ∃ count, Owns actor count log.2 ∧
      path = writers.scratch actor count := by
  rcases created with ⟨event, member, rfl, creates⟩
  apply attributed event member path
  rw [creates]
  rfl

/-! ## What the other writers keep -/

section Stability

variable (writers actor)

theorem stable_fresh :
    (writers.rules actor).Stable (writers.Fresh actor) := by
  rintro before after _ _ ⟨other, different, op, answer, ⟨_, recorded⟩, _⟩
    fresh
  constructor
  · rw [recorded, unchanged_cons_of_ne different]
    exact fresh.unchanged
  · intro count
    rw [recorded, owns_cons_of_ne different]
    exact fresh.unnumbered count

theorem stable_holding (count : UInt64) :
    (writers.rules actor).Stable (writers.Holding actor count) := by
  rintro before after _ _ ⟨other, different, op, answer, ⟨_, recorded⟩, _⟩
    holding
  constructor
  · rw [recorded, unchanged_cons_of_ne different]
    exact holding.unchanged
  · rw [recorded, owns_cons_of_ne different]
    exact holding.owns
  · intro number
    rw [recorded, owns_cons_of_ne different]
    exact holding.only number

theorem stable_found (existing : Option Text) :
    (writers.rules actor).Stable
      fun log => writers.Found actor existing log.2 := by
  rintro before after _ _ ⟨other, _, op, answer, ⟨_, recorded⟩, _⟩ found
  rw [recorded]
  exact found.cons _

theorem stable_rendered (rendered : Text) :
    (writers.rules actor).Stable
      fun log => writers.Rendered actor rendered log.2 := by
  rintro before after _ _ ⟨other, _, op, answer, ⟨_, recorded⟩, _⟩ computed
  rw [recorded]
  exact computed.cons _

/-- A scratch file which is held stays as it is. -/
theorem stable_scratch (count : UInt64) (content : Option Bytes) :
    (writers.rules actor).Stable fun log =>
      writers.Holding actor count log ∧
        log.1.file (writers.scratch actor count) = content := by
  intro before after first last moves holds
  refine ⟨writers.stable_holding actor count before after first last moves
    holds.1, ?_⟩
  rcases moves with ⟨other, different, performs⟩
  rw [first.scratch_kept different holds.1.owns performs]
  exact holds.2

theorem stable_outcome (result : Except ConfigError Unit) :
    (writers.rules actor).Stable (writers.Outcome actor result) := by
  cases result with
  | ok _ => exact fun _ _ _ _ _ _ => trivial
  | error error =>
      rintro before after invariant _ ⟨other, different, performs⟩ holds
      rcases id performs with ⟨op, answer, ⟨_, recorded⟩, _⟩
      constructor
      · rw [recorded, unchanged_cons_of_ne different]
        exact holds.1
      · intro worked path created
        have earlier : Created actor path before.2 := by
          rcases created with ⟨event, member, own, creates⟩
          rw [recorded] at member
          rcases List.mem_cons.mp member with rfl | old
          · exact absurd own different
          · exact ⟨event, old, own, creates⟩
        rcases invariant.attributed.created earlier with ⟨count, owns, rfl⟩
        rw [invariant.scratch_kept different owns performs]
        apply holds.2 _ _ earlier
        intro event member own
        apply worked event _ own
        rw [recorded]
        exact List.mem_cons_of_mem _ member

end Stability

/-! ## What a writer's own calls keep -/

theorem Fresh.cons
    {log : Log ι} (fresh : writers.Fresh actor log)
    {event : Event host ι Disk} (unmoved : event.after = event.before)
    (notDrawn : event.op ≠ .fetchAdd) (disk : Disk) :
    writers.Fresh actor (disk, event :: log.2) where
  unchanged := unchanged_cons fresh.unchanged (by rw [unmoved])
  unnumbered count := by
    rw [owns_cons_of_op notDrawn]
    exact fresh.unnumbered count

theorem Holding.cons
    {count : UInt64} {log : Log ι}
    (holding : writers.Holding actor count log)
    {event : Event host ι Disk}
    (unmoved :
      event.after.file writers.target = event.before.file writers.target)
    (notDrawn : event.op ≠ .fetchAdd) (disk : Disk) :
    writers.Holding actor count (disk, event :: log.2) where
  unchanged := unchanged_cons holding.unchanged unmoved
  owns := holding.owns.cons event
  only other owns := by
    rw [owns_cons_of_op notDrawn] at owns
    exact holding.only other owns

/-- A writer which has drawn no number has nothing to sweep up. -/
theorem Fresh.outcome
    {log : Log ι} (fresh : writers.Fresh actor log)
    (invariant : writers.Invariant log) (error : ConfigError) :
    writers.Outcome actor (.error error) log := by
  refine ⟨fresh.unchanged, ?_⟩
  intro _ path created
  rcases invariant.attributed.created created with ⟨count, owns, _⟩
  exact absurd owns (fresh.unnumbered count)

/-- The calls which leave the disk as it is. -/
def Calm (call : Call) : Prop :=
  call.Reads ∨ call.Scaffolds

theorem Calm.step
    {call : Call} (calm : Calm call) {answer : call.Answer}
    (step : writers.boundedCalls actor call before answer after) :
    writers.Performs actor before after ∧ call ≠ .fetchAdd ∧
      after =
        (before.1,
          ⟨actor, call, answer, before.1, before.1⟩ :: before.2) := by
  rcases step with ⟨⟨called, recorded⟩, _⟩
  have unmoved : after.1 = before.1 := by
    rcases calm with reads | scaffolds
    · exact flat_reads reads called
    · exact flat_scaffolds scaffolds called
  refine ⟨⟨call, answer, ⟨called, recorded⟩, ?_⟩, ?_, ?_⟩
  · cases call with
    | create path => exact (calm.elim id id).elim
    | append path byte => exact (calm.elim id id).elim
    | removeFile path => exact (calm.elim id id).elim
    | rename source target => exact (calm.elim id id).elim
    | _ => trivial
  · rintro rfl
    exact calm.elim id id
  · exact Prod.ext unmoved (by rw [recorded, unmoved])

/-- Calm calls keep every stable assertion which tolerates their events. -/
theorem abides_calm
    {α : Type} {program : HostProgram α} (asks : Asks Calm program)
    {assertion : Log ι → Prop}
    (stable : (writers.rules actor).Stable assertion)
    (kept : ∀ log event, assertion log → event.actor = actor →
      event.after = event.before → event.op ≠ .fetchAdd →
        assertion (log.1, event :: log.2)) :
    Abides (writers.boundedCalls actor) (writers.rules actor)
      assertion program fun _ => assertion := by
  apply Abides.frame asks stable
  intro call before answer after calm _ holds step
  rcases calm.step step with ⟨performs, notDrawn, moved⟩
  refine ⟨performs, fun _ => ?_⟩
  rw [moved]
  exact kept before _ holds rfl rfl notDrawn

theorem abides_reads
    {α : Type} {program : HostProgram α} (asks : Asks Call.Reads program) :
    Abides (writers.boundedCalls actor) (writers.rules actor)
      (writers.Fresh actor) program fun _ => writers.Fresh actor := by
  apply abides_calm (asks.mono fun _ => Or.inl) (writers.stable_fresh actor)
  intro log event fresh _ unmoved notDrawn
  exact fresh.cons unmoved notDrawn log.1

/-! ## Reading the target -/

/-- The writer knows what the answer of its read stands for. -/
def Informed (writers : Writers ι) (actor : ι)
    (answer : Except IoError Text) (log : Log ι) : Prop :=
  writers.Fresh actor log ∧
    ∀ existing, StandsFor existing answer →
      writers.Found actor existing log.2

theorem stable_informed (answer : Except IoError Text) :
    (writers.rules actor).Stable (writers.Informed actor answer) := by
  intro before after first last moves informed
  refine ⟨writers.stable_fresh actor before after first last moves
    informed.1, ?_⟩
  intro existing stands
  exact writers.stable_found actor existing before after first last moves
    (informed.2 existing stands)

theorem abides_readTarget :
    Abides (writers.boundedCalls actor) (writers.rules actor)
      (writers.Fresh actor) (readToString writers.target)
      (writers.Informed actor) := by
  apply abides_readToString (writers.stable_fresh actor) stable_informed
  intro before answer after _ fresh step
  have calm : Calm (.read writers.target) := Or.inl trivial
  rcases calm.step step with ⟨performs, notDrawn, moved⟩
  refine ⟨performs, fun _ => ?_⟩
  rw [moved]
  refine ⟨fresh.cons rfl notDrawn before.1, ?_⟩
  intro existing stands
  exact ⟨_, List.mem_cons_self, rfl, rfl, stands⟩

theorem abides_readExisting :
    Abides (writers.boundedCalls actor) (writers.rules actor)
      (writers.Fresh actor) (readExisting writers.target).run
      (onOk
        (fun existing log =>
          writers.Fresh actor log ∧ writers.Found actor existing log.2)
        fun _ => writers.Fresh actor) := by
  have stable (existing : Option Text) :=
    (writers.stable_fresh actor).and (writers.stable_found actor existing)
  apply Abides.run_bind (Abides.run_lift abides_readTarget)
  intro answer
  cases answer with
  | ok content =>
      apply Abides.run_pure
      · exact stable (some content)
      · intro log _ informed
        exact ⟨informed.1, informed.2 (some content) rfl⟩
  | error error =>
      simp only
      split_ifs with absent
      · apply Abides.run_pure
        · exact stable none
        · intro log _ informed
          exact ⟨informed.1, informed.2 none ⟨absent, rfl⟩⟩
      · apply Abides.run_throw
        · exact writers.stable_fresh actor
        · intro log _ informed
          exact informed.1

/-! ## Replacing the target -/

/-- The scratch file is removed, or could not be. -/
theorem abides_discard (count : UInt64) (error : ConfigError) :
    Abides (writers.boundedCalls actor) (writers.rules actor)
      (writers.Holding actor count)
      (discard (writers.scratch actor count) error :
        StoreProgram Unit).run
      (writers.Outcome actor) := by
  have removed :
      Abides (writers.boundedCalls actor) (writers.rules actor)
        (writers.Holding actor count)
        (invoke (.removeFile (writers.scratch actor count)) :
          StoreProgram (Except IoError Unit)).run
        (onOk (fun _ => writers.Outcome actor (.error error))
          fun failed => writers.Outcome actor (.error failed)) := by
    apply Abides.run_call (writers.stable_holding actor count)
    · intro answer
      exact writers.stable_outcome actor (.error error)
    · intro before answer after invariant holding step
      rcases step with ⟨⟨called, recorded⟩, _⟩
      refine ⟨⟨_, answer, ⟨called, recorded⟩, count, holding.owns, rfl⟩, ?_⟩
      intro later
      have unmoved :
          after.1.file writers.target = before.1.file writers.target := by
        apply flat_keeps called
        · exact scratch_ne_target actor count
        · rintro source ⟨⟩
      refine ⟨?_, ?_⟩
      · rw [recorded]
        exact unchanged_cons holding.unchanged unmoved
      · intro worked path created
        rcases later.attributed.created created with ⟨number, owns, rfl⟩
        rw [recorded, owns_cons_of_op (by rintro ⟨⟩)] at owns
        rw [holding.only number owns]
        have own :
            RemovalWorked (⟨actor, .removeFile (writers.scratch actor count),
              answer, before.1, after.1⟩ : Event host ι Disk) := by
          apply worked _ _ rfl
          rw [recorded]
          exact List.mem_cons_self
        cases answer with
        | ok _ =>
            rcases called with ⟨_, moved⟩
            rw [moved]
            exact before.1.remove_file_self
        | error failure =>
            rcases called with ⟨same, honest⟩
            rw [same]
            exact honest (own failure rfl)
  apply removed.run_bind
  intro _
  apply Abides.run_throw (writers.stable_outcome actor (.error error))
  intro log _ holds
  exact holds

/-- A call which neither draws a number nor renames keeps what is held. -/
theorem Holding.step
    {count : UInt64} (holding : writers.Holding actor count before)
    {call : Call} {answer : call.Answer}
    (permitted : writers.Permitted actor before call)
    (notDrawn : call ≠ .fetchAdd)
    (notRenamed : ∀ source, call ≠ .rename source writers.target)
    (step : writers.boundedCalls actor call before answer after) :
    writers.Performs actor before after ∧
      writers.Holding actor count after ∧
        ∀ rendered, writers.Rendered actor rendered before.2 →
          writers.Rendered actor rendered after.2 := by
  rcases step with ⟨⟨called, recorded⟩, _⟩
  have unmoved :
      after.1.file writers.target = before.1.file writers.target := by
    apply flat_keeps called
    · intro touches
      rcases permitted.scratch touches with ⟨number, _, equal⟩
      exact scratch_ne_target actor number equal.symm
    · exact notRenamed
  have whole : after =
      (after.1, ⟨actor, call, answer, before.1, after.1⟩ :: before.2) :=
    Prod.ext rfl recorded
  refine ⟨⟨call, answer, ⟨called, recorded⟩, permitted⟩, ?_, ?_⟩
  · rw [whole]
    exact holding.cons unmoved notDrawn after.1
  · intro rendered computed
    rw [recorded]
    exact computed.cons _

/-- A held scratch file has this content, and the writer its rendering. -/
def Staged (writers : Writers ι) (actor : ι) (count : UInt64)
    (rendered : Text) (written : Bytes) (log : Log ι) : Prop :=
  (writers.Holding actor count log ∧
    log.1.file (writers.scratch actor count) = some written) ∧
      writers.Rendered actor rendered log.2

theorem abides_stage (count : UInt64) (rendered : Text) :
    Abides (writers.boundedCalls actor) (writers.rules actor)
      (fun log => writers.Holding actor count log ∧
        writers.Rendered actor rendered log.2)
      (writeFile (writers.scratch actor count) (encode rendered))
      (onOk
        (fun _ => writers.Staged actor count rendered (encode rendered))
        fun _ => writers.Holding actor count) := by
  apply abides_writeFile
  · exact (writers.stable_holding actor count).and
      (writers.stable_rendered actor rendered)
  · intro content
    exact (writers.stable_scratch actor count (some content)).and
      (writers.stable_rendered actor rendered)
  · intro error
    exact writers.stable_holding actor count
  · intro before answer after _ holds step
    have permitted :
        writers.Permitted actor before
          (.create (writers.scratch actor count)) :=
      ⟨count, holds.1.owns, rfl⟩
    obtain ⟨performs, held, computed⟩ :=
      holds.1.step permitted (by rintro ⟨⟩) (by rintro source ⟨⟩) step
    refine ⟨performs, fun _ => ?_⟩
    cases answer with
    | error error => exact held
    | ok _ =>
        refine ⟨⟨held, ?_⟩, computed rendered holds.2⟩
        have moved : after.1 = before.1.put _ [] := step.1.1
        rw [moved]
        exact before.1.put_file_self []
  · intro content byte before answer after _ staged step
    rcases staged with ⟨⟨holding, present⟩, known⟩
    have permitted :
        writers.Permitted actor before
          (.append (writers.scratch actor count) byte) :=
      ⟨count, holding.owns, rfl⟩
    obtain ⟨performs, held, computed⟩ :=
      holding.step permitted (by rintro ⟨⟩) (by rintro source ⟨⟩) step
    refine ⟨performs, fun _ => ?_⟩
    cases answer with
    | error error => exact held
    | ok _ =>
        refine ⟨⟨held, ?_⟩, computed rendered known⟩
        have moved : after.1 = before.1.grow _ byte := step.1.1
        rw [moved]
        exact before.1.grow_file_self byte present

theorem abides_rename (count : UInt64) (rendered : Text) :
    Abides (writers.boundedCalls actor) (writers.rules actor)
      (writers.Staged actor count rendered (encode rendered))
      (invoke (.rename (writers.scratch actor count) writers.target) :
        StoreProgram (Except IoError Unit)).run
      (onOk (onOk (fun _ _ => True) fun _ => writers.Holding actor count)
        fun error => writers.Outcome actor (.error error)) := by
  apply Abides.run_call
  · exact (writers.stable_scratch actor count _).and
      (writers.stable_rendered actor rendered)
  · intro answer
    cases answer with
    | ok _ => exact Rules.Stable.const True
    | error error => exact writers.stable_holding actor count
  · intro before answer after _ staged step
    rcases staged with ⟨⟨holding, present⟩, known⟩
    rcases step with ⟨⟨called, recorded⟩, _⟩
    have permitted :
        writers.Permitted actor before
          (.rename (writers.scratch actor count) writers.target) :=
      ⟨rfl, count, rendered, holding.owns, rfl, known, present⟩
    refine ⟨⟨_, answer, ⟨called, recorded⟩, permitted⟩, fun _ => ?_⟩
    cases answer with
    | ok _ => trivial
    | error error =>
        have unmoved : after.1 = before.1 := called
        have whole : after = (after.1, _ :: before.2) :=
          Prod.ext rfl recorded
        show writers.Holding actor count after
        rw [whole]
        apply holding.cons
        · rw [unmoved]
        · rintro ⟨⟩

theorem abides_replaceBy (count : UInt64) (rendered : Text) :
    Abides (writers.boundedCalls actor) (writers.rules actor)
      (fun log => writers.Holding actor count log ∧
        writers.Rendered actor rendered log.2)
      (replaceBy writers.target rendered (writers.scratch actor count)).run
      (writers.Outcome actor) := by
  have lifted :
      Abides (writers.boundedCalls actor) (writers.rules actor)
        (fun log => writers.Holding actor count log ∧
          writers.Rendered actor rendered log.2)
        (ExceptT.lift
          (writeFile (writers.scratch actor count) (encode rendered)) :
            StoreProgram (Except IoError Unit)).run
        (onOk
          (onOk
            (fun _ => writers.Staged actor count rendered (encode rendered))
            fun _ => writers.Holding actor count)
          fun error => writers.Outcome actor (.error error)) :=
    Abides.run_lift (abides_stage count rendered)
  apply lifted.run_bind
  intro written
  cases written with
  | error error => exact abides_discard count _
  | ok _ =>
      apply (abides_rename count rendered).run_bind
      intro renamed
      cases renamed with
      | error error => exact abides_discard count _
      | ok _ =>
          apply Abides.run_pure
          · exact writers.stable_outcome actor (.ok ())
          · intro log _ _
            trivial

/-- The writer has drawn no number and holds a rendering. -/
def Prepared (writers : Writers ι) (actor : ι) (rendered : Text)
    (log : Log ι) : Prop :=
  writers.Fresh actor log ∧ writers.Rendered actor rendered log.2

theorem stable_prepared (rendered : Text) :
    (writers.rules actor).Stable (writers.Prepared actor rendered) :=
  (writers.stable_fresh actor).and (writers.stable_rendered actor rendered)

theorem Prepared.cons
    {rendered : Text} {log : Log ι}
    (prepared : writers.Prepared actor rendered log)
    {event : Event host ι Disk} (unmoved : event.after = event.before)
    (notDrawn : event.op ≠ .fetchAdd) :
    writers.Prepared actor rendered (log.1, event :: log.2) :=
  ⟨prepared.1.cons unmoved notDrawn log.1, prepared.2.cons event⟩

/-- Drawing a number makes a fresh writer hold exactly that number. -/
theorem abides_number (rendered : Text) :
    Abides (writers.boundedCalls actor) (writers.rules actor)
      (writers.Prepared actor rendered)
      (invoke .fetchAdd : StoreProgram UInt64).run
      (onOk
        (fun count log => writers.Holding actor count log ∧
          writers.Rendered actor rendered log.2)
        fun error => writers.Outcome actor (.error error)) := by
  apply Abides.run_call (stable_prepared rendered)
  · intro count
    exact (writers.stable_holding actor count).and
      (writers.stable_rendered actor rendered)
  · intro before count after _ prepared step
    rcases step with ⟨⟨called, recorded⟩, _⟩
    refine ⟨⟨_, count, ⟨called, recorded⟩, trivial⟩, fun _ => ?_⟩
    have drawn (number : UInt64) :
        Owns actor number after.2 ↔ number = count := by
      have none_ := prepared.1.unnumbered number
      rw [Owns] at none_
      rw [recorded, Owns]
      simp [numbering, none_]
    refine ⟨⟨?_, (drawn count).mpr rfl, ?_⟩, ?_⟩
    · rw [recorded]
      apply unchanged_cons prepared.1.unchanged
      rw [called.2]
      rfl
    · intro number owns
      exact (drawn number).mp owns
    · rw [recorded]
      exact prepared.2.cons _

theorem abides_atomicWrite (rendered : Text) :
    Abides (writers.boundedCalls actor) (writers.rules actor)
      (writers.Prepared actor rendered)
      (writers.store.atomicWrite writers.target rendered).run
      (writers.Outcome actor) := by
  have scaffolded :
      Abides (writers.boundedCalls actor) (writers.rules actor)
        (writers.Prepared actor rendered)
        (ExceptT.lift (createDirAll writers.store.tempDir) :
          StoreProgram (Except IoError Unit)).run
        (onOk (fun _ => writers.Prepared actor rendered)
          fun error => writers.Outcome actor (.error error)) := by
    apply Abides.run_lift
    apply abides_calm ((asks_createDirAll _).mono fun _ => Or.inr)
      (stable_prepared rendered)
    intro log event prepared _ unmoved notDrawn
    exact prepared.cons unmoved notDrawn
  have identified :
      Abides (writers.boundedCalls actor) (writers.rules actor)
        (writers.Prepared actor rendered)
        (invoke .processId : StoreProgram UInt32).run
        (onOk
          (fun own log => own = writers.process actor ∧
            writers.Prepared actor rendered log)
          fun error => writers.Outcome actor (.error error)) := by
    apply Abides.run_call (stable_prepared rendered)
    · intro own
      exact (Rules.Stable.const _).and (stable_prepared rendered)
    · intro before own after _ prepared step
      have known : own = writers.process actor := step.1.1.2
      have calm : Calm .processId := Or.inl trivial
      rcases calm.step step with ⟨performs, notDrawn, moved⟩
      refine ⟨performs, fun _ => ⟨known, ?_⟩⟩
      rw [moved]
      exact prepared.cons rfl notDrawn
  apply scaffolded.run_bind
  intro created
  cases created with
  | error error =>
      apply Abides.run_throw
      · exact writers.stable_outcome actor (.error _)
      · intro log invariant prepared
        exact prepared.1.outcome invariant _
  | ok _ =>
      apply identified.run_bind
      intro own
      rintro log invariant ⟨rfl, prepared⟩
      refine ((abides_number rendered).run_bind ?_) log invariant prepared
      intro count
      exact abides_replaceBy count rendered

/-- A writer which fails before it draws a number keeps its rules. -/
theorem abides_fails (error : ConfigError) :
    Abides (writers.boundedCalls actor) (writers.rules actor)
      (writers.Fresh actor) (throw error : StoreProgram Unit).run
      (writers.Outcome actor) := by
  apply Abides.run_throw
  · exact writers.stable_outcome actor (.error error)
  · intro log invariant fresh
    exact fresh.outcome invariant error

/-- The program of a writer keeps its rules. -/
theorem abides_program (actor : ι) :
    Abides (writers.boundedCalls actor) (writers.rules actor)
      (writers.Fresh actor) (writers.program actor)
      (writers.Outcome actor) := by
  have contained :
      Abides (writers.boundedCalls actor) (writers.rules actor)
        (writers.Fresh actor)
        (writers.store.refuseEscapingPath writers.target).run
        (onOk (fun _ => writers.Fresh actor)
          fun error => writers.Outcome actor (.error error)) := by
    apply (abides_reads
      (writers.store.asks_refuseEscapingPath trivial
        (fun _ _ => trivial) trivial trivial)).weaken
    · intro log _ fresh
      exact fresh
    · intro result log invariant fresh
      cases result with
      | ok _ => exact fresh
      | error error => exact fresh.outcome invariant error
  have existed :
      Abides (writers.boundedCalls actor) (writers.rules actor)
        (writers.Fresh actor) (readExisting writers.target).run
        (onOk
          (fun existing log => writers.Fresh actor log ∧
            writers.Found actor existing log.2)
          fun error => writers.Outcome actor (.error error)) := by
    apply abides_readExisting.weaken
    · intro log _ fresh
      exact fresh
    · intro result log invariant holds
      cases result with
      | ok existing => exact holds
      | error error => exact holds.outcome invariant error
  apply contained.run_bind
  intro _
  apply existed.run_bind
  intro existing
  cases computed : render writers.saphyr existing (writers.document actor) with
  | error detail =>
      simp only
      refine Abides.weaken (abides_fails (malformed writers.target detail))
        ?_ fun _ _ _ outcome => outcome
      intro log _ holds
      exact holds.1
  | ok rendered =>
      simp only
      refine Abides.weaken (abides_atomicWrite rendered)
        ?_ fun _ _ _ outcome => outcome
      intro log _ holds
      exact ⟨holds.1, existing, holds.2, computed⟩

/-! ## All writers together -/

theorem compatible :
    Compatible writers.boundedCalls writers.rules writers.Invariant where
  shared _ := rfl
  preserved _ _ _ _ _ invariant step performs :=
    invariant.step performs step.2
  tolerated _ other _ _ different _ _ performs :=
    ⟨other, different.symm, performs⟩

theorem verified_start :
    Verified writers.boundedCalls writers.rules writers.Invariant
      writers.Outcome writers.start := by
  have invariant : writers.Invariant (writers.initial, []) := by
    refine ⟨?_, ?_, Or.inl rfl⟩
    · intro own
      exact ⟨by simp [numberings], by simp [numberings],
        by simp [numberings]⟩
    · intro event member
      cases member
  refine ⟨invariant, ?_⟩
  rintro actor _ ⟨⟩
  apply abides_program actor _ invariant
  constructor
  · intro event member
    cases member
  · intro count owns
    cases owns

theorem bounded_inherited
    {call : Call} {answer : call.Answer}
    (step : writers.calls actor call before answer after)
    (bounded : writers.Bounded after) :
    writers.Bounded before := by
  intro own
  have enough := bounded own
  rw [step.2] at enough
  apply Nat.le_trans _ enough
  apply List.Sublist.length_le
  exact ((List.sublist_cons_self _ _).filterMap _).filter _

theorem reaches_verified [DecidableEq ι]
    {machine : Machine host ι (Log ι) (Except ConfigError Unit)}
    (reaches : Reaches writers.calls writers.start machine)
    (bounded : writers.Bounded machine.state) :
    Verified writers.boundedCalls writers.rules writers.Invariant
      writers.Outcome machine := by
  have restricted :=
    Reaches.restrict
      (fun _ _ _ _ _ step => bounded_inherited step) reaches bounded
  exact restricted.verified compatible verified_start

end Writers

/--
Whatever fails and however the writers interleave, the target is as it was or
holds a whole rendering, no two writers use one scratch file, and a writer
which fails has neither changed the target nor, if its removals worked, left a
scratch file.
-/
theorem concurrent_writes_atomic [DecidableEq ι] (writers : Writers ι)
    (machine : Machine host ι (Log ι) (Except ConfigError Unit))
    (reaches : Reaches writers.calls writers.start machine)
    (bounded : writers.Bounded machine.state) :
    writers.TargetWhole machine.state ∧
      (∀ event ∈ machine.state.2, ∀ other ∈ machine.state.2,
        ∀ path, Touches path event.op → Touches path other.op →
          event.actor = other.actor) ∧
        ∀ actor error, machine.thread actor = some (.done (.error error)) →
          Unchanged actor writers.target machine.state.2 ∧
            Swept actor machine.state := by
  have verified := Writers.reaches_verified reaches bounded
  refine ⟨verified.1.targetWhole, ?_, ?_⟩
  · intro event member other otherMember path touches otherTouches
    rcases verified.1.attributed event member path touches with
      ⟨count, owns, equal⟩
    rcases verified.1.attributed other otherMember path otherTouches with
      ⟨otherCount, otherOwns, otherEqual⟩
    exact verified.1.counted.owner owns otherOwns (equal ▸ otherEqual)
  · intro actor error failed
    exact verified.returned Writers.compatible failed

/-- A writer for every natural number, all in one process. -/
def crowd : Writers Nat where
  process _ := 0
  document _ := .mapping [(['a'], .scalar (.string ['v']))]
  store := smallStore
  saphyr := smallSaphyr
  level := .team
  surroundings := quiet
  initial := { file := fun _ => none, counter := fun _ => 0 }

/-! ## A crowd of writers -/

/-- What is left of a writer which has drawn a number. -/
def numbered (count : UInt64) : HostProgram (Except ConfigError Unit) :=
  (replaceBy crowd.target "---\na: v\n---\n".toList
    (crowd.store.tempPath 0 count)).run

theorem crowd_advance
    {call : Call} {next : call.Answer → HostProgram (Except ConfigError Unit)}
    {answer : call.Answer} {disk after : Disk} (actor : Nat)
    (history : History Nat) (step : flat quiet 0 call disk answer after) :
    Advance (crowd.calls actor) (.ask call next, (disk, history))
      (next answer,
        (after, ⟨actor, call, answer, disk, after⟩ :: history)) :=
  ⟨call, next, answer, rfl, ⟨step, rfl⟩, rfl⟩

/-- A writer of the crowd comes to its number on its own. -/
theorem crowd_draws (actor : Nat) (disk : Disk) (history : History Nat)
    (absent : disk.file crowd.target = none) :
    ∃ later,
      ReflTransGen (Advance (crowd.calls actor))
        (crowd.program actor, (disk, history))
        (numbered (disk.counter 0), (disk.advance 0, later)) ∧
      later.filterMap numbering =
        (actor, disk.counter 0) :: history.filterMap numbering := by
  let missing : IoError := { kind := .notFound, detail := [] }
  have located :
      flat quiet 0 (.canonicalize crowd.store.configDir) disk
        (.error missing) disk :=
    rfl
  have found :
      flat quiet 0 (.read crowd.target) disk (.error missing) disk :=
    ⟨rfl, fun _ => absent⟩
  have scaffolded :
      flat quiet 0 (.createDir crowd.store.tempDir) disk (.ok ()) disk :=
    rfl
  have identified : flat quiet 0 .processId disk (0 : UInt32) disk :=
    ⟨rfl, rfl⟩
  have drawn :
      flat quiet 0 .fetchAdd disk (disk.counter 0) (disk.advance 0) :=
    ⟨rfl, rfl⟩
  apply Exists.intro
  constructor
  · apply ReflTransGen.head (crowd_advance actor history located)
    apply ReflTransGen.head (crowd_advance actor _ found)
    apply ReflTransGen.head (crowd_advance actor _ scaffolded)
    apply ReflTransGen.head (crowd_advance actor _ identified)
    apply ReflTransGen.head (crowd_advance actor _ drawn)
    exact .refl
  · rfl

/-- The first writers of the crowd have drawn their numbers. -/
theorem crowd_numbered (number : Nat) :
    ∃ machine, Reaches crowd.calls crowd.start machine ∧
      machine.state.1.file crowd.target = none ∧
        machine.state.1.counter 0 = UInt64.ofNat number ∧
          (machine.state.2.filterMap numbering).length = number ∧
            ∀ actor, machine.thread actor =
              some (if actor < number then numbered (UInt64.ofNat actor)
                else crowd.program actor) := by
  induction number with
  | zero => exact ⟨crowd.start, .refl, rfl, rfl, rfl, fun _ => rfl⟩
  | succ number induction =>
      rcases induction with
        ⟨machine, reaches, absent, counted, drawn, threads⟩
      have waiting : machine.thread number = some (crowd.program number) := by
        rw [threads, if_neg (Nat.lt_irrefl number)]
      rcases crowd_draws number machine.state.1 machine.state.2 absent with
        ⟨later, draws, numbers⟩
      refine ⟨_, reaches.trans (Reaches.alone draws waiting rfl), absent,
        ?_, ?_, ?_⟩
      · change machine.state.1.counter 0 + 1 = _
        rw [counted]
        exact (UInt64.ofNat_add number 1).symm
      · change (later.filterMap numbering).length = _
        rw [numbers, List.length_cons, drawn]
      · intro actor
        rw [counted]
        by_cases same : actor = number
        · subst same
          simp
        · have bounds : actor < number + 1 ↔ actor < number := by omega
          simp only [Function.update_of_ne same, threads, bounds]

/-- The writer has neither returned nor crashed. -/
def Live (machine : Machine host ι (Log ι) (Except ConfigError Unit))
    (actor : ι) : Prop :=
  ∃ call next, machine.thread actor = some (.ask call next)

/-- A writer of the crowd creates its scratch file and goes on. -/
theorem crowd_creates
    {machine : Machine host Nat (Log Nat) (Except ConfigError Unit)}
    {actor : Nat} {count : UInt64}
    (waiting : machine.thread actor = some (numbered count)) :
    ∃ later event, Reaches crowd.calls machine later ∧
      Live later actor ∧
        (∀ other, other ≠ actor →
          later.thread other = machine.thread other) ∧
          later.state.2 = event :: machine.state.2 ∧
            event.actor = actor ∧
              event.op = .create (crowd.store.tempPath 0 count) := by
  have asks : ∃ next call rest,
      numbered count = .ask (.create (crowd.store.tempPath 0 count)) next ∧
        next (.ok ()) = .ask call rest :=
    ⟨_, _, _, rfl, rfl⟩
  rcases asks with ⟨next, call, rest, creates, continues⟩
  have created :
      flat quiet 0 (.create (crowd.store.tempPath 0 count))
        machine.state.1 (.ok ())
        (machine.state.1.put (crowd.store.tempPath 0 count) []) :=
    rfl
  rw [creates] at waiting
  have reaches :=
    Reaches.alone (.single (crowd_advance actor machine.state.2 created))
      waiting rfl
  refine ⟨_, _, reaches, ⟨call, rest, ?_⟩, ?_, rfl, rfl, rfl⟩
  · simp [continues]
  · intro other different
    exact Function.update_of_ne different _ _

/--
Two writers of the crowd have drawn their numbers, and each has created its
scratch file.
-/
theorem concurrent_writes_atomic_two :
    ∃ machine, Reaches crowd.calls crowd.start machine ∧
      Created 0 (crowd.store.tempPath 0 0) machine.state.2 ∧
      Created 1 (crowd.store.tempPath 0 1) machine.state.2 ∧
      crowd.TargetWhole machine.state ∧
        (∀ event ∈ machine.state.2, ∀ other ∈ machine.state.2,
          ∀ path, Touches path event.op → Touches path other.op →
            event.actor = other.actor) ∧
          ∀ actor error,
            machine.thread actor = some (.done (.error error)) →
              Unchanged actor crowd.target machine.state.2 ∧
                Swept actor machine.state := by
  rcases crowd_numbered 2 with ⟨machine, reaches, _, _, drawn, threads⟩
  have first : machine.thread 0 = some (numbered 0) := by
    rw [threads, if_pos Nat.zero_lt_two]
    rfl
  have second : machine.thread 1 = some (numbered 1) := by
    rw [threads, if_pos Nat.one_lt_two]
    rfl
  rcases crowd_creates first with
    ⟨middle, event, created, _, kept, history, actor, op⟩
  rw [← kept 1 Nat.one_ne_zero] at second
  rcases crowd_creates second with
    ⟨final, other, createdToo, _, _, otherHistory, otherActor, otherOp⟩
  have silent (creation : Event host Nat Disk) (path : Path)
      (creates : creation.op = .create path) :
      numbering creation = none := by
    cases number : numbering creation with
    | none => rfl
    | some pair =>
        have draws := (numbering_actor number).2
        rw [creates] at draws
        cases draws
  have bounded : crowd.Bounded final.state := by
    intro own
    apply Nat.le_trans (List.length_filter_le _ _)
    rw [otherHistory, history,
      List.filterMap_cons_none (silent other _ otherOp),
      List.filterMap_cons_none (silent event _ op), drawn]
    decide
  have run := (reaches.trans created).trans createdToo
  refine ⟨final, run, ⟨event, ?_, actor, op⟩, ⟨other, ?_, otherActor, otherOp⟩,
    concurrent_writes_atomic crowd final run bounded⟩
  · simp [otherHistory, history]
  · simp [otherHistory]

/--
Once the counter of a process has wrapped, two live writers create one scratch
file.
-/
theorem live_writers_share_scratch :
    ¬ ∀ machine, Reaches crowd.calls crowd.start machine →
      ∀ event ∈ machine.state.2, ∀ other ∈ machine.state.2,
        ∀ path, Touches path event.op → Touches path other.op →
          Live machine event.actor → Live machine other.actor →
            event.actor = other.actor := by
  intro separate
  rcases crowd_numbered (2 ^ 64 + 1) with ⟨machine, reaches, _, _, _, threads⟩
  have first : machine.thread 0 = some (numbered 0) := by
    rw [threads, if_pos (Nat.succ_pos _)]
    rfl
  have last : machine.thread (2 ^ 64) = some (numbered 0) := by
    rw [threads, if_pos (Nat.lt_succ_self _)]
    rfl
  rcases crowd_creates first with
    ⟨middle, event, created, ⟨call, next, alive⟩, kept, history, actor, op⟩
  rw [← kept (2 ^ 64) (by decide)] at last
  rcases crowd_creates last with
    ⟨final, other, createdAgain, otherAlive, keptAgain, otherHistory,
      otherActor, otherOp⟩
  rw [← keptAgain 0 (by decide)] at alive
  have member : event ∈ final.state.2 := by
    simp [otherHistory, history]
  have otherMember : other ∈ final.state.2 := by
    simp [otherHistory]
  have shared :=
    separate final ((reaches.trans created).trans createdAgain)
      event member other otherMember (crowd.store.tempPath 0 0)
      (by rw [op]; rfl) (by rw [otherOp]; rfl)
      (actor ▸ ⟨call, next, alive⟩) (otherActor ▸ otherAlive)
  rw [actor, otherActor] at shared
  exact absurd shared (by decide)

end Luminosity.Adapters.StoreAtomicity
