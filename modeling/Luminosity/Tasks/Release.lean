import Luminosity.Tasks.Version
import Mathlib.Data.List.Chain

/-!
# The release pipeline

A pipeline job bumps the version, builds, and publishes what it built.  A
stable release is followed, in the same job, by the prerelease which opens the
next line.  A job may stop after any publish, and the next job goes on from
the version which the last publish left.

Every publish is later than all which came before exactly when no release
starts from a stable version.  A release which stopped between its publishes
leaves one, and the next release then publishes that version again: to
finalise a version which is final changes nothing.
-/

namespace Luminosity.Tasks.Release

open Luminosity.Foundation.TextSegments
open Luminosity.Foundation.SemanticVersions
open Luminosity.Tasks.Version

/-! ## Jobs -/

/-- The tag of a version. -/
def tag (version : Version) : Text :=
  'v' :: version.display

/--
`_publish`: once the files agree, what is built is committed, tagged and
released under the version they carry.
-/
def publish (anchors : Anchors) : Except Exit Version := do
  check anchors
  return read anchors

/-- The halves of the jobs: what comes before a publish, and the publish. -/
inductive Stage
  | prerelease
  | release
deriving DecidableEq, Repr

/-- `prerelease_prepare` and `release_prepare`. -/
def Stage.prepare (semver : Semver) (anchors : Anchors) :
    Stage → Anchors
  | .prerelease => (bump semver anchors [.pre]).1
  | .release => (bump semver anchors [.finalise]).1

/-- The jobs of the pipeline. -/
inductive Job
  | prerelease
  | release
deriving DecidableEq, Repr

/-- The stages of a job. -/
def Job.stages : Job → List Stage
  | .prerelease => [.prerelease]
  | .release => [.release, .prerelease]

/-- A job which stopped after some of its publishes, or after all of them. -/
structure JobRun where
  job : Job
  completed : Nat
  started : 0 < completed
  bounded : completed ≤ job.stages.length

/-- The stages which the job completed. -/
def JobRun.stages (run : JobRun) : List Stage :=
  run.job.stages.take run.completed

/-- The versions published by a sequence of stages. -/
def runStages (semver : Semver) :
    Anchors → List Stage → Except Exit (Anchors × List Version)
  | anchors, [] => .ok (anchors, [])
  | anchors, stage :: later => do
      let prepared := stage.prepare semver anchors
      let version ← publish prepared
      let (final, published) ← runStages semver prepared later
      return (final, version :: published)

/-- The versions published by a sequence of jobs. -/
def runJobs (semver : Semver) (anchors : Anchors) (runs : List JobRun) :
    Except Exit (Anchors × List Version) :=
  runStages semver anchors (runs.flatMap JobRun.stages)

/-! ## What a stage publishes -/

/-- The version which a stage publishes after another. -/
def Stage.next (semver : Semver) (version : Version) : Stage → Version
  | .prerelease => bumpToNextPrerelease semver version
  | .release => semver.finalizeVersion version

theorem Stage.prepare_eq
    (semver : Semver) (anchors : Anchors) (stage : Stage) :
    stage.prepare semver anchors =
      write (stage.next semver (read anchors)) := by
  cases stage with
  | prerelease => rfl
  | release => rfl

/-- The versions published after a version. -/
def publishedFrom (semver : Semver) : Version → List Stage → List Version
  | _, [] => []
  | version, stage :: later =>
      stage.next semver version ::
        publishedFrom semver (stage.next semver version) later

/-- Every publish succeeds, with the version which its stage leads to. -/
theorem runStages_eq
    (semver : Semver) (anchors : Anchors) (stages : List Stage) :
    ∃ final,
      runStages semver anchors stages =
        .ok (final, publishedFrom semver (read anchors) stages) := by
  induction stages generalizing anchors with
  | nil => exact ⟨anchors, rfl⟩
  | cons stage later induction =>
      rcases induction (stage.prepare semver anchors) with
        ⟨final, completes⟩
      refine ⟨final, ?_⟩
      have publishes :
          publish (stage.prepare semver anchors) =
            .ok (stage.next semver (read anchors)) := by
        rw [Stage.prepare_eq, publish, check_write]
        rfl
      have reads :
          read (stage.prepare semver anchors) =
            stage.next semver (read anchors) := by
        rw [Stage.prepare_eq]
        rfl
      rw [runStages, publishes, completes, reads]
      rfl

/-! ## One stage -/

/-- A stage is admissible unless it finalises what is final. -/
def Admissible (version : Version) (stage : Stage) : Prop :=
  ¬ (version.prerelease = none ∧ stage = .release)

section Stages

variable {semver : Semver} (lawful : semver.Lawful)
variable {version : Version} (onLine : OnLine version)
include lawful onLine

/-- Every stage leads to a stable version or to a numbered prerelease. -/
theorem next_onLine (stage : Stage) :
    OnLine (stage.next semver version) := by
  cases stage with
  | prerelease =>
      exact Or.inr (bumpToNextPrerelease_later lawful onLine).2
  | release =>
      left
      rw [Stage.next, lawful.finalize_version]

/-- Exactly the release stages lead to a stable version. -/
theorem next_stable_iff (stage : Stage) :
    (stage.next semver version).prerelease = none ↔ stage = .release := by
  cases stage with
  | prerelease =>
      rcases (bumpToNextPrerelease_later lawful onLine).2 with
        ⟨number, isNumbered⟩
      rw [Stage.next, isNumbered]
      simp
  | release =>
      rw [Stage.next, lawful.finalize_version]
      simp

/-- Exactly the admissible stages lead to a later version. -/
theorem precedes_next_iff (stage : Stage) :
    Precedes version (stage.next semver version) ↔
      Admissible version stage := by
  constructor
  · rintro later ⟨stable, rfl⟩
    rw [Stage.next, finalizeVersion_stable lawful stable] at later
    exact later.irrefl
  · intro admissible
    cases stage with
    | prerelease => exact (bumpToNextPrerelease_later lawful onLine).1
    | release =>
        cases present : version.prerelease with
        | none => exact absurd ⟨present, rfl⟩ admissible
        | some prerelease => exact finalizeVersion_later lawful present

end Stages

/-! ## Whole runs -/

/-- A release stage does not follow a release stage. -/
def Follows (first second : Stage) : Prop :=
  ¬ (first = .release ∧ second = .release)

/-- Versions rise along stages of which no release follows a release. -/
theorem published_rises_iff
    {semver : Semver} (lawful : semver.Lawful)
    {version : Version} (onLine : OnLine version)
    (stages : List Stage) :
    (version :: publishedFrom semver version stages).IsChain Precedes ↔
      (∀ stage ∈ stages.head?, Admissible version stage) ∧
        stages.IsChain Follows := by
  induction stages generalizing version with
  | nil => simp [publishedFrom]
  | cons stage later induction =>
      have admits :
          ∀ next,
            Admissible (stage.next semver version) next ↔
              Follows stage next := by
        intro next
        rw [Admissible, next_stable_iff lawful onLine, Follows]
      rw [publishedFrom, List.isChain_cons_cons,
        precedes_next_iff lawful onLine,
        induction (next_onLine lawful onLine stage), List.isChain_cons]
      simp only [admits, List.head?_cons, Option.mem_some_iff,
        forall_eq']

/-- What the first stage publishes is later, when it is admissible. -/
theorem first_precedes
    {semver : Semver} (lawful : semver.Lawful)
    {version : Version} (onLine : OnLine version)
    {stages : List Stage}
    (begins : ∀ stage ∈ stages.head?, Admissible version stage) :
    ∀ first ∈ (publishedFrom semver version stages).head?,
      Precedes version first := by
  intro first isFirst
  cases stages with
  | nil => cases isFirst
  | cons stage later =>
      cases isFirst
      exact (precedes_next_iff lawful onLine stage).mpr (begins stage rfl)

/-- Every version published is stable or a numbered prerelease. -/
theorem published_onLine
    {semver : Semver} (lawful : semver.Lawful)
    {version : Version} (onLine : OnLine version)
    {stages : List Stage} {later : Version}
    (member : later ∈ publishedFrom semver version stages) :
    OnLine later := by
  induction stages generalizing version with
  | nil => cases member
  | cons stage stages induction =>
      have next := next_onLine lawful onLine stage
      rcases List.mem_cons.mp member with rfl | member
      · exact next
      · exact induction next member

/-- The job stopped right after its stable publish. -/
def JobRun.StopsStable (run : JobRun) : Prop :=
  run.job = .release ∧ run.completed = 1

/-- What a job can have completed. -/
theorem JobRun.stages_cases (run : JobRun) :
    (run.stages = [.prerelease] ∧ run.job = .prerelease) ∨
      (run.stages = [.release] ∧ run.job = .release ∧ run.completed = 1) ∨
      (run.stages = [.release, .prerelease] ∧ run.job = .release ∧
        run.completed = 2) := by
  rcases run with ⟨job, completed, started, bounded⟩
  cases job with
  | prerelease =>
      left
      have one : completed = 1 := by
        simp only [Job.stages, List.length_singleton] at bounded
        omega
      subst one
      exact ⟨rfl, rfl⟩
  | release =>
      right
      have some : completed = 1 ∨ completed = 2 := by
        simp only [Job.stages, List.length_cons, List.length_nil] at bounded
        omega
      rcases some with rfl | rfl
      · exact Or.inl ⟨rfl, rfl, rfl⟩
      · exact Or.inr ⟨rfl, rfl, rfl⟩

/-- The second job does not start from the stable version of the first. -/
def Resumes (first second : JobRun) : Prop :=
  ¬ (first.StopsStable ∧ second.job = .release)

theorem JobRun.last_stage
    (run : JobRun) (stage : Stage)
    (last : stage ∈ run.stages.getLast?) :
    stage = .release ↔ run.StopsStable := by
  rcases run.stages_cases with
    ⟨stages, job⟩ | ⟨stages, job, completed⟩ | ⟨stages, job, completed⟩
  all_goals
    rw [stages] at last
    cases last
    simp [JobRun.StopsStable, *]

theorem JobRun.first_stage
    (run : JobRun) (stage : Stage)
    (first : stage ∈ run.stages.head?) :
    stage = .release ↔ run.job = .release := by
  rcases run.stages_cases with
    ⟨stages, job⟩ | ⟨stages, job, completed⟩ | ⟨stages, job, completed⟩
  all_goals
    rw [stages] at first
    cases first
    simp [job]

/-- Within a job no release follows a release: only the seams matter. -/
theorem follows_iff_resumes (runs : List JobRun) :
    (runs.flatMap JobRun.stages).IsChain Follows ↔
      runs.IsChain Resumes := by
  have nonempty : ∀ run : JobRun, run.stages ≠ [] := by
    intro run empty
    rcases run.stages_cases with
      ⟨stages, _⟩ | ⟨stages, _⟩ | ⟨stages, _⟩
    all_goals
      rw [stages] at empty
      cases empty
  have within : ∀ run : JobRun, run.stages.IsChain Follows := by
    intro run
    rcases run.stages_cases with
      ⟨stages, _⟩ | ⟨stages, _⟩ | ⟨stages, _⟩
    all_goals
      rw [stages]
      simp [Follows]
  have seams : ∀ first second : JobRun,
      (∀ last ∈ first.stages.getLast?, ∀ head ∈ second.stages.head?,
        Follows last head) ↔ Resumes first second := by
    intro first second
    rcases Option.isSome_iff_exists.mp
        (List.getLast?_isSome.mpr (nonempty first)) with ⟨last, isLast⟩
    rcases Option.isSome_iff_exists.mp
        (List.isSome_head?.mpr (nonempty second)) with ⟨head, isHead⟩
    rw [isLast, isHead]
    simp only [Option.mem_some_iff, forall_eq', Follows, Resumes,
      first.last_stage last isLast, second.first_stage head isHead]
  rw [List.flatMap_def, List.isChain_flatten]
  · rw [List.isChain_map]
    simp only [seams]
    constructor
    · exact And.right
    · intro resumes
      refine ⟨?_, resumes⟩
      intro stages member
      rcases List.mem_map.mp member with ⟨run, _, rfl⟩
      exact within run
  · intro member
    rcases List.mem_map.mp member with ⟨run, _, empty⟩
    exact nonempty run empty

/--
Every version is later than all those published before it, and no two of them
have one tag.
-/
def Increases (published : List Version) : Prop :=
  published.Pairwise Precedes ∧ (published.map tag).Nodup

/-- Versions which rise have tags of their own. -/
theorem nodup_tags
    {published : List Version}
    (onLine : ∀ version ∈ published, OnLine version)
    (rises : published.Pairwise Precedes) :
    (published.map tag).Nodup := by
  rw [List.Nodup, List.pairwise_map]
  apply rises.imp_of_mem
  intro earlier later earlierMember laterMember precedes same
  have equal :=
    display_injective (onLine earlier earlierMember).wellFormed
      (onLine later laterMember).wellFormed (List.cons.inj same).2
  rw [equal] at precedes
  exact precedes.irrefl

/--
From a prerelease, every sequence of jobs publishes.  The versions it
publishes increase exactly when no release starts right after a release which
stopped at its stable publish.
-/
theorem published_increase_iff
    {semver : Semver} (lawful : semver.Lawful)
    (anchors : Anchors) (number : Nat)
    (starts :
      (read anchors).prerelease = some (numbered number))
    (runs : List JobRun) :
    ∃ final published,
      runJobs semver anchors runs = .ok (final, published) ∧
        (Increases published ↔ runs.IsChain Resumes) := by
  have onLine : OnLine (read anchors) := Or.inr ⟨number, starts⟩
  rcases runStages_eq semver anchors (runs.flatMap JobRun.stages) with
    ⟨final, completes⟩
  refine ⟨final, _, completes, ?_⟩
  have begins :
      ∀ stage ∈ (runs.flatMap JobRun.stages).head?,
        Admissible (read anchors) stage := by
    rintro stage _ ⟨stable, _⟩
    rw [starts] at stable
    cases stable
  have rises := published_rises_iff lawful onLine
    (runs.flatMap JobRun.stages)
  rw [follows_iff_resumes] at rises
  constructor
  · rintro ⟨increases, _⟩
    have chain :
        (read anchors :: publishedFrom semver (read anchors)
          (runs.flatMap JobRun.stages)).IsChain Precedes := by
      rw [List.isChain_cons]
      constructor
      · exact first_precedes lawful onLine begins
      · exact increases.isChain
    exact (rises.mp chain).2
  · intro resumes
    have chain := rises.mpr ⟨begins, resumes⟩
    have increases := (List.isChain_iff_pairwise.mp chain).of_cons
    exact ⟨increases,
      nodup_tags (fun _ => published_onLine lawful onLine) increases⟩

/-! ## A run which publishes a version twice -/

/-- Increment the trailing number. -/
def incrementTrailing : List Identifier → List Identifier
  | [] => []
  | [.numeric number] => [.numeric (number + 1)]
  | identifier :: later => identifier :: incrementTrailing later

theorem incrementTrailing_append
    (front : List Identifier) (number : Nat) :
    incrementTrailing (front ++ [.numeric number]) =
      front ++ [.numeric (number + 1)] := by
  induction front with
  | nil => rfl
  | cons head tail induction =>
      rw [List.cons_append, incrementTrailing, induction]
      · rfl
      · intro value
        simp

/-- The version library, for prereleases whose last identifier counts. -/
def smallSemver : Semver where
  bumpMajor version := ⟨version.major + 1, 0, 0, none⟩
  bumpMinor version := ⟨version.major, version.minor + 1, 0, none⟩
  bumpPatch version :=
    ⟨version.major, version.minor, version.patch + 1, none⟩
  bumpPrerelease token version :=
    { version with
      prerelease :=
        match version.prerelease with
        | none => some ⟨.textual token, [.numeric 1]⟩
        | some prerelease =>
            some ⟨prerelease.first, incrementTrailing prerelease.rest⟩ }
  finalizeVersion version := { version with prerelease := none }
  nextVersion _ _ version :=
    -- The part is the minor one wherever the tasks ask for it.
    if version.prerelease.isSome ∧ version.patch = 0 then
      { version with prerelease := none }
    else
      ⟨version.major, version.minor + 1, 0, none⟩

theorem smallSemver_lawful : smallSemver.Lawful where
  finalize_version _ := rfl
  bump_minor _ := rfl
  bump_prerelease_start := by
    intro version stable
    simp only [smallSemver, stable]
  bump_prerelease_next := by
    intro version first front number present
    simp only [smallSemver, present, incrementTrailing_append]

/-- The files of the first prerelease. -/
def firstPrerelease : Anchors :=
  write ⟨0, 1, 0, some (numbered 1)⟩

/-- A release which stopped after its stable publish. -/
def stoppedRelease : JobRun where
  job := .release
  completed := 1
  started := by decide
  bounded := by decide

/-- A release which completed. -/
def completeRelease : JobRun where
  job := .release
  completed := 2
  started := by decide
  bounded := by decide

theorem published_increase_iff_small :
    ∃ final published,
      runJobs smallSemver firstPrerelease
          [completeRelease, stoppedRelease] =
        .ok (final, published) ∧
        (Increases published ↔
          [completeRelease, stoppedRelease].IsChain Resumes) :=
  published_increase_iff smallSemver_lawful firstPrerelease 1 rfl _

/-- A release after a stopped one publishes the stable version again. -/
theorem stable_published_twice :
    smallSemver.Lawful ∧
      ∃ final,
        runJobs smallSemver firstPrerelease
            [stoppedRelease, completeRelease] =
          .ok (final,
            [⟨0, 1, 0, none⟩, ⟨0, 1, 0, none⟩,
              ⟨0, 2, 0, some (numbered 1)⟩]) ∧
          ¬ Increases
            [⟨0, 1, 0, none⟩, ⟨0, 1, 0, none⟩,
              ⟨0, 2, 0, some (numbered 1)⟩] := by
  refine ⟨smallSemver_lawful, write ⟨0, 2, 0, some (numbered 1)⟩, ?_, ?_⟩
  · rfl
  · rintro ⟨_, tags⟩
    exact absurd List.mem_cons_self (List.nodup_cons.mp tags).1

end Luminosity.Tasks.Release
