import Luminosity.Commands.Context
import Luminosity.Commands.Instructions

/-!
# What the fail-safe boundary promises

A degraded run of either command succeeds, and its standard output is put
together from one part for each source, which depends on that source alone.
Where no source fails the policy makes no difference to standard output; where
one fails, a run which must fail writes nothing to it.
-/

namespace Luminosity.Commands.FailSafe

open Luminosity.Foundation.TextSegments
open Luminosity.Config.Domain
open Luminosity.Config.FragmentAssembler
open Luminosity.Commands.Support
open Luminosity.Commands

/-! ## The parts of the output -/

/-- The part of a source: its fragment as a block, or the notice it failed. -/
def part
    (render : Fragment → Text) (renderUnavailable : ConfigError → Text)
    (assembled : Except ConfigError Assembly) : Option Text :=
  match assembled with
  | .ok assembly => assembly.fragment.map render
  | .error error => some (renderUnavailable error)

/-- The part of a raw skill name and of what its source assembled. -/
def namedPart
    (render : SkillName → Fragment → Text)
    (renderUnavailable : ConfigError → Text)
    (raw : Text) (assembled : Except ConfigError Assembly) : Option Text :=
  match SkillName.parse raw with
  | .ok name => part (render name) renderUnavailable assembled
  | .error error => some (renderUnavailable error)

def projectPart : Except ConfigError Assembly → Option Text :=
  part Context.renderProject Context.renderProjectUnavailable

def skillPart : Text → Except ConfigError Assembly → Option Text :=
  namedPart Context.renderSkill Context.renderSkillUnavailable

def instructionsPart : Text → Except ConfigError Assembly → Option Text :=
  namedPart Instructions.renderInstructions
    Instructions.renderInstructionsUnavailable

/-- What the source of a raw name assembles; an invalid name fails. -/
def assembleNamed
    (assembler : AssembleFragment) (source : SkillName → FragmentSource)
    (raw : Text) : Except ConfigError Assembly :=
  match SkillName.parse raw with
  | .ok name => assembler.assemble (source name)
  | .error error => .error error

/-- What is printed of two parts: nothing when both are absent. -/
def blocks : Option Text → Option Text → Text
  | none, none => []
  | some first, none => first ++ "\n".toList
  | none, some second => second ++ "\n".toList
  | some first, some second =>
      first ++ "\n\n".toList ++ second ++ "\n".toList

/-! ## The promise of either command -/

/-- The source assembles. -/
def Succeeds (assembled : Except ConfigError Assembly) : Prop :=
  ∃ assembly, assembled = .ok assembly

/--
What a command promises which was run under both policies: `healthy` says that
no source it was asked for fails, and `output` is what it then prints, or
prints of the failures.
-/
structure Boundary
    (run : OnFailure → Except ConfigError Unit × Output)
    (healthy : Prop) (output : Text) : Prop where
  succeeds : (run .degrade).1 = .ok ()
  stdout : (run .degrade).2.stdout = output
  same : healthy → (run .fail).2.stdout = (run .degrade).2.stdout
  fails :
    ¬ healthy →
      ∃ error, (run .fail).1 = .error error ∧ (run .fail).2.stdout = []

variable (assembler : AssembleFragment) (skill : Option Text)
variable (explain : Bool)

def runContext (onFailure : OnFailure) : Except ConfigError Unit × Output :=
  execute (Context.run assembler { skill, explain, onFailure })

def runInstructions (onFailure : OnFailure) :
    Except ConfigError Unit × Output :=
  execute (Instructions.run assembler { skill, explain, onFailure })

/-- No source of the `context` command fails, and the name is valid. -/
def ContextHealthy : Prop :=
  Succeeds (assembler.assemble .projectContext) ∧
    ∀ raw ∈ skill, Succeeds (assembleNamed assembler .skillContext raw)

/-- The source of the `instructions` command assembles for a valid name. -/
def InstructionsHealthy : Prop :=
  ∀ raw ∈ skill, Succeeds (assembleNamed assembler .skillInstructions raw)

def contextOutput : Text :=
  blocks (projectPart (assembler.assemble .projectContext))
    (skill.bind fun raw =>
      skillPart raw (assembleNamed assembler .skillContext raw))

def instructionsOutput : Text :=
  blocks none
    (skill.bind fun raw =>
      instructionsPart raw (assembleNamed assembler .skillInstructions raw))

/-! ## Printing and explaining -/

/-- Joining the blocks and printing the result prints the two parts. -/
theorem blocks_joinBlocks (first second : Option Text) :
    blocks none (Context.joinBlocks first second) = blocks first second := by
  cases first with
  | none =>
      cases second with
      | none => rfl
      | some second => simp [Context.joinBlocks, blocks, List.intercalate]
  | some first =>
      cases second with
      | none => simp [Context.joinBlocks, blocks, List.intercalate]
      | some second => simp [Context.joinBlocks, blocks, List.intercalate]

/-- The run which prints a block and then explains. -/
def shown (block : Option Text) (explain : Bool)
    (lines : Except ConfigError (List Text)) : Command Unit := do
  printed block
  explained explain lines

theorem execute_shown
    (block : Option Text) (explain : Bool)
    (lines : Except ConfigError (List Text)) :
    execute (shown block explain lines) =
      (explained explain lines).run.run
        { stdout := blocks none block, stderr := [] } := by
  cases block with
  | none => rfl
  | some block => rfl

theorem stdout_shown
    (block : Option Text) (explain : Bool)
    (lines : Except ConfigError (List Text)) :
    (execute (shown block explain lines)).2.stdout = blocks none block := by
  rw [execute_shown, run_explained]

theorem shown_ok
    (block : Option Text) (explain : Bool) (lines : List Text) :
    (execute (shown block explain (.ok lines))).1 = .ok () := by
  rw [execute_shown, run_explained_ok]

/-- An absorbed diagnostic succeeds. -/
theorem degradeExplain_degrade (lines : Except ConfigError (List Text)) :
    ∃ shown, degradeExplain lines .degrade = .ok shown := by
  cases lines with
  | error error => exact ⟨_, absorbing_degrade _ error⟩
  | ok lines => exact ⟨lines, rfl⟩

/-! ## Resolving under a policy -/

/--
Under `degrade` this value is resolved, whatever fails; the policy makes no
difference while `healthy`, and resolving fails under `fail` otherwise.
-/
structure Follows {α : Type}
    (resolve : OnFailure → Except ConfigError α) (value : α)
    (healthy : Prop) : Prop where
  degrades : resolve .degrade = .ok value
  same : healthy → resolve .fail = .ok value
  fails : ¬ healthy → ∃ error, resolve .fail = .error error

section Following

variable {α β : Type}

theorem Follows.always (value : α) :
    Follows (fun _ => .ok value) value True := by
  constructor
  · rfl
  · exact fun _ => rfl
  · exact fun unhealthy => absurd trivial unhealthy

theorem Follows.bind
    {resolve : OnFailure → Except ConfigError α} {value : α}
    {next : OnFailure → α → Except ConfigError β} {result : β}
    {healthy after : Prop}
    (follows : Follows resolve value healthy)
    (continued : Follows (fun policy => next policy value) result after) :
    Follows (fun policy => resolve policy >>= next policy) result
      (healthy ∧ after) := by
  constructor
  · show resolve .degrade >>= next .degrade = _
    rw [follows.degrades]
    exact continued.degrades
  · intro both
    show resolve .fail >>= next .fail = _
    rw [follows.same both.1]
    exact continued.same both.2
  · intro unhealthy
    show ∃ error, resolve .fail >>= next .fail = .error error
    by_cases health : healthy
    · rw [follows.same health]
      exact continued.fails fun afterwards => unhealthy ⟨health, afterwards⟩
    · rcases follows.fails health with ⟨error, failed⟩
      rw [failed]
      exact ⟨error, rfl⟩

theorem Follows.map
    {resolve : OnFailure → Except ConfigError α} {value : α}
    {healthy : Prop} (follows : Follows resolve value healthy) (f : α → β) :
    Follows (fun policy => resolve policy >>= fun found => pure (f found))
      (f value) healthy := by
  constructor
  · show resolve .degrade >>= _ = _
    rw [follows.degrades]
    rfl
  · intro health
    show resolve .fail >>= _ = _
    rw [follows.same health]
    rfl
  · intro unhealthy
    rcases follows.fails unhealthy with ⟨error, failed⟩
    refine ⟨error, ?_⟩
    show resolve .fail >>= _ = _
    rw [failed]
    rfl

theorem Follows.congr
    {resolve : OnFailure → Except ConfigError α} {value : α}
    {healthy same : Prop} (follows : Follows resolve value healthy)
    (equivalent : healthy ↔ same) :
    Follows resolve value same := by
  constructor
  · exact follows.degrades
  · exact fun holds => follows.same (equivalent.mpr holds)
  · exact fun fails => follows.fails fun holds => fails (equivalent.mp holds)

/-- The outcome of a source when its failure is absorbed. -/
def outcomeOf (assembled : Except ConfigError Assembly) : Outcome :=
  match assembled with
  | .ok assembly => .assembled assembly
  | .error error => .degraded error

theorem follows_assemble (source : FragmentSource) :
    Follows (assemble assembler source) (outcomeOf (assembler.assemble source))
      (Succeeds (assembler.assemble source)) := by
  constructor
  · rw [assemble]
    cases assembler.assemble source with
    | error error => rfl
    | ok assembly => rfl
  · rintro ⟨assembly, assembled⟩
    rw [assemble, assembled]
    rfl
  · intro unhealthy
    rw [assemble]
    cases assembled : assembler.assemble source with
    | error error => exact ⟨error, rfl⟩
    | ok assembly => exact absurd ⟨assembly, assembled⟩ unhealthy

/-- The section of a raw name: of its outcome, or of the rejected name. -/
def sectionOf
    (source : SkillName → FragmentSource) (resolved : SkillName → Outcome → α)
    (unresolved : ConfigError → α) (raw : Text) : α :=
  match SkillName.parse raw with
  | .ok name => resolved name (outcomeOf (assembler.assemble (source name)))
  | .error error => unresolved error

/-- A raw name is parsed and its source assembled inside the boundary. -/
theorem follows_named
    (source : SkillName → FragmentSource) (resolved : SkillName → Outcome → α)
    (unresolved : ConfigError → α) (raw : Text) :
    Follows
      (fun policy => do
        match ← resolveSkillName raw policy with
        | .invalid error => return unresolved error
        | .parsed name => do
            let outcome ← assemble assembler (source name) policy
            return resolved name outcome)
      (sectionOf assembler source resolved unresolved raw)
      (Succeeds (assembleNamed assembler source raw)) := by
  simp only [sectionOf, assembleNamed, resolveSkillName]
  cases SkillName.parse raw with
  | error error =>
      constructor
      · rfl
      · rintro ⟨assembly, assembled⟩
        cases assembled
      · exact fun _ => ⟨error, rfl⟩
  | ok name =>
      exact (follows_assemble assembler (source name)).map (resolved name)

end Following

/-! ## From what is resolved to the boundary -/

/--
The boundary of a command which resolves its sections under the policy, prints
their block and then explains them.
-/
theorem Follows.boundary {Sections : Type} {explain : Bool}
    {run : OnFailure → Except ConfigError Unit × Output}
    {resolve : OnFailure → Except ConfigError Sections}
    {block : Sections → Option Text}
    {lines : Sections → Except ConfigError (List Text)}
    {sections : Sections} {healthy : Prop} {output : Text}
    (follows : Follows resolve sections healthy)
    (resolved :
      ∀ policy sections, resolve policy = .ok sections →
        run policy =
          execute (shown (block sections) explain
            (degradeExplain (lines sections) policy)))
    (failed :
      ∀ policy error, resolve policy = .error error →
        run policy = (.error error, { stdout := [], stderr := [] }))
    (same : blocks none (block sections) = output) :
    Boundary run healthy output := by
  have whole := resolved .degrade sections follows.degrades
  have printedOutput : (run .degrade).2.stdout = output := by
    rw [whole, stdout_shown, same]
  constructor
  · rcases degradeExplain_degrade (lines sections) with ⟨absorbed, explained⟩
    rw [whole, explained, shown_ok]
  · exact printedOutput
  · intro health
    rw [resolved .fail sections (follows.same health), stdout_shown, same,
      printedOutput]
  · intro unhealthy
    rcases follows.fails unhealthy with ⟨error, failure⟩
    refine ⟨error, ?_, ?_⟩
    · rw [failed .fail error failure]
    · rw [failed .fail error failure]

theorem part_outcomeOf
    {render : Fragment → Text} {renderUnavailable : ConfigError → Text}
    {block : Outcome → Option Text}
    (ofAssembled :
      ∀ assembly, block (.assembled assembly) = assembly.fragment.map render)
    (ofDegraded :
      ∀ error, block (.degraded error) = some (renderUnavailable error))
    (assembled : Except ConfigError Assembly) :
    block (outcomeOf assembled) = part render renderUnavailable assembled := by
  cases assembled with
  | error error => exact ofDegraded error
  | ok assembly => exact ofAssembled assembly

theorem namedPart_sectionOf {α : Type}
    {render : SkillName → Fragment → Text}
    {renderUnavailable : ConfigError → Text}
    {source : SkillName → FragmentSource} {resolved : SkillName → Outcome → α}
    {unresolved : ConfigError → α} {block : α → Option Text}
    (ofAssembled :
      ∀ name assembly, block (resolved name (.assembled assembly)) =
        assembly.fragment.map (render name))
    (ofDegraded :
      ∀ name error,
        block (resolved name (.degraded error)) =
          some (renderUnavailable error))
    (ofUnresolved :
      ∀ error, block (unresolved error) = some (renderUnavailable error))
    (raw : Text) :
    block (sectionOf assembler source resolved unresolved raw) =
      namedPart render renderUnavailable raw
        (assembleNamed assembler source raw) := by
  rw [sectionOf, namedPart, assembleNamed]
  cases SkillName.parse raw with
  | error error => exact ofUnresolved error
  | ok name =>
      exact @part_outcomeOf (render name) renderUnavailable
        (fun outcome => block (resolved name outcome)) (ofAssembled name)
        (ofDegraded name) (assembler.assemble (source name))

/-! ## The two commands -/

section Context

theorem follows_project :
    Follows
      (fun onFailure =>
        Context.resolveProject assembler { skill, explain, onFailure })
      (.resolved .project (outcomeOf (assembler.assemble .projectContext)))
      (Succeeds (assembler.assemble .projectContext)) :=
  (follows_assemble assembler .projectContext).map
    (Context.Section.resolved .project)

/-- The section of the skill the `context` command was asked for. -/
def contextSkill : Option Text → Option Context.Section
  | none => none
  | some raw =>
      sectionOf assembler .skillContext
        (fun name outcome =>
          some (Context.Section.resolved (.skill name) outcome))
        (fun error => some (Context.Section.unresolved error)) raw

theorem follows_skill :
    Follows
      (fun onFailure =>
        Context.resolveSkill assembler { skill, explain, onFailure })
      (contextSkill assembler skill)
      (∀ raw ∈ skill,
        Succeeds (assembleNamed assembler .skillContext raw)) := by
  cases skill with
  | none =>
      have follows := Follows.always (none : Option Context.Section)
      apply follows.congr
      simp
  | some raw =>
      have follows :=
        follows_named assembler .skillContext
          (fun name outcome =>
            some (Context.Section.resolved (.skill name) outcome))
          (fun error => some (Context.Section.unresolved error)) raw
      apply follows.congr
      simp

theorem block_contextSkill :
    (contextSkill assembler skill).bind Context.sectionBlock =
      skill.bind fun raw =>
        skillPart raw (assembleNamed assembler .skillContext raw) := by
  cases skill with
  | none => rfl
  | some raw =>
      exact @namedPart_sectionOf assembler _ Context.renderSkill
        Context.renderSkillUnavailable .skillContext
        (fun name outcome =>
          some (Context.Section.resolved (.skill name) outcome))
        (fun error => some (Context.Section.unresolved error))
        (Option.bind · Context.sectionBlock)
        (fun _ _ => rfl) (fun _ _ => rfl) (fun _ => rfl) raw

theorem context_boundary :
    Boundary (runContext assembler skill explain)
      (ContextHealthy assembler skill) (contextOutput assembler skill) := by
  have follows :
      Follows
        (fun onFailure =>
          Context.resolve assembler { skill, explain, onFailure })
        { project :=
            .resolved .project
              (outcomeOf (assembler.assemble .projectContext))
          skill := contextSkill assembler skill }
        (ContextHealthy assembler skill) :=
    (follows_project assembler skill explain).bind
      ((follows_skill assembler skill explain).map
        fun found => Context.Resolution.mk _ found)
  apply @Follows.boundary _ explain _ _
    (fun resolution =>
      Context.joinBlocks (Context.sectionBlock resolution.project)
        (resolution.skill.bind Context.sectionBlock))
    (fun resolution =>
      Context.explain assembler resolution.project resolution.skill)
    _ _ _ follows
  · intro policy resolution resolved
    rw [runContext, Context.run, resolved]
    rfl
  · intro policy error failed
    rw [runContext, Context.run, failed]
    rfl
  · have project :
        Context.block .project
            (outcomeOf (assembler.assemble .projectContext)) =
          projectPart (assembler.assemble .projectContext) :=
      @part_outcomeOf _ _ (Context.block .project) (fun _ => rfl)
        (fun _ => rfl) _
    rw [blocks_joinBlocks, block_contextSkill, contextOutput, ← project]
    rfl

end Context

section Instructions

/-- The section of the skill the `instructions` command was asked for. -/
def instructionsSkill : Option Text → Option Instructions.Section
  | none => none
  | some raw =>
      sectionOf assembler .skillInstructions
        (fun name outcome => some (Instructions.Section.resolved name outcome))
        (fun error => some (Instructions.Section.unresolved error)) raw

theorem follows_instructions :
    Follows
      (fun onFailure =>
        Instructions.resolve assembler { skill, explain, onFailure })
      (instructionsSkill assembler skill)
      (InstructionsHealthy assembler skill) := by
  cases skill with
  | none =>
      have follows := Follows.always (none : Option Instructions.Section)
      apply follows.congr
      simp [InstructionsHealthy]
  | some raw =>
      have follows :=
        follows_named assembler .skillInstructions
          (fun name outcome =>
            some (Instructions.Section.resolved name outcome))
          (fun error => some (Instructions.Section.unresolved error)) raw
      apply follows.congr
      simp [InstructionsHealthy]

theorem block_instructionsSkill :
    (instructionsSkill assembler skill).bind Instructions.sectionBlock =
      skill.bind fun raw =>
        instructionsPart raw
          (assembleNamed assembler .skillInstructions raw) := by
  cases skill with
  | none => rfl
  | some raw =>
      exact @namedPart_sectionOf assembler _ Instructions.renderInstructions
        Instructions.renderInstructionsUnavailable .skillInstructions
        (fun name outcome => some (Instructions.Section.resolved name outcome))
        (fun error => some (Instructions.Section.unresolved error))
        (Option.bind · Instructions.sectionBlock)
        (fun _ _ => rfl) (fun _ _ => rfl) (fun _ => rfl) raw

theorem instructions_boundary :
    Boundary (runInstructions assembler skill explain)
      (InstructionsHealthy assembler skill)
      (instructionsOutput assembler skill) := by
  apply @Follows.boundary _ explain _ _
    (fun resolved => resolved.bind Instructions.sectionBlock)
    (fun resolved => Instructions.explain assembler resolved)
    _ _ _ (follows_instructions assembler skill explain)
  · intro policy resolved same
    rw [runInstructions, Instructions.run, same]
    rfl
  · intro policy error failed
    rw [runInstructions, Instructions.run, failed]
    rfl
  · rw [block_instructionsSkill, instructionsOutput]

end Instructions

/--
Both commands keep the boundary, whatever the assembler answers: the parts a
degraded run prints depend each on what its own source assembled.
-/
theorem fail_safe_boundary :
    Boundary (runContext assembler skill explain)
        (ContextHealthy assembler skill) (contextOutput assembler skill) ∧
      Boundary (runInstructions assembler skill explain)
        (InstructionsHealthy assembler skill)
        (instructionsOutput assembler skill) :=
  ⟨context_boundary assembler skill explain,
    instructions_boundary assembler skill explain⟩

end Luminosity.Commands.FailSafe
