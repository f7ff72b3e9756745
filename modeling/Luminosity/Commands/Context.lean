import Luminosity.Commands.Support

/-!
# The `context` command

The command wraps the project's and a skill's assembled fragments as context
blocks and prints them in that order, joined by one blank line.
-/

namespace Luminosity.Commands.Context

open Luminosity.Foundation.TextSegments
open Luminosity.Config.Domain
open Luminosity.Config.Messages
open Luminosity.Config.FragmentAssembler
open Luminosity.Commands.Support

def prose : Text :=
  ("The following project-specific context has been provided. Take this " ++
    "into\naccount when making decisions, selecting approaches, and " ++
    "generating output.").toList

def unavailableProse : Text :=
  ("The project-specific context for this repository could not be read, so " ++
    "none has\nbeen provided. Report the error below to the user and " ++
    "continue without project\ncontext.").toList

def skillUnavailableHeader : Text :=
  "## Skill-Specific Context Unavailable".toList

def skillUnavailableProse : Text :=
  ("The context specific to this skill could not be read, so none has been " ++
    "provided.\nReport the error below to the user and continue without " ++
    "skill-specific context.").toList

/-- What a single invocation should print; the skill name is not validated. -/
structure Options where
  skill : Option Text
  explain : Bool
  onFailure : OnFailure

inductive ContextSource where
  | project
  | skill (name : SkillName)

def ContextSource.fragmentSource : ContextSource → FragmentSource
  | .project => .projectContext
  | .skill name => .skillContext name

/-- One section of the output; a name which never parsed has no source. -/
inductive Section where
  | resolved (source : ContextSource) (outcome : Outcome)
  | unresolved (error : ConfigError)

structure Resolution where
  project : Section
  skill : Option Section

def skillProse (skill : SkillName) : Text :=
  "The following context is specific to the ".toList ++ skill.text ++
    (" skill. Apply this\ncontext in addition to any project-wide context " ++
      "above.").toList

def renderProject (context : Fragment) : Text :=
  "## Project Context\n\n".toList ++ prose ++ "\n\n".toList ++ context.body

def renderSkill (skill : SkillName) (context : Fragment) : Text :=
  "## Skill-Specific Context\n\n".toList ++ skillProse skill ++
    "\n\n".toList ++ context.body

def renderProjectUnavailable (error : ConfigError) : Text :=
  "## Project Context Unavailable\n\n".toList ++ unavailableProse ++
    "\n\n".toList ++ displayError error

def renderSkillUnavailable (error : ConfigError) : Text :=
  skillUnavailableHeader ++ "\n\n".toList ++ skillUnavailableProse ++
    "\n\n".toList ++ displayError error

/-- Join the blocks which survive by one blank line, the project's first. -/
def joinBlocks (projectBlock skillBlock : Option Text) : Option Text :=
  let blocks := [projectBlock, skillBlock].filterMap id
  if blocks.isEmpty then
    none
  else
    some ("\n\n".toList.intercalate blocks)

section Running

variable (assembler : AssembleFragment) (options : Options)

def resolveProject : Except ConfigError Section := do
  let source := ContextSource.project
  let outcome ← assemble assembler source.fragmentSource options.onFailure
  return .resolved source outcome

/-- Parsing the raw name comes first; a parsed name is then assembled. -/
def resolveSkill : Except ConfigError (Option Section) :=
  match options.skill with
  | none => return none
  | some raw => do
      match ← resolveSkillName raw options.onFailure with
      | .invalid error => return some (.unresolved error)
      | .parsed name => do
          let source := ContextSource.skill name
          let outcome ←
            assemble assembler source.fragmentSource options.onFailure
          return some (.resolved source outcome)

def resolve : Except ConfigError Resolution := do
  let project ← resolveProject assembler options
  let skill ← resolveSkill assembler options
  return { project, skill }

def block (source : ContextSource) (outcome : Outcome) : Option Text :=
  match outcome with
  | .assembled assembly =>
      assembly.fragment.map fun context =>
        match source with
        | .project => renderProject context
        | .skill name => renderSkill name context
  | .degraded error =>
      some
        (match source with
        | .project => renderProjectUnavailable error
        | .skill _ => renderSkillUnavailable error)

def sectionBlock : Section → Option Text
  | .resolved source outcome => block source outcome
  | .unresolved error => some (renderSkillUnavailable error)

def sectionLines : Section → Except ConfigError (List Text)
  | .resolved source outcome =>
      sourceLines assembler source.fragmentSource outcome
  | .unresolved error => .ok [invalidSkillLine error]

def explain (project : Section) (skill : Option Section) :
    Except ConfigError (List Text) := do
  let root := (← assembler.locate .projectContext).root
  let projectLines ← sectionLines assembler project
  let skillLines ←
    match skill with
    | none => pure []
    | some skill => sectionLines assembler skill
  return ("root: ".toList ++ root) :: projectLines ++ skillLines

/-- Print the blocks which survive, and the diagnostic when it is asked for. -/
def run : Command Unit := do
  let resolution ← resolve assembler options
  printed
    (joinBlocks (sectionBlock resolution.project)
      (resolution.skill.bind sectionBlock))
  explained options.explain
    (degradeExplain (explain assembler resolution.project resolution.skill)
      options.onFailure)

end Running

end Luminosity.Commands.Context
