import Luminosity.Commands.Support

/-!
# The `instructions` command

Instructions always belong to a skill: without a skill name the command prints
nothing, and there is no project source.
-/

namespace Luminosity.Commands.Instructions

open Luminosity.Foundation.TextSegments
open Luminosity.Config.Domain
open Luminosity.Config.Messages
open Luminosity.Config.FragmentAssembler
open Luminosity.Commands.Support

def unavailableHeader : Text :=
  "## Additional Instructions Unavailable".toList

def unavailableProse : Text :=
  ("The additional instructions for this skill could not be read, so none " ++
    "have been\nprovided. Report the error below to the user and continue " ++
    "without them.").toList

/-- What a single invocation should print; the skill name is not validated. -/
structure Options where
  skill : Option Text
  explain : Bool
  onFailure : OnFailure

/-- A parsed name with its outcome, or a name which never parsed. -/
inductive Section where
  | resolved (name : SkillName) (outcome : Outcome)
  | unresolved (error : ConfigError)

def instructionsProse (skill : SkillName) : Text :=
  ("The following additional instructions have been provided for " ++
      "the\n").toList ++ skill.text ++
    (" skill. Follow these instructions in addition to all\ninstructions " ++
      "above.").toList

def renderInstructions (skill : SkillName) (fragment : Fragment) : Text :=
  "## Additional Instructions\n\n".toList ++ instructionsProse skill ++
    "\n\n".toList ++ fragment.body

def renderInstructionsUnavailable (error : ConfigError) : Text :=
  unavailableHeader ++ "\n\n".toList ++ unavailableProse ++
    "\n\n".toList ++ displayError error

section Running

variable (assembler : AssembleFragment) (options : Options)

def resolve : Except ConfigError (Option Section) :=
  match options.skill with
  | none => return none
  | some raw => do
      match ← resolveSkillName raw options.onFailure with
      | .invalid error => return some (.unresolved error)
      | .parsed name => do
          let outcome ←
            assemble assembler (.skillInstructions name) options.onFailure
          return some (.resolved name outcome)

def block (name : SkillName) (outcome : Outcome) : Option Text :=
  match outcome with
  | .assembled assembly => assembly.fragment.map (renderInstructions name)
  | .degraded error => some (renderInstructionsUnavailable error)

def sectionBlock : Section → Option Text
  | .resolved name outcome => block name outcome
  | .unresolved error => some (renderInstructionsUnavailable error)

def explain : Option Section → Except ConfigError (List Text)
  | none => .ok []
  | some (.unresolved error) => .ok [invalidSkillLine error]
  | some (.resolved name outcome) => do
      let source := FragmentSource.skillInstructions name
      let root := (← assembler.locate source).root
      let lines ← sourceLines assembler source outcome
      return ("root: ".toList ++ root) :: lines

/-- Print the block when one survives, and the diagnostic when asked for. -/
def run : Command Unit := do
  let resolved ← resolve assembler options
  printed (resolved.bind sectionBlock)
  explained options.explain
    (degradeExplain (explain assembler resolved) options.onFailure)

end Running

end Luminosity.Commands.Instructions
