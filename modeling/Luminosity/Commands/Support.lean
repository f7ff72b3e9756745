import Luminosity.Config.Messages
import Luminosity.Config.FragmentAssembler

/-!
# The fail-safe boundary

What the fragment-rendering commands share: the failure policy, assembling
under it, parsing a raw skill name inside it, and the lines of the `--explain`
diagnostic.  A caller splices the standard output of a command into a prompt
and discards the prompt when the command fails, so a degraded run reports its
errors on standard output and succeeds.
-/

namespace Luminosity.Commands.Support

open Luminosity.Foundation.TextSegments
open Luminosity.Config.Domain
open Luminosity.Config.Messages
open Luminosity.Config.FragmentAssembler

/-! ## Output -/

/-- What a command wrote. -/
structure Output where
  stdout : Text
  stderr : Text
deriving DecidableEq

/-- A command writes as it goes, and may fail. -/
abbrev Command := ExceptT ConfigError (StateM Output)

def println (line : Text) : Command Unit :=
  modify fun output =>
    { output with stdout := output.stdout ++ line ++ "\n".toList }

def eprintln (line : Text) : Command Unit :=
  modify fun output =>
    { output with stderr := output.stderr ++ line ++ "\n".toList }

/-- The result of a command and what it wrote. -/
def execute (command : Command Unit) : Except ConfigError Unit × Output :=
  command.run.run { stdout := [], stderr := [] }

/-! ## The failure policy -/

/-- How a read failure is surfaced. -/
inductive OnFailure where
  | fail
  | degrade
deriving DecidableEq

/-- The levels of a source, or the error which was absorbed. -/
inductive Outcome where
  | assembled (assembly : Assembly)
  | degraded (error : ConfigError)

/-- Absorb a failure by `absorb` under `degrade`, and propagate it otherwise. -/
def absorbing {α : Type}
    (absorb : ConfigError → α) (result : Except ConfigError α)
    (onFailure : OnFailure) : Except ConfigError α :=
  match result with
  | .ok value => .ok value
  | .error error =>
      if onFailure = .degrade then
        .ok (absorb error)
      else
        .error error

def assemble
    (assembler : AssembleFragment) (source : FragmentSource)
    (onFailure : OnFailure) : Except ConfigError Outcome :=
  absorbing .degraded ((assembler.assemble source).map .assembled) onFailure

/-- A raw skill name which was resolved inside the boundary. -/
inductive SkillResolution where
  | parsed (name : SkillName)
  | invalid (error : ConfigError)

def resolveSkillName (raw : Text) (onFailure : OnFailure) :
    Except ConfigError SkillResolution :=
  absorbing .invalid ((SkillName.parse raw).map .parsed) onFailure

def degradeExplain
    (lines : Except ConfigError (List Text)) (onFailure : OnFailure) :
    Except ConfigError (List Text) :=
  absorbing
    (fun error => ["explain unavailable: ".toList ++ displayError error])
    lines onFailure

theorem absorbing_degrade {α : Type} (absorb : ConfigError → α)
    (error : ConfigError) :
    absorbing absorb (.error error) .degrade = .ok (absorb error) := rfl

/-! ## The lines of the diagnostic -/

def explainLine (contribution : LevelContribution) : Text :=
  let place :=
    displayLevel contribution.level ++ " (".toList ++ contribution.path
  if !contribution.discovered then
    place ++ "): not found".toList
  else if contribution.hasBody then
    place ++ "): discovered, body present".toList
  else
    place ++ "): discovered, empty body".toList

def explainLines (levels : Vector LevelContribution 2) : List Text :=
  levels.toList.map explainLine

def degradedState : ConfigError → Text
  | .unsafePath _ => "unsafe".toList
  | _ => "unreadable".toList

/-- The paths which were attempted, each with why its read failed. -/
def degradedSourceLines (error : ConfigError) (paths : List Text) :
    List Text :=
  ([Level.team, Level.personal].zip paths).map fun attempt =>
    displayLevel attempt.1 ++ " (".toList ++ attempt.2 ++ "): ".toList ++
      degradedState error

def invalidSkillLine (error : ConfigError) : Text :=
  "skill: ".toList ++ displayError error

/-- The lines of one source: what was read, or what would have been. -/
def sourceLines
    (assembler : AssembleFragment) (source : FragmentSource)
    (outcome : Outcome) : Except ConfigError (List Text) :=
  match outcome with
  | .assembled assembly => .ok (explainLines assembly.levels)
  | .degraded error => do
      let paths := (← assembler.locate source).paths
      return degradedSourceLines error paths

/-! ## Writing the diagnostic -/

/-- The diagnostic of a command, when it was asked for. -/
def explained (explain : Bool) (lines : Except ConfigError (List Text)) :
    Command Unit :=
  if explain then do
    let lines ← lines
    lines.forM eprintln
  else
    pure ()

/-- What a command prints when a block survived. -/
def printed (block : Option Text) : Command Unit :=
  match block with
  | none => pure ()
  | some block => println block

theorem run_forM_eprintln (lines : List Text) (output : Output) :
    ∃ stderr,
      (lines.forM eprintln : Command Unit).run.run output =
        (.ok (), { output with stderr }) := by
  induction lines generalizing output with
  | nil => exact ⟨output.stderr, rfl⟩
  | cons line rest induction =>
      rcases induction
          { output with stderr := output.stderr ++ line ++ "\n".toList } with
        ⟨stderr, written⟩
      exact ⟨stderr, written⟩

/-- The diagnostic leaves standard output alone. -/
theorem run_explained
    (explain : Bool) (lines : Except ConfigError (List Text))
    (output : Output) :
    ((explained explain lines).run.run output).2.stdout = output.stdout := by
  cases explain with
  | false => rfl
  | true =>
      cases lines with
      | error error => rfl
      | ok lines =>
          rcases run_forM_eprintln lines output with ⟨stderr, written⟩
          show ((lines.forM eprintln : Command Unit).run.run output).2.stdout =
            _
          rw [written]

theorem run_explained_ok
    (explain : Bool) (lines : List Text) (output : Output) :
    ((explained explain (.ok lines)).run.run output).1 = .ok () := by
  cases explain with
  | false => rfl
  | true =>
      rcases run_forM_eprintln lines output with ⟨stderr, written⟩
      show ((lines.forM eprintln : Command Unit).run.run output).1 = _
      rw [written]

end Luminosity.Commands.Support
