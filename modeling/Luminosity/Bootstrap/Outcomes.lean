import Luminosity.Bootstrap.Changes
import Luminosity.Bootstrap.Entrypoint

/-!
# What the commands do

A command which succeeds has done its work; one which fails may have written a
part of it.  What the staged shim does is known, and nothing is known of what
another program in its place does.
-/

namespace Luminosity.Bootstrap.Outcomes

open Luminosity.Foundation.TextSegments
open Luminosity.Foundation.EffectPrograms
open Luminosity.Foundation.Interleaving
open Luminosity.Bootstrap.VerifyShim
open Luminosity.Bootstrap.Entrypoint
open Luminosity.Bootstrap.Entries

/-- What the script finds outside of the cache directory. -/
structure Surroundings where
  minisign : Minisign
  /-- The bytes of the vendored shim. -/
  shimProgram : Bytes
  served : Text → Option Bytes

section Outcomes

variable (surroundings : Surroundings)

/-- A command has written a file. -/
def Written (path : Text) (contents : Bytes) (before after : World) : Prop :=
  before.Writable path ∧
    ∃ executable, after = before.write path contents executable

/-- A command has written a file, or a part of it, or nothing. -/
def Touched (path : Text) (before after : World) : Prop :=
  after = before ∨ ∃ contents, Written path contents before after

/-- No other program is at the path of the shim. -/
def Genuine (world : World) (shim : Text) : Prop :=
  ∀ contents executable,
    world.found shim = some (.file contents executable) →
      contents = surroundings.shimProgram

/-- What a command does when it succeeds or fails. -/
def Outcome (command : Command) (before : World) (succeeded : Bool)
    (after : World) : Prop :=
  match command with
  | .cp _ target =>
      Touched target before after ∧
        (succeeded →
          Written target surroundings.shimProgram before after ∨
            (before.isDirectory target ∨ before.isSpecial target) ∧
              after = before)
  | .chmod path =>
      (succeeded = false ∧ after = before) ∨
        (succeeded = true ∧ (before.found path).isSome ∧
          after = before.makeExecutable path)
  | .isExecutable path =>
      succeeded = before.isExecutable path ∧ after = before
  | .isFile path => succeeded = before.isFile path ∧ after = before
  | .verify shim args =>
      Genuine surroundings before shim →
        after = before ∧
          (succeeded →
            before.found shim = some (.file surroundings.shimProgram true) ∧
              run surroundings.minisign before.readFile args = .ok ())
  | .fetch url output =>
      Touched output before after ∧
        (succeeded →
          ∃ contents, surroundings.served url = some contents ∧
            (Written output contents before after ∨
              before.isSpecial output ∧ after = before))
  | .rm paths =>
      World.Loses
          (fun path => path ∈ paths ∧
            (before.own path).any Node.isDirectory = false)
          before after ∧
        (succeeded → ∀ path ∈ paths, after.entry path = none)
  | .mv source target =>
      (succeeded = false ∧ after = before) ∨
        (succeeded = true ∧ (before.entry source).isSome ∧
          -- Two names of one file may both be kept.
          (after = before.move source target ∨
            before.entry source = before.entry target ∧ after = before))

/-- The commands, with a record of their outcomes. -/
def calls : Semantics bash (World × List (Event bash Unit World)) :=
  recorded (fun _ => Outcome surroundings) ()

theorem ensures_succeeds
    (command : Command)
    (post : Bool → World × List (Event bash Unit World) → Prop)
    (log : World × List (Event bash Unit World)) :
    Ensures (calls surroundings) (succeeds command) post log ↔
      ∀ answer after, Outcome surroundings command log.1 answer after →
        post answer
          (after, ⟨(), command, answer, log.1, after⟩ :: log.2) := by
  constructor
  · intro ensured answer after outcome
    exact ensured answer (after, _) ⟨outcome, rfl⟩
  · rintro ensured answer ⟨after, history⟩ ⟨outcome, grows⟩
    dsimp only at grows
    subst grows
    exact ensured answer after outcome

end Outcomes

variable {surroundings : Surroundings}

theorem runs_succeeds
    {command : Command} {answer : Bool} {after : World}
    {log : World × List (Event bash Unit World)}
    (outcome : Outcome surroundings command log.1 answer after) :
    Runs (calls surroundings) (succeeds command) log answer
      (after, ⟨(), command, answer, log.1, after⟩ :: log.2) :=
  .perform ⟨outcome, rfl⟩

/-! ## Writing -/

theorem Written.overwrites
    {path : Text} {contents : Bytes} {before after : World}
    (written : Written path contents before after) :
    World.Overwrites path before after := by
  rcases written with ⟨writable, executable, rfl⟩
  exact writable.overwrites contents executable

theorem Written.found
    {path : Text} {contents : Bytes} {before after : World}
    (written : Written path contents before after) :
    ∃ executable, after.found path = some (.file contents executable) := by
  rcases written with ⟨writable, executable, rfl⟩
  exact ⟨executable, writable.found_write contents executable⟩

/-- What can be read from a path once something is fetched to it. -/
def Receives (surroundings : Surroundings) (world : World)
    (url path : Text) (contents : Bytes) : Prop :=
  ∃ served, surroundings.served url = some served ∧
    (world.Writable path ∧ contents = served ∨
      ∃ executable,
        world.found path = some (.special (some contents) executable))

/-- A fetch which succeeds leaves what is received. -/
theorem fetched
    {before after : World} {url output : Text}
    (outcome : Outcome surroundings (.fetch url output) before true after) :
    World.Overwrites output before after ∧
      ∀ contents, after.readFile output = .ok contents →
        Receives surroundings before url output contents := by
  rcases outcome.2 rfl with ⟨served, isServed, written | ⟨isSpecial, rfl⟩⟩
  · refine ⟨written.overwrites, ?_⟩
    intro contents read
    rcases written.found with ⟨executable, finds⟩
    rw [World.readFile_of_found finds] at read
    cases read
    exact ⟨served, isServed, .inl ⟨written.1, rfl⟩⟩
  · refine ⟨.refl output _, ?_⟩
    intro contents read
    rcases (World.isSpecial_iff output).mp isSpecial with
      ⟨bytes, executable, finds⟩
    rw [World.readFile_of_found finds] at read
    cases bytes with
    | none => cases read
    | some bytes =>
        cases read
        exact ⟨served, isServed, .inr ⟨executable, finds⟩⟩

/-- A fetch can succeed where something can be received. -/
theorem fetches
    {before : World} {url output : Text} {contents : Bytes}
    (receives : Receives surroundings before url output contents) :
    ∃ after,
      Outcome surroundings (.fetch url output) before true after ∧
        after.readFile output = .ok contents := by
  rcases receives with
    ⟨served, isServed, ⟨writable, rfl⟩ | ⟨executable, finds⟩⟩
  · refine ⟨before.write output contents false, ⟨?_, ?_⟩, ?_⟩
    · exact .inr ⟨contents, writable, false, rfl⟩
    · exact fun _ => ⟨contents, isServed, .inl ⟨writable, false, rfl⟩⟩
    · rw [World.readFile_of_found (writable.found_write contents false)]
      rfl
  · refine ⟨before, ⟨.inl rfl, fun _ => ⟨served, isServed, .inr ⟨?_, rfl⟩⟩⟩,
      ?_⟩
    · exact (World.isSpecial_iff output).mpr ⟨_, executable, finds⟩
    · rw [World.readFile_of_found finds]
      rfl

/-! ## Verification -/

/-- What a success of the genuine shim says. -/
theorem verified
    {before after : World} {shim publicKey signature target : Text}
    (outcome : Outcome surroundings
      (.verify shim [publicKey, signature, target]) before true after)
    (genuine : Genuine surroundings before shim) :
    after = before ∧
      before.found shim = some (.file surroundings.shimProgram true) ∧
        ∃ publicKeyBytes signatureBytes contents,
          before.readFile publicKey = .ok publicKeyBytes ∧
            before.readFile signature = .ok signatureBytes ∧
              before.readFile target = .ok contents ∧
                Signs surroundings.minisign publicKeyBytes signatureBytes
                  contents := by
  rcases outcome genuine with ⟨unchanged, success⟩
  rcases success rfl with ⟨staged, accepted⟩
  exact ⟨unchanged, staged, (run_ok_iff _ _ _).mp accepted⟩

/-- What makes the shim succeed. -/
theorem verifies
    {world : World} {shim publicKey signature target : Text}
    {publicKeyBytes signatureBytes contents : Bytes}
    (staged : world.found shim = some (.file surroundings.shimProgram true))
    (publicKeyRead : world.readFile publicKey = .ok publicKeyBytes)
    (signatureRead : world.readFile signature = .ok signatureBytes)
    (targetRead : world.readFile target = .ok contents)
    (signs : Signs surroundings.minisign publicKeyBytes signatureBytes
      contents) :
    Outcome surroundings (.verify shim [publicKey, signature, target])
      world true world := by
  intro _
  refine ⟨rfl, fun _ => ⟨staged, (run_ok_iff _ _ _).mpr ?_⟩⟩
  exact ⟨publicKeyBytes, signatureBytes, contents, publicKeyRead,
    signatureRead, targetRead, signs⟩

/-- The shim may fail on anything. -/
theorem verifies_not
    (world : World) (shim : Text) (args : List Text) :
    Outcome surroundings (.verify shim args) world false world :=
  fun _ => ⟨rfl, nofun⟩

/-! ## Modes -/

theorem chmodded
    {before after : World} {path : Text} {succeeded : Bool}
    (outcome : Outcome surroundings (.chmod path) before succeeded after)
    (other : Text) :
    World.Remodes before after other := by
  rcases outcome with ⟨_, rfl⟩ | ⟨_, isSome, rfl⟩
  · exact .inl rfl
  · rcases Option.isSome_iff_exists.mp isSome with ⟨node, finds⟩
    exact World.remodes_makeExecutable finds other

theorem chmod_separates
    {before after : World} {path : Text} {succeeded : Bool}
    (outcome : Outcome surroundings (.chmod path) before succeeded after) :
    World.Separates before after := by
  rcases outcome with ⟨_, rfl⟩ | ⟨_, isSome, rfl⟩
  · exact .refl _
  · rcases Option.isSome_iff_exists.mp isSome with ⟨node, finds⟩
    rcases World.puts_makeExecutable finds with ⟨_, _, _, puts⟩
    exact puts.separates

theorem Genuine.congr
    {before after : World} {shim : Text}
    (genuine : Genuine surroundings before shim)
    (kept : ∀ node, after.found shim = some node →
      before.found shim = some node) :
    Genuine surroundings after shim := by
  intro contents executable finds
  exact genuine contents executable (kept _ finds)

theorem Genuine.remodes
    {before after : World} {shim : Text}
    (genuine : Genuine surroundings before shim)
    (remodes : World.Remodes before after shim) :
    Genuine surroundings after shim := by
  intro contents executable finds
  have wasFile : before.isFile shim := by
    rw [World.isFile, ← remodes.any Node.isFile_makeExecutable, finds]
    rfl
  rcases (World.isFile_iff shim).mp wasFile with ⟨earlier, mode, found⟩
  have read := remodes.readFile
  rw [World.readFile_of_found finds, World.readFile_of_found found,
    Node.read, Node.read, Except.ok.injEq] at read
  exact read.trans (genuine earlier mode found)

/-! ## Moves -/

section Moves

variable {before after : World} {source target : Text}
  (outcome : Outcome surroundings (.mv source target) before true after)

include outcome

/-- A way which comes by neither name is the same after a move. -/
theorem moved_of_aside
    {path : Text} (notSource : ¬ before.Passes path source)
    (notTarget : ¬ before.Passes path target) :
    after.found path = before.found path ∧
      ∀ other, after.Passes path other → before.Passes path other := by
  rcases outcome with ⟨impossible, _⟩ | ⟨_, _, rfl | ⟨_, rfl⟩⟩
  · cases impossible
  · exact World.move_of_aside notSource notTarget
  · exact ⟨rfl, fun _ passes => passes⟩

theorem moved_isDirectory
    (different : target ≠ source) (aside : ¬ before.Passes source target)
    {node : Node} (finds : before.found source = some node)
    (noDirectory : node.isDirectory = false) (path : Text) :
    after.isDirectory path = before.isDirectory path := by
  rcases outcome with ⟨impossible, _⟩ | ⟨_, _, rfl | ⟨_, rfl⟩⟩
  · cases impossible
  · exact World.isDirectory_move different aside finds noDirectory path
  · rfl

/-- What is moved is found at the target, unless this is a directory. -/
theorem moved_target
    (different : target ≠ source) (aside : ¬ before.Passes source target)
    {node : Node} (finds : before.found source = some node)
    (free : before.isDirectory target = false) :
    after.found target = some node := by
  rcases outcome with ⟨impossible, _⟩ | ⟨_, _, rfl | ⟨same, rfl⟩⟩
  · cases impossible
  · rw [World.move, free, if_neg Bool.false_ne_true]
    exact World.found_rename_target different aside finds
  · exact (World.found_of_entry_eq same).symm.trans finds

end Moves

end Luminosity.Bootstrap.Outcomes
