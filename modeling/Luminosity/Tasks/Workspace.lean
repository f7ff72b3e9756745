import Luminosity.Foundation.Interruptions
import Luminosity.Foundation.JsonValues
import Luminosity.Foundation.LastWrite
import Luminosity.Foundation.LineBreaks
import Luminosity.Tasks.Github

/-!
# The workspace of the tasks

The tasks which version, build and sign a release work on the files of the
repository, and run tools over them.  An operation may fail in any way: a
write which fails leaves anything at its path, and only a replacement is all
or nothing.

A file is rewritten next to its path and moved there, so that whatever fails,
and whenever the task is cut short, it holds its old text or its new one.
-/

namespace Luminosity.Tasks.Workspace

open Luminosity.Foundation.TextSegments
open Luminosity.Foundation.EffectPrograms
open Luminosity.Foundation.Exceptions
open Luminosity.Foundation.Interruptions
open Luminosity.Foundation.LastWrite
open Luminosity.Foundation.LineBreaks
  (universalNewlines universalNewlines_unreturned
    unreturned_universalNewlines)
open Luminosity.Foundation.JsonValues
open Luminosity.Host.Paths
open Luminosity.Tasks.Github (Failure Completed binDir)

/-! ## Operations -/

/-- What a task raises. -/
inductive Raised
  | exit (message : Text) (code : Nat)
  | minisign (message : Text)
  /-- A text which a parser refuses. -/
  | valueError (detail : Text)
  | keyError (key : Text)
  | typeError
  | attributeError
  /-- A command whose status is not zero. -/
  | unexpectedExit (status : Int)
  | external (failure : Failure)
deriving DecidableEq

/-- The end of a command run through the context. -/
structure Result where
  exited : Int
  stdout : Text
  stderr : Text
deriving DecidableEq, Repr

/-- The tools which look at a binary. -/
inductive Inspector
  | file
  | ldd
  /-- `lipo -archs` -/
  | lipo
  /-- `otool -L` -/
  | otool
  /-- `llvm-objdump --macho` -/
  | objdump
  /-- `llvm-objdump --macho --dylibs-used` -/
  | dylibsUsed
deriving DecidableEq, Repr

/-- The commands run through the context. -/
inductive Command
  /-- `cargo build --release --bin {crate} --target {triple}` -/
  | build (crate triple : Text)
  /-- `cargo zigbuild`, with what the environment sets besides. -/
  | zigbuild (crate triple : Text) (environment : List (Text × Text))
  | inspect (inspector : Inspector) (binary : Path)
  /-- `cp {source} {destination}` -/
  | copy (source destination : Path)
  /-- `tar -czf {archive} -C {directory} {name}` -/
  | archive (archive directory : Path) (name : Text)
  /-- `git config --local {name} '{value}'` -/
  | configure (name value : Text)
  /-- `git pull` -/
  | pull
deriving DecidableEq

inductive Call
  | readText (path : Path)
  | writeText (path : Path) (content : Text)
  | readBytes (path : Path)
  | replace (source target : Path)
  /-- `path.unlink(missing_ok=True)` -/
  | unlink (path : Path)
  | makeDirectories (path : Path)
  | chmod (path : Path)
  | run (command : Command)
  /-- `minisign -S -s {secretKey} -x {signature} -m {target}` -/
  | minisignSign (secretKey signature target : Path)
  | environ (name : Text)
  | system
  | machine
  | temporaryDirectory
  | removeDirectory (path : Path)

/-- What each operation returns. -/
abbrev Call.Value : Call → Type
  | .readText _ => Text
  | .writeText _ _ => Unit
  | .readBytes _ => Bytes
  | .replace _ _ => Unit
  | .unlink _ => Unit
  | .makeDirectories _ => Unit
  | .chmod _ => Unit
  | .run _ => Result
  | .minisignSign _ _ _ => Completed
  | .environ _ => Option Text
  | .system => Text
  | .machine => Text
  | .temporaryDirectory => Path
  | .removeDirectory _ => Unit

/-- Every operation may raise. -/
def workspace : Interface where
  Op := Call
  Answer := fun call => Except Failure call.Value

abbrev WorkspaceTask := ExceptT Raised (Program workspace)

theorem mapError_ok
    {α ε δ : Type} {result : Except ε α} {describe : ε → δ} {value : α} :
    result.mapError describe = .ok value ↔ result = .ok value := by
  cases result with
  | ok other => simp [Except.mapError]
  | error error => simp [Except.mapError]

/-- Ask for an operation, and raise what it raises. -/
def issue (call : Call) : WorkspaceTask call.Value := do
  let answer ← (Program.call (show workspace.Op from call) :
    WorkspaceTask (Except Failure call.Value))
  match answer with
  | .ok value => return value
  | .error failure => throw (.external failure)

/-- A command whose status is checked. -/
def runChecked (command : Command) : WorkspaceTask Unit := do
  let result ← issue (.run command)
  if (result : Result).exited = 0 then
    pure ()
  else
    throw (.unexpectedExit (result : Result).exited)

/-! ## Paths -/

/-- The suffix of a name, with its dot. -/
def suffix (name : Text) : Text :=
  match rsplitOnce '.' name with
  | some (stem, extension) =>
      if stem = [] ∨ extension = [] then [] else '.' :: extension
  | none => []

/-- `path.with_suffix(path.suffix + ".tmp")`. -/
def temporaryPath (path : Path) : Path :=
  match path.parent, path.fileName with
  | some directory, some name =>
      directory.child
        (name.take (name.length - (suffix name).length) ++
          (suffix name ++ ".tmp".toList))
  | _, _ => path

/-- The suffix ends the name. -/
theorem take_suffix (name : Text) :
    name.take (name.length - (suffix name).length) ++ suffix name = name := by
  unfold suffix
  cases divided : rsplitOnce '.' name with
  | none => simp
  | some parts =>
      rcases parts with ⟨stem, extension⟩
      have whole := (rsplitOnce_some divided).1
      dsimp only
      split_ifs with bare
      · simp
      · rw [whole]
        simp

theorem temporaryPath_child (directory : Path) (name : Text) :
    temporaryPath (directory.child name) =
      directory.child (name ++ ".tmp".toList) := by
  rw [temporaryPath, parent_child, fileName_child]
  change directory.child (_ ++ (suffix name ++ _)) = _
  rw [← List.append_assoc, take_suffix]

section Paths

variable (repoRoot : Path)

def workspaceRoot : Path :=
  repoRoot.join "cli".toList

def checksums : Path :=
  (binDir repoRoot).join "checksums.json".toList

def cargoToml : Path :=
  repoRoot.join "cli/launcher/Cargo.toml".toList

def pluginJson : Path :=
  repoRoot.join ".claude-plugin/plugin.json".toList

def prereleaseMarketplaceJson : Path :=
  repoRoot.join ".claude-plugin/marketplace-prerelease.json".toList

/-- `target/{triple}/release/{crate}` in the workspace. -/
def builtPath (crate triple : Text) : Path :=
  (workspaceRoot repoRoot).join
    ("target/".toList ++ triple ++ "/release/".toList ++ crate)

def shimPath (platform : Text) : Path :=
  (repoRoot.join "bin".toList).join ("luminosity-verify-".toList ++ platform)

/-- A plain name before a slash is one directory. -/
theorem join_slash
    (base : Path) {first rest : Text} (plain : Plain first)
    (relative : rest.head? ≠ some '/') :
    base.join (first ++ '/' :: rest) = (base.child first).join rest := by
  have notAbsolute : (first ++ '/' :: rest).head? ≠ some '/' := by
    cases first with
    | nil => exact absurd rfl plain.1
    | cons head tail =>
        intro starts
        exact plain.2.2.2 (List.mem_of_mem_head? starts)
  rw [Path.join, Path.join, if_neg notAbsolute, if_neg relative,
    List.splitOn_append_cons_self, splitOn_of_notMem '/' plain.2.2.2]
  simp [Component.ofField_plain plain, Path.child]

theorem binDir_eq :
    binDir repoRoot =
      ((repoRoot.child "cli".toList).child "launcher".toList).child
        "bin".toList := by
  have joined :
      binDir repoRoot =
        repoRoot.join
          ("cli".toList ++ '/' :: ("launcher".toList ++ '/' ::
            "bin".toList)) := rfl
  rw [joined, join_slash _ (by decide) (by decide),
    join_slash _ (by decide) (by decide), join_plain _ (by decide)]

theorem checksums_eq :
    checksums repoRoot = (binDir repoRoot).child "checksums.json".toList :=
  join_plain _ (by decide)

theorem manifest_eq :
    Github.manifest repoRoot =
      (binDir repoRoot).child "manifest.json".toList :=
  join_plain _ (by decide)

theorem cargoToml_eq :
    cargoToml repoRoot =
      ((repoRoot.child "cli".toList).child "launcher".toList).child
        "Cargo.toml".toList := by
  have joined :
      cargoToml repoRoot =
        repoRoot.join
          ("cli".toList ++ '/' :: ("launcher".toList ++ '/' ::
            "Cargo.toml".toList)) := rfl
  rw [joined, join_slash _ (by decide) (by decide),
    join_slash _ (by decide) (by decide), join_plain _ (by decide)]

theorem pluginJson_eq :
    pluginJson repoRoot =
      (repoRoot.child ".claude-plugin".toList).child
        "plugin.json".toList := by
  have joined :
      pluginJson repoRoot =
        repoRoot.join
          (".claude-plugin".toList ++ '/' :: "plugin.json".toList) := rfl
  rw [joined, join_slash _ (by decide) (by decide),
    join_plain _ (by decide)]

theorem targetDir_eq :
    (workspaceRoot repoRoot).join "target".toList =
      (repoRoot.child "cli".toList).child "target".toList := by
  rw [workspaceRoot, join_plain _ (by decide), join_plain _ (by decide)]

/-- Nothing next to the manifests is in the target directory. -/
theorem outside_target (name : Text) :
    ¬ ((binDir repoRoot).child name).startsWith
      ((workspaceRoot repoRoot).join "target".toList) = true := by
  intro inside
  rw [targetDir_eq, binDir_eq] at inside
  simp [Path.startsWith, Path.child] at inside

/-- What is next to the manifests is not in the package. -/
theorem binDir_child_ne_package (name other : Text) :
    (binDir repoRoot).child name ≠
      (repoRoot.child "bin".toList).child other := by
  intro same
  have directories := (child_injective same).1
  rw [binDir_eq] at directories
  have lengths := congrArg List.length
    (congrArg Path.components (child_injective directories).1)
  simp at lengths

/-- A path below a directory is the directory, or its parent is below. -/
theorem startsWith_child
    {base directory : Path} {name : Text}
    (inside : (base.child name).startsWith directory = true) :
    base.startsWith directory = true ∨ directory = base.child name := by
  rw [Path.startsWith, Bool.and_eq_true, decide_eq_true_iff,
    List.isPrefixOf_iff_prefix] at inside ⊢
  rcases inside with ⟨absolute, starts⟩
  rcases List.prefix_concat_iff.mp starts with whole | within
  · have same : base.absolute = directory.absolute := absolute
    refine Or.inr ?_
    change directory =
      { absolute := base.absolute, components := base.components ++ _ }
    rw [same, ← whole]
  · exact Or.inl ⟨absolute, within⟩

/-- What is below a directory has its children below it. -/
theorem child_startsWith
    {base directory : Path} (inside : base.startsWith directory = true)
    (name : Text) :
    (base.child name).startsWith directory = true := by
  rw [Path.startsWith, Bool.and_eq_true, decide_eq_true_iff,
    List.isPrefixOf_iff_prefix] at inside ⊢
  exact ⟨inside.1, inside.2.trans (List.prefix_append _ _)⟩

end Paths

/-! ## Rewriting a file -/

/-- `atomic_write_text`. -/
def atomicWriteText (path : Path) (content : Text) : WorkspaceTask Unit :=
  attempt
    (do
      issue (.writeText (temporaryPath path) content)
      issue (.replace (temporaryPath path) path))
    fun raised => do
      issue (.unlink (temporaryPath path))
      throw raised

/-! ## What the operations do -/

/-- The files, by their paths. -/
abbrev World := Path → Option Bytes

/-- The tools, as far as the tasks rely on what they say. -/
structure Tools where
  /-- The signatures a secret key makes for bytes. -/
  signs : (secretKey target signature : Bytes) → Prop
  /-- What a tool reports of the bytes of a binary. -/
  reports : Inspector → Bytes → Result → Prop
  /-- What the environment holds under a name. -/
  environment : (name : Text) → Option Text → Prop
  /-- The operating system of the host. -/
  hostSystem : Text
  /-- The architecture of the host. -/
  hostMachine : Text

/-- The text of a file, as Python reads it. -/
def Reads (world : World) (path : Path) (text : Text) : Prop :=
  ∃ bytes raw, world path = some bytes ∧ decode bytes = some raw ∧
    text = universalNewlines raw

theorem Reads.unreturned
    {world : World} {path : Path} {text : Text}
    (reads : Reads world path text) :
    '\r' ∉ text := by
  rcases reads with ⟨_, raw, _, _, rfl⟩
  exact unreturned_universalNewlines raw

theorem Reads.unique
    {world : World} {path : Path} {text other : Text}
    (reads : Reads world path text) (again : Reads world path other) :
    text = other := by
  rcases reads with ⟨bytes, raw, present, decoded, rfl⟩
  rcases again with ⟨_, _, samePresent, sameDecoded, rfl⟩
  rw [present] at samePresent
  cases samePresent
  rw [decoded] at sameDecoded
  cases sameDecoded
  rfl

/-- Reading depends on the file at the path alone. -/
theorem Reads.congr
    {first second : World} {path : Path} {text : Text}
    (reads : Reads first path text) (same : second path = first path) :
    Reads second path text := by
  rcases reads with ⟨bytes, raw, present, decoded⟩
  exact ⟨bytes, raw, same.trans present, decoded⟩

theorem reads_encoded
    {world : World} {path : Path} {text : Text}
    (unreturned : '\r' ∉ text)
    (present : world path = some (encode text)) :
    Reads world path text :=
  ⟨_, text, present, decode_encode text,
    (universalNewlines_unreturned unreturned).symm⟩

/-- The two worlds differ at the paths only. -/
def SameOff (paths : Path → Prop) (before after : World) : Prop :=
  ∀ path, ¬ paths path → after path = before path

/-- What a command does, and how it may end. -/
def TakesEffect (repoRoot : Path) (tools : Tools) (before after : World) :
    Command → Except Failure Result → Prop
  | .build _ _, _ | .zigbuild _ _ _, _ =>
      SameOff
        (fun path =>
          path.startsWith
            ((workspaceRoot repoRoot).join "target".toList) = true)
        before after
  | .inspect inspector binary, answer =>
      after = before ∧ ∀ result, answer = .ok result →
        ∀ bytes, before binary = some bytes →
          tools.reports inspector bytes result
  | .copy source destination, answer =>
      ∃ left, after = Function.update before destination left ∧
        ∀ result, answer = .ok result → result.exited = 0 →
          left.isSome = true ∧ left = before source
  | .archive archive _ _, _ =>
      ∃ left, after = Function.update before archive left
  | .configure _ _, _ => after = before
  | .pull, _ => True

/-- What the operations can do and answer. -/
def answers (repoRoot : Path) (tools : Tools) : Semantics workspace World :=
  fun call before answer after =>
    match call with
    | .readText path =>
        after = before ∧
          ∀ text : Text, (answer : Except Failure Text) = .ok text →
            Reads before path text
    | .writeText path content =>
        ∃ left, after = Function.update before path left ∧
          ((answer : Except Failure Unit) = .ok () →
            left = some (encode content))
    | .readBytes path =>
        after = before ∧
          ∀ bytes : Bytes, (answer : Except Failure Bytes) = .ok bytes →
            before path = some bytes
    | .replace source target =>
        match (answer : Except Failure Unit) with
        | .ok _ =>
            ∃ bytes, before source = some bytes ∧
              after =
                Function.update (Function.update before source none) target
                  (some bytes)
        | .error _ => after = before
    | .unlink path =>
        match (answer : Except Failure Unit) with
        | .ok _ => after = Function.update before path none
        | .error _ => after = before
    | .makeDirectories _ => after = before
    | .chmod _ => after = before
    | .run command => TakesEffect repoRoot tools before after command answer
    | .minisignSign secretKey signature target =>
        ∃ left, after = Function.update before signature left ∧
          ∀ finished : Completed,
            (answer : Except Failure Completed) = .ok finished →
              finished.returncode = 0 →
                ∃ key bytes signed,
                  before secretKey = some key ∧ before target = some bytes ∧
                    left = some signed ∧ tools.signs key bytes signed
    | .environ name =>
        after = before ∧
          ∀ value : Option Text,
            (answer : Except Failure (Option Text)) = .ok value →
              tools.environment name value
    | .system =>
        after = before ∧
          ∀ system : Text, (answer : Except Failure Text) = .ok system →
            system = tools.hostSystem
    | .machine =>
        after = before ∧
          ∀ machine : Text, (answer : Except Failure Text) = .ok machine →
            machine = tools.hostMachine
    | .temporaryDirectory =>
        after = before ∧
          ∀ directory : Path,
            (answer : Except Failure Path) = .ok directory →
              (∀ path, path.startsWith directory = true →
                before path = none) ∧
              ∃ (base : Path) (name : Text),
                directory = base.child ("tmp".toList ++ name)
    | .removeDirectory directory =>
        (∀ path, after path = before path ∨
          path.startsWith directory = true ∧ after path = none) ∧
        ((answer : Except Failure Unit) = .ok () →
          ∀ path, path.startsWith directory = true → after path = none)

section Rules

variable {repoRoot : Path} {tools : Tools} {before : World}
variable {always : World → Prop}

theorem SameOff.refl (paths : Path → Prop) (world : World) :
    SameOff paths world world :=
  fun _ _ => rfl

theorem SameOff.trans
    {paths : Path → Prop} {first second third : World}
    (left : SameOff paths first second) (right : SameOff paths second third) :
    SameOff paths first third := by
  intro path off
  rw [right path off, left path off]

theorem SameOff.widen
    {paths wider : Path → Prop} {first second : World}
    (same : SameOff paths first second)
    (widen : ∀ path, paths path → wider path) :
    SameOff wider first second := by
  intro path off
  exact same path fun inside => off (widen path inside)

theorem sameOff_update
    (world : World) (path : Path) (left : Option Bytes) :
    SameOff (· = path) world (Function.update world path left) :=
  fun _ other => Function.update_of_ne other left world

/-- An operation is sustained by what it does at once. -/
theorem sustains_issue
    (call : Call) (post : Except Raised call.Value → World → Prop) :
    Sustains (answers repoRoot tools) always (issue call).run post before ↔
      always before ∧
        ∀ answer after, answers repoRoot tools call before answer after →
          always after ∧
            onOk (fun value => post (.ok value))
              (fun failure => post (.error (.external failure))) answer
              after := by
  constructor
  · rintro ⟨now, later⟩
    refine ⟨now, ?_⟩
    intro answer after step
    have rest := later answer after step
    cases answer with
    | ok value => exact rest
    | error failure => exact rest
  · rintro ⟨now, later⟩
    refine ⟨now, ?_⟩
    intro answer after step
    have rest := later answer after step
    cases answer with
    | ok value => exact rest
    | error failure => exact rest

theorem ensures_issue
    (call : Call) (post : Except Raised call.Value → World → Prop) :
    Ensures (answers repoRoot tools) (issue call).run post before ↔
      ∀ answer after, answers repoRoot tools call before answer after →
        onOk (fun value => post (.ok value))
          (fun failure => post (.error (.external failure))) answer
          after := by
  constructor
  · intro ensured answer after step
    have rest := ensured answer after step
    cases answer with
    | ok value => exact rest
    | error failure => exact rest
  · intro ensured answer after step
    have rest := ensured answer after step
    cases answer with
    | ok value => exact rest
    | error failure => exact rest

/-- A command whose status is checked succeeds when its status is zero. -/
theorem ensures_runChecked (command : Command) :
    Ensures (answers repoRoot tools) (runChecked command).run
      (WhenOk fun _ after => ∃ result : Result, result.exited = 0 ∧
        TakesEffect repoRoot tools before after command (.ok result))
      before := by
  rw [runChecked, ensures_run_bind, ensures_issue]
  intro answer after effect
  cases answer with
  | error failure => trivial
  | ok result =>
      rw [onOk_ok, onOk_ok]
      split_ifs with success
      · exact ⟨result, success, effect⟩
      · trivial

theorem asks_issue {allowed : Call → Prop} {call : Call} :
    Asks allowed (issue call).run ↔ allowed call := by
  constructor
  · intro asks
    exact asks.1
  · intro holds
    refine ⟨holds, ?_⟩
    intro answer
    cases answer <;> trivial

/-- The call changes nothing off the paths. -/
def Touches (repoRoot : Path) (tools : Tools) (paths : Path → Prop)
    (call : Call) : Prop :=
  ∀ before answer after, answers repoRoot tools call before answer after →
    SameOff paths before after

variable {paths : Path → Prop}

theorem touches_readText (path : Path) :
    Touches repoRoot tools paths (.readText path) := by
  rintro before answer _ ⟨rfl, _⟩
  exact SameOff.refl paths _

theorem touches_writeText {path : Path} (touched : paths path)
    (content : Text) :
    Touches repoRoot tools paths (.writeText path content) := by
  rintro before answer _ ⟨left, rfl, _⟩
  apply (sameOff_update before path left).widen
  rintro other rfl
  exact touched

theorem touches_unlink {path : Path} (touched : paths path) :
    Touches repoRoot tools paths (.unlink path) := by
  intro before answer after step
  cases answer with
  | ok _ =>
      change after = Function.update before path none at step
      rw [step]
      apply (sameOff_update before path none).widen
      rintro other rfl
      exact touched
  | error failure =>
      change after = before at step
      rw [step]
      exact SameOff.refl paths _

theorem touches_replace
    {source target : Path} (touchedSource : paths source)
    (touchedTarget : paths target) :
    Touches repoRoot tools paths (.replace source target) := by
  intro before answer after step
  cases answer with
  | ok _ =>
      rcases step with ⟨bytes, _, rfl⟩
      intro path off
      rw [Function.update_of_ne, Function.update_of_ne]
      · rintro rfl
        exact off touchedSource
      · rintro rfl
        exact off touchedTarget
  | error failure =>
      change after = before at step
      rw [step]
      exact SameOff.refl paths _

theorem asks_atomicWriteText
    {path : Path} (staged : paths (temporaryPath path))
    (touched : paths path) (content : Text) :
    Asks (Touches repoRoot tools paths)
      (atomicWriteText path content).run := by
  apply Asks.attempt
  · apply Asks.run_bind (asks_issue.mpr (touches_writeText staged content))
    intro _
    exact asks_issue.mpr (touches_replace staged touched)
  · intro raised
    apply Asks.run_bind (asks_issue.mpr (touches_unlink staged))
    intro _
    trivial

/-- What touches some paths only keeps the others, at every moment. -/
theorem sustains_touching
    {α : Type} {program : Program workspace α}
    (asks : Asks (Touches repoRoot tools paths) program) :
    Sustains (answers repoRoot tools) (SameOff paths before) program
      (fun _ after => SameOff paths before after) before := by
  apply Asks.sustains asks _ (SameOff.refl paths before)
  intro call middle answer after touches step same
  exact same.trans (touches middle answer after step)

/--
A file which is rewritten holds its old text or its new one at every moment,
and the new one exactly when the rewriting succeeds.
-/
theorem sustains_atomicWriteText
    {path : Path} {content : Text}
    (elsewhere : temporaryPath path ≠ path)
    (old : ∀ seen, SameOff (· = temporaryPath path) before seen →
      always seen)
    (new : ∀ seen, SameOff (· = temporaryPath path)
      (Function.update before path (some (encode content))) seen →
        always seen) :
    Sustains (answers repoRoot tools) always
      (atomicWriteText path content).run
      (onOk
        (fun _ after =>
          SameOff (· = temporaryPath path)
            (Function.update before path (some (encode content))) after ∧
          after (temporaryPath path) = none)
        fun _ after => SameOff (· = temporaryPath path) before after)
      before := by
  have cleanup (seen : World)
      (same : SameOff (· = temporaryPath path) before seen)
      (raised : Raised) :
      Sustains (answers repoRoot tools) always
        (do
          issue (.unlink (temporaryPath path))
          throw raised : WorkspaceTask Unit).run
        (onOk
          (fun _ after =>
            SameOff (· = temporaryPath path)
              (Function.update before path (some (encode content))) after ∧
            after (temporaryPath path) = none)
          fun _ after => SameOff (· = temporaryPath path) before after)
        seen := by
    rw [sustains_run_bind, sustains_issue]
    refine ⟨old seen same, ?_⟩
    intro answer after step
    cases answer with
    | ok _ =>
        change after = Function.update seen (temporaryPath path) none at step
        have removed : SameOff (· = temporaryPath path) before after := by
          rw [step]
          exact same.trans (sameOff_update seen _ none)
        exact ⟨old _ removed, old _ removed, removed⟩
    | error failure =>
        change after = seen at step
        have kept : SameOff (· = temporaryPath path) before after := by
          rw [step]
          exact same
        exact ⟨old _ kept, kept⟩
  rw [atomicWriteText, sustains_attempt, sustains_run_bind, sustains_issue]
  refine ⟨old before (SameOff.refl _ before), ?_⟩
  rintro answer written ⟨left, rfl, complete⟩
  have staged := sameOff_update before (temporaryPath path) left
  refine ⟨old _ staged, ?_⟩
  cases answer with
  | error failure => exact cleanup _ staged _
  | ok _ =>
      rw [onOk_ok, onOk_ok, sustains_issue]
      refine ⟨old _ staged, ?_⟩
      intro moved after step
      cases moved with
      | error failure =>
          change after = _ at step
          rw [step]
          exact ⟨old _ staged, cleanup _ staged _⟩
      | ok _ =>
          rcases step with ⟨bytes, present, rfl⟩
          rw [Function.update_self, complete rfl] at present
          cases present
          have placed :
              SameOff (· = temporaryPath path)
                (Function.update before path (some (encode content)))
                (Function.update
                  (Function.update
                    (Function.update before (temporaryPath path) left)
                    (temporaryPath path) none)
                  path (some (encode content))) := by
            intro other off
            by_cases same : other = path
            · subst same
              rw [Function.update_self, Function.update_self]
            · rw [Function.update_of_ne same, Function.update_of_ne off,
                Function.update_of_ne off, Function.update_of_ne same]
          refine ⟨new _ placed, placed, ?_⟩
          rw [Function.update_of_ne elsewhere, Function.update_self]

/-- A file which is rewritten has its new text, and the others are kept. -/
theorem ensures_atomicWriteText
    {path : Path} (elsewhere : temporaryPath path ≠ path) (content : Text) :
    Ensures (answers repoRoot tools) (atomicWriteText path content).run
      (WhenOk fun _ after =>
        SameOff (· = temporaryPath path)
          (Function.update before path (some (encode content))) after)
      before := by
  have sustained :=
    @sustains_atomicWriteText repoRoot tools before (fun _ => True) path
      content elsewhere (fun _ _ => trivial) fun _ _ => trivial
  apply sustained.ensures.mono
  intro result after holds
  cases result with
  | error raised => trivial
  | ok _ => exact holds.1

end Rules

/-! ## Rewriting several files -/

/-- The world in which the files have these texts. -/
def placed (files : List (Path × Text)) (world : World) : World :=
  applyWrites (files.map fun file => (file.1, some (encode file.2))) world

theorem placed_cons (file : Path × Text) (files : List (Path × Text))
    (world : World) :
    placed (file :: files) world =
      placed files (Function.update world file.1 (some (encode file.2))) :=
  rfl

theorem placed_append (first second : List (Path × Text)) (world : World) :
    placed (first ++ second) world = placed second (placed first world) := by
  rw [placed, List.map_append, applyWrites, List.foldl_append]
  rfl

theorem placed_of_notMem
    {files : List (Path × Text)} {path : Path}
    (absent : path ∉ files.map Prod.fst) (world : World) :
    placed files world path = world path := by
  induction files generalizing world with
  | nil => rfl
  | cons file files induction =>
      rw [List.map_cons, List.mem_cons, not_or] at absent
      rw [placed_cons, induction absent.2, Function.update_of_ne absent.1]

theorem placed_of_mem
    {files : List (Path × Text)} {file : Path × Text}
    (nodup : (files.map Prod.fst).Nodup) (member : file ∈ files)
    (world : World) :
    placed files world file.1 = some (encode file.2) := by
  induction files generalizing world with
  | nil => cases member
  | cons first files induction =>
      rw [List.map_cons, List.nodup_cons] at nodup
      rw [placed_cons]
      rcases List.mem_cons.mp member with rfl | later
      · rw [placed_of_notMem nodup.1, Function.update_self]
      · exact induction nodup.2 later _

/-- What is placed again stays as it is. -/
theorem placed_again
    {files done : List (Path × Text)} (nodup : (files.map Prod.fst).Nodup)
    (started : done <+: files) (world : World) :
    placed done (placed files world) = placed files world := by
  funext path
  by_cases member : path ∈ done.map Prod.fst
  · rcases List.mem_map.mp member with ⟨file, present, rfl⟩
    rw [placed_of_mem (nodup.sublist (started.sublist.map _)) present,
      placed_of_mem nodup (started.subset present)]
  · exact placed_of_notMem member _

theorem SameOff.placed
    {paths : Path → Prop} {first second : World}
    (same : SameOff paths first second) (files : List (Path × Text)) :
    SameOff paths (Workspace.placed files first)
      (Workspace.placed files second) := by
  intro path off
  rw [Workspace.placed, Workspace.placed, applyWrites_apply,
    applyWrites_apply, same path off]

section Rewrites

variable {repoRoot : Path} {tools : Tools} {scratch : Path → Prop}

/-- Files are rewritten in order, each of them at once. -/
theorem sustains_rewrites
    {always : World → Prop} {files : List (Path × Text)}
    {base before : World}
    (staged : ∀ file ∈ files, scratch (temporaryPath file.1))
    (apart : ∀ file ∈ files, ¬ scratch file.1)
    (covers : ∀ done, done <+: files → ∀ seen,
      SameOff scratch (placed done base) seen → always seen)
    (start : SameOff scratch base before) :
    Sustains (answers repoRoot tools) always
      (forEach (fun file : Path × Text => atomicWriteText file.1 file.2)
        files).run
      (onOk
        (fun _ after =>
          SameOff scratch (placed files base) after ∧
            (∀ path, scratch path → before path = none →
              after path = none) ∧
            ∀ file ∈ files, after (temporaryPath file.1) = none)
        fun _ _ => True)
      before := by
  induction files generalizing base before with
  | nil =>
      refine ⟨covers [] (List.prefix_refl []) before start, start, ?_, ?_⟩
      · exact fun _ _ clean => clean
      · exact fun _ member => nomatch member
  | cons file files induction =>
      have own : scratch (temporaryPath file.1) :=
        staged file List.mem_cons_self
      have notScratch : ¬ scratch file.1 := apart file List.mem_cons_self
      have elsewhere : temporaryPath file.1 ≠ file.1 := by
        intro same
        rw [same] at own
        exact notScratch own
      have widen (first second : World)
          (same : SameOff (· = temporaryPath file.1) first second) :
          SameOff scratch first second := by
        apply same.widen
        rintro path rfl
        exact own
      have replaced := start.placed [file]
      apply (sustains_atomicWriteText elsewhere
        (fun seen same => covers [] List.nil_prefix seen
          (start.trans (widen _ _ same)))
        (fun seen same => covers [file]
          (List.prefix_append [file] files) seen
          (replaced.trans (widen _ _ same)))).run_bind
      · rintro _ middle _ ⟨same, removed⟩
        apply (induction
          (fun other member => staged other (List.mem_cons_of_mem _ member))
          (fun other member => apart other (List.mem_cons_of_mem _ member))
          (fun done started seen kept => covers (file :: done)
            (List.cons_prefix_cons.mpr ⟨rfl, started⟩) seen kept)
          (replaced.trans (widen _ _ same))).mono
        intro result after _ holds
        cases result with
        | error error => trivial
        | ok _ =>
            rcases holds with ⟨final, clean, cleared⟩
            have stays (path : Path) (isScratch : scratch path)
                (absent : before path = none) : middle path = none := by
              by_cases current : path = temporaryPath file.1
              · rw [current]
                exact removed
              · rw [same path current, Function.update_of_ne, absent]
                rintro rfl
                exact notScratch isScratch
            refine ⟨final, ?_, ?_⟩
            · intro path isScratch absent
              exact clean path isScratch (stays path isScratch absent)
            · intro other member
              rcases List.mem_cons.mp member with rfl | later
              · exact clean _ own removed
              · exact cleared other later
      · exact fun _ _ _ _ => trivial

end Rewrites

/-! ## Tools which never fail -/

/-- What the tools make and answer when nothing fails. -/
structure Machinery where
  built : (crate triple : Text) → Bytes
  report : Inspector → Bytes → Result
  sign : (secretKey target : Bytes) → Bytes
  environ : Text → Option Text
  system : Text
  machine : Text
  temporary : Path

/-- What the tools do is what they are relied on for. -/
structure Machinery.Truthful (machinery : Machinery) (tools : Tools) :
    Prop where
  report : ∀ inspector bytes,
    tools.reports inspector bytes (machinery.report inspector bytes)
  sign : ∀ secretKey target,
    tools.signs secretKey target (machinery.sign secretKey target)
  environment : ∀ name, tools.environment name (machinery.environ name)
  system : machinery.system = tools.hostSystem
  machine : machinery.machine = tools.hostMachine
  temporary : ∃ (base : Path) (name : Text),
    machinery.temporary = base.child ("tmp".toList ++ name)

/-- The end of a command which succeeds. -/
def succeeded : Result where
  exited := 0
  stdout := []
  stderr := []

/-- The files which there are. -/
abbrev Files := List (Path × Bytes)

/-- The file at a path is removed. -/
def Files.remove (path : Path) (files : Files) : Files :=
  files.filter fun file => file.1 ≠ path

/-- The file at a path has these bytes. -/
def Files.store (path : Path) (bytes : Bytes) (files : Files) : Files :=
  (path, bytes) :: files.remove path

def Files.world (files : Files) : World :=
  fun path => files.lookup path

theorem Files.world_cons_self (file : Path × Bytes) (files : Files) :
    Files.world (file :: files) file.1 = some file.2 := by
  rw [Files.world, List.lookup_cons, beq_self_eq_true]

theorem Files.world_cons_of_ne
    {path : Path} {file : Path × Bytes} (different : path ≠ file.1)
    (files : Files) :
    Files.world (file :: files) path = files.world path := by
  rw [Files.world, List.lookup_cons, beq_false_of_ne different]
  rfl

/-- Files which are filtered by their paths show those paths only. -/
theorem Files.world_filter (keep : Path → Bool) (files : Files)
    (path : Path) :
    Files.world (files.filter fun file => keep file.1) path =
      if keep path = true then files.world path else none := by
  induction files with
  | nil => split_ifs <;> rfl
  | cons file files induction =>
      rw [List.filter_cons]
      by_cases own : path = file.1
      · subst own
        cases kept : keep file.1 with
        | true =>
            rw [if_pos rfl, if_pos rfl, world_cons_self, world_cons_self]
        | false =>
            rw [kept] at induction
            rw [if_neg Bool.false_ne_true, induction]
            rfl
      · rw [world_cons_of_ne own, ← induction]
        split_ifs
        · exact world_cons_of_ne own _
        · rfl

@[simp]
theorem Files.world_remove (path : Path) (files : Files) :
    (files.remove path).world = Function.update files.world path none := by
  funext other
  have filtered := world_filter (fun name => decide (name ≠ path)) files other
  by_cases same : other = path
  · rw [same, Function.update_self]
    rw [same] at filtered
    exact filtered.trans (if_neg (by simp))
  · rw [Function.update_of_ne same]
    exact filtered.trans (if_pos (by simp [same]))

@[simp]
theorem Files.world_store (path : Path) (bytes : Bytes) (files : Files) :
    (files.store path bytes).world =
      Function.update files.world path (some bytes) := by
  funext other
  by_cases same : other = path
  · rw [same, Function.update_self]
    exact world_cons_self (path, bytes) _
  · rw [Function.update_of_ne same]
    have shown :
        (files.store path bytes).world other =
          (files.remove path).world other :=
      @world_cons_of_ne _ (path, bytes) same _
    rw [shown, world_remove, Function.update_of_ne same]

/-- The files which have these texts, and no others. -/
def Files.ofTexts (texts : List (Path × Text)) : Files :=
  texts.foldl (fun files text => files.store text.1 (encode text.2)) []

section Machinery

variable (repoRoot : Path) (machinery : Machinery)

/-- A build places its binary in the target directory. -/
def Machinery.build (crate triple : Text) (files : Files) : Files :=
  if (builtPath repoRoot crate triple).startsWith
      ((workspaceRoot repoRoot).join "target".toList) = true then
    files.store (builtPath repoRoot crate triple)
      (machinery.built crate triple)
  else
    files

theorem sameOff_build (crate triple : Text) (files : Files) :
    SameOff
      (fun path =>
        path.startsWith
          ((workspaceRoot repoRoot).join "target".toList) = true)
      files.world (machinery.build repoRoot crate triple files).world := by
  intro path outside
  unfold Machinery.build
  split_ifs with inside
  · rw [Files.world_store]
    apply Function.update_of_ne
    rintro rfl
    exact outside inside
  · rfl

/-- The end of a command, and what it leaves. -/
def Machinery.command (files : Files) : Command → Result × Files
  | .build crate triple =>
      (succeeded, machinery.build repoRoot crate triple files)
  | .zigbuild crate triple _ =>
      (succeeded, machinery.build repoRoot crate triple files)
  | .inspect inspector binary =>
      (machinery.report inspector ((files.world binary).getD []), files)
  | .copy source destination =>
      match files.world source with
      | some bytes => (succeeded, files.store destination bytes)
      | none => ({ succeeded with exited := 1 }, files)
  | .archive archive _ _ => (succeeded, files.store archive [])
  | .configure _ _ => (succeeded, files)
  | .pull => (succeeded, files)

/-- The answers of tools and files which never fail. -/
def faultless : Handler workspace Files
  | .readText path, files =>
      match (files.world path).bind decode with
      | some raw => (.ok (universalNewlines raw), files)
      | none => (.error (.osError []), files)
  | .writeText path content, files =>
      (.ok (), files.store path (encode content))
  | .readBytes path, files =>
      match files.world path with
      | some bytes => (.ok bytes, files)
      | none => (.error (.osError []), files)
  | .replace source target, files =>
      match files.world source with
      | some bytes => (.ok (), (files.remove source).store target bytes)
      | none => (.error (.osError []), files)
  | .unlink path, files => (.ok (), files.remove path)
  | .makeDirectories _, files => (.ok (), files)
  | .chmod _, files => (.ok (), files)
  | .run command, files =>
      (.ok (machinery.command repoRoot files command).1,
        (machinery.command repoRoot files command).2)
  | .minisignSign secretKey signature target, files =>
      match files.world secretKey, files.world target with
      | some key, some bytes =>
          (.ok { returncode := 0, stderr := [] },
            files.store signature (machinery.sign key bytes))
      | _, _ => (.error (.osError []), files)
  | .environ name, files => (.ok (machinery.environ name), files)
  | .system, files => (.ok machinery.system, files)
  | .machine, files => (.ok machinery.machine, files)
  | .temporaryDirectory, files =>
      if files.all fun file => !file.1.startsWith machinery.temporary then
        (.ok machinery.temporary, files)
      else
        (.error (.osError []), files)
  | .removeDirectory directory, files =>
      (.ok (), files.filter fun file => !file.1.startsWith directory)

theorem world_fresh
    {files : Files} {directory : Path}
    (fresh : (files.all fun file => !file.1.startsWith directory) = true)
    {path : Path} (inside : path.startsWith directory = true) :
    files.world path = none := by
  rw [Files.world, List.lookup_eq_none_iff]
  intro file member
  have outside := List.all_eq_true.mp fresh file member
  simp only [Bool.not_eq_true'] at outside
  have different : path ≠ file.1 := by
    rintro rfl
    rw [inside] at outside
    cases outside
  simpa using different

theorem faultless_admissible
    {tools : Tools} (truthful : machinery.Truthful tools)
    (call : Call) (files : Files) :
    answers repoRoot tools call files.world
      (faultless repoRoot machinery call files).1
      (faultless repoRoot machinery call files).2.world := by
  cases call with
  | readText path =>
      cases present : (files.world path).bind decode with
      | none => simp [faultless, answers, present]
      | some raw =>
          rcases Option.bind_eq_some_iff.mp present with
            ⟨bytes, found, decoded⟩
          simp only [faultless, answers, present]
          refine ⟨trivial, ?_⟩
          intro text equal
          cases equal
          exact ⟨bytes, raw, found, decoded, rfl⟩
  | writeText path content =>
      exact ⟨_, Files.world_store _ _ _, fun _ => rfl⟩
  | readBytes path =>
      cases present : files.world path with
      | none => simp [faultless, answers, present]
      | some bytes =>
          simp only [faultless, answers, present]
          refine ⟨trivial, ?_⟩
          intro other equal
          cases equal
          rfl
  | replace source target =>
      cases present : files.world source with
      | none => simp [faultless, answers, present]
      | some bytes => simp [faultless, answers, present]
  | unlink path => exact Files.world_remove _ _
  | run command =>
      cases command with
      | build crate triple => exact sameOff_build repoRoot machinery _ _ _
      | zigbuild crate triple _ => exact sameOff_build repoRoot machinery _ _ _
      | inspect inspector binary =>
          refine ⟨rfl, ?_⟩
          intro result equal bytes present
          cases equal
          simp only [Machinery.command, present, Option.getD_some]
          exact truthful.report inspector bytes
      | copy source destination =>
          cases present : files.world source with
          | none =>
              simp only [faultless, Machinery.command, present]
              refine ⟨files.world destination,
                (Function.update_eq_self _ _).symm, ?_⟩
              intro result equal success
              cases equal
              cases success
          | some bytes =>
              simp only [faultless, Machinery.command, present]
              exact ⟨_, Files.world_store _ _ _,
                fun _ _ _ => ⟨rfl, present.symm⟩⟩
      | archive archive directory name =>
          exact ⟨_, Files.world_store _ _ _⟩
      | configure name value => rfl
      | pull => trivial
  | minisignSign secretKey signature target =>
      have unsigned :
          answers repoRoot tools (.minisignSign secretKey signature target)
            files.world (.error (.osError [])) files.world :=
        ⟨files.world signature, (Function.update_eq_self _ _).symm,
          fun _ impossible => nomatch impossible⟩
      cases key : files.world secretKey with
      | none =>
          simp only [faultless, key]
          exact unsigned
      | some keyBytes =>
          cases present : files.world target with
          | none =>
              simp only [faultless, key, present]
              exact unsigned
          | some bytes =>
              simp only [faultless, key, present]
              exact ⟨_, Files.world_store _ _ _,
                fun _ _ _ => ⟨keyBytes, bytes, _, key, present,
                  rfl, truthful.sign keyBytes bytes⟩⟩
  | environ name =>
      refine ⟨rfl, ?_⟩
      intro value equal
      cases equal
      exact truthful.environment name
  | system =>
      refine ⟨rfl, ?_⟩
      intro system equal
      cases equal
      exact truthful.system
  | machine =>
      refine ⟨rfl, ?_⟩
      intro machine equal
      cases equal
      exact truthful.machine
  | temporaryDirectory =>
      by_cases fresh :
          (files.all fun file =>
            !file.1.startsWith machinery.temporary) = true
      · simp only [faultless, if_pos fresh]
        refine ⟨rfl, ?_⟩
        intro directory equal
        cases equal
        exact ⟨fun _ => world_fresh fresh, truthful.temporary⟩
      · simp only [faultless, if_neg fresh]
        exact ⟨rfl, fun _ impossible => nomatch impossible⟩
  | removeDirectory directory =>
      have cleared :=
        Files.world_filter (fun path => !path.startsWith directory) files
      constructor
      · intro path
        by_cases inside : path.startsWith directory = true
        · exact Or.inr
            ⟨inside, (cleared path).trans (if_neg (by simp [inside]))⟩
        · exact Or.inl ((cleared path).trans (if_pos (by simp [inside])))
      · intro _ path inside
        exact (cleared path).trans (if_neg (by simp [inside]))
  | _ => rfl

/-- What is executed without faults on files is a run. -/
theorem runs_faultless
    {tools : Tools} (truthful : machinery.Truthful tools)
    {α : Type} (program : Program workspace α) (files : Files) :
    Runs (answers repoRoot tools) program files.world
      (program.execute (faultless repoRoot machinery) files).1
      (program.execute (faultless repoRoot machinery) files).2.world :=
  runs_execute_view
    (faultless_admissible repoRoot machinery truthful) program files

end Machinery

end Luminosity.Tasks.Workspace
