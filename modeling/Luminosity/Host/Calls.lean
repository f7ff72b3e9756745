import Luminosity.Host.Paths
import Luminosity.Foundation.Interleaving

/-!
# Host calls

The operations a program asks its host for: the file system, the process, the
network.  Each is one indivisible step, except for the composite calls of the
standard library, which are programs over them: writing a whole file creates
or truncates it and then appends its bytes one at a time, so that every prefix
can be observed and every byte can be the first one to fail, and creating a
directory with its ancestors issues one `createDir` for each level it needs.

An append goes to the path its handle was opened at.
-/

namespace Luminosity.Host.Calls

open Luminosity.Foundation.TextSegments
open Luminosity.Foundation.EffectPrograms
open Luminosity.Foundation.Interleaving
open Luminosity.Host.Paths

inductive ErrorKind where
  | notFound
  | permissionDenied
  | alreadyExists
  | notADirectory
  | isADirectory
  | directoryNotEmpty
  | filesystemLoop
  | invalidData
  | other
deriving DecidableEq, Repr

structure IoError where
  kind : ErrorKind
  detail : Text
deriving DecidableEq

/-- What a directory entry is, without following it. -/
inductive FileType where
  | file
  | directory
  | symlink
deriving DecidableEq, Repr

/-- The terminal failure of a download. -/
inductive FetchError where
  | notFound
  | unreachable (detail : Text)
deriving DecidableEq

inductive Call where
  | canonicalize (path : Path)
  | symlinkMetadata (path : Path)
  | isDir (path : Path)
  | pathExists (path : Path)
  | read (path : Path)
  | readDir (path : Path)
  | modified (path : Path)
  | createDir (path : Path)
  | create (path : Path)
  | append (path : Path) (byte : UInt8)
  | setPermissions (path : Path) (mode : Nat)
  | rename (source target : Path)
  | removeFile (path : Path)
  | processId
  | fetchAdd
  | get (url : Text)
deriving DecidableEq

@[reducible]
def Call.Answer : Call → Type
  | .canonicalize _ => Except IoError Path
  | .symlinkMetadata _ => Except IoError FileType
  | .isDir _ => Bool
  | .pathExists _ => Bool
  | .read _ => Except IoError Bytes
  | .readDir _ => Except IoError (List (Except IoError OsText))
  | .modified _ => Except IoError Int
  | .createDir _ => Except IoError Unit
  | .create _ => Except IoError Unit
  | .append _ _ => Except IoError Unit
  | .setPermissions _ _ => Except IoError Unit
  | .rename _ _ => Except IoError Unit
  | .removeFile _ => Except IoError Unit
  | .processId => UInt32
  | .fetchAdd => UInt64
  | .get _ => Except FetchError Bytes

abbrev host : Interface := ⟨Call, Call.Answer⟩

/-- A computation over the host. -/
abbrev HostProgram := Program host

/-- A computation over the host which may fail. -/
abbrev HostExcept (ε : Type) := ExceptT ε HostProgram

/-- Ask the host for one operation. -/
def issue (call : Call) : HostProgram call.Answer :=
  @Program.perform host call

/-- Ask the host for one operation inside a computation which may fail. -/
def invoke {ε : Type} (call : Call) : HostExcept ε call.Answer :=
  @Program.call host ε call

/-! ## Composite calls of the standard library -/

def invalidUtf8 : IoError :=
  { kind := .invalidData
    detail := "stream did not contain valid UTF-8".toList }

/-- The text of a file's bytes. -/
def textOf : Except IoError Bytes → Except IoError Text
  | .error error => .error error
  | .ok bytes =>
      match decode bytes with
      | some text => .ok text
      | none => .error invalidUtf8

def readToString (path : Path) : HostProgram (Except IoError Text) := do
  let answer ← issue (.read path)
  return textOf answer

/-- Append each byte in turn, up to the first failure. -/
def writeAll (path : Path) : Bytes → HostProgram (Except IoError Unit)
  | [] => return .ok ()
  | byte :: rest => do
      match ← issue (.append path byte) with
      | .ok () => writeAll path rest
      | .error error => return .error error

def writeFile (path : Path) (bytes : Bytes) :
    HostProgram (Except IoError Unit) := do
  match ← issue (.create path) with
  | .ok () => writeAll path bytes
  | .error error => return .error error

/-- Forgive an error at a path which is a directory by now. -/
def orDirectory (path : Path) (error : IoError) :
    HostProgram (Except IoError Unit) := do
  match ← issue (.isDir path) with
  | true => return .ok ()
  | false => return .error error

/-- The recursion of `createDirAll`, on the components in reverse. -/
def createDirAllReversed (absolute : Bool) :
    List Component → HostProgram (Except IoError Unit)
  | [] =>
      if absolute then do
        let path : Path := { absolute, components := [] }
        match ← issue (.createDir path) with
        | .ok () => return .ok ()
        | .error error =>
            if error.kind = .notFound then
              return .error
                { kind := .other
                  detail := "failed to create whole tree".toList }
            else
              orDirectory path error
      else
        return .ok ()
  | component :: ancestors => do
      let path : Path :=
        { absolute, components := (component :: ancestors).reverse }
      match ← issue (.createDir path) with
      | .ok () => return .ok ()
      | .error error =>
          if error.kind = .notFound then
            match ← createDirAllReversed absolute ancestors with
            | .error error => return .error error
            | .ok () =>
                match ← issue (.createDir path) with
                | .ok () => return .ok ()
                | .error error => orDirectory path error
          else
            orDirectory path error

def createDirAll (path : Path) : HostProgram (Except IoError Unit) :=
  createDirAllReversed path.absolute path.components.reverse

/-- Creating a directory and, where the way to it is missing, its ancestors. -/
theorem createDirAll_child (path : Path) (name : Text) :
    createDirAll (path.child name) = (do
      match ← issue (.createDir (path.child name)) with
      | .ok () => return .ok ()
      | .error error =>
          if error.kind = .notFound then
            match ← createDirAll path with
            | .error error => return .error error
            | .ok () =>
                match ← issue (.createDir (path.child name)) with
                | .ok () => return .ok ()
                | .error error => orDirectory (path.child name) error
          else
            orDirectory (path.child name) error) := by
  have whole :
      { absolute := path.absolute
        components :=
          (.normal name :: path.components.reverse).reverse : Path } =
        path.child name := by
    simp [Path.child]
  rw [createDirAll, child_components, List.reverse_append,
    List.reverse_singleton, List.singleton_append, createDirAllReversed,
    child_absolute, whole, createDirAll.eq_1 path]
  apply bind_congr
  intro answer
  cases answer with
  | ok _ => rfl
  | error error =>
      simp only
      split_ifs
      · apply bind_congr
        intro above
        cases above with
        | error error => rfl
        | ok _ =>
            apply bind_congr
            intro again
            cases again <;> rfl
      · rfl

/-! ## The calls of the composite operations -/

/-- The calls which look at the host and change nothing. -/
def Call.Reads : Call → Prop
  | .canonicalize _ | .symlinkMetadata _ | .isDir _ | .pathExists _
  | .read _ | .readDir _ | .modified _ | .processId | .get _ => True
  | _ => False

/-- The calls which make one directory or look whether it is there. -/
def Call.Scaffolds : Call → Prop
  | .createDir _ | .isDir _ => True
  | _ => False

/-- Those of them at the path, or at a directory above it. -/
def Call.Makes (path : Path) : Call → Prop
  | .createDir made | .isDir made =>
      made.absolute = path.absolute ∧ made.components <+: path.components
  | _ => False

theorem Call.Makes.scaffolds
    {path : Path} {call : Call} (makes : call.Makes path) :
    call.Scaffolds := by
  cases call with
  | createDir made => trivial
  | isDir made => trivial
  | _ => exact makes.elim

variable {allowed : Call → Prop} {ε State : Type}

theorem asks_issue (call : Call) :
    Asks allowed (issue call) ↔ allowed call :=
  @asks_perform host _ call

theorem asks_invoke (call : Call) :
    Asks allowed (invoke call : HostExcept ε call.Answer).run ↔
      allowed call :=
  @asks_run_call host _ _ call

theorem asks_readToString
    {path : Path} (reads : allowed (.read path)) :
    Asks allowed (readToString path) := by
  apply Asks.bind
  · exact (asks_issue _).mpr reads
  · intro answer
    trivial

theorem asks_orDirectory
    {path : Path} (looks : allowed (.isDir path)) (error : IoError) :
    Asks allowed (orDirectory path error) := by
  apply Asks.bind ((asks_issue _).mpr looks)
  intro found
  cases found <;> trivial

theorem asks_createDirAllReversed
    {path : Path} {components : List Component}
    (above : components.reverse <+: path.components) :
    Asks (Call.Makes path)
      (createDirAllReversed path.absolute components) := by
  induction components with
  | nil =>
      rw [createDirAllReversed]
      split_ifs
      · apply Asks.bind ((asks_issue _).mpr ⟨rfl, List.nil_prefix⟩)
        intro created
        cases created with
        | ok _ => trivial
        | error error =>
            simp only
            split_ifs
            · trivial
            · exact asks_orDirectory ⟨rfl, List.nil_prefix⟩ error
      · trivial
  | cons component ancestors induction =>
      have earlier : ancestors.reverse <+: path.components := by
        apply List.IsPrefix.trans _ above
        rw [List.reverse_cons]
        exact List.prefix_append _ _
      rw [createDirAllReversed]
      apply Asks.bind ((asks_issue _).mpr ⟨rfl, above⟩)
      intro created
      cases created with
      | ok _ => trivial
      | error error =>
          simp only
          split_ifs
          · apply Asks.bind (induction earlier)
            intro made
            cases made with
            | error error => trivial
            | ok _ =>
                apply Asks.bind ((asks_issue _).mpr ⟨rfl, above⟩)
                intro retried
                cases retried with
                | ok _ => trivial
                | error error => exact asks_orDirectory ⟨rfl, above⟩ error
          · exact asks_orDirectory ⟨rfl, above⟩ error

/-- Making a directory asks for it and the directories above it. -/
theorem asks_makes (path : Path) :
    Asks (Call.Makes path) (createDirAll path) := by
  apply asks_createDirAllReversed
  exact (List.reverse_reverse _).symm ▸ List.prefix_rfl

theorem asks_createDirAll (path : Path) :
    Asks Call.Scaffolds (createDirAll path) :=
  (asks_makes path).mono fun _ => Call.Makes.scaffolds

theorem asks_writeFile
    {path : Path} (creates : allowed (.create path))
    (appends : ∀ byte, allowed (.append path byte)) (bytes : Bytes) :
    Asks allowed (writeFile path bytes) := by
  have written : Asks allowed (writeAll path bytes) := by
    induction bytes with
    | nil => trivial
    | cons byte rest induction =>
        rw [writeAll]
        apply Asks.bind ((asks_issue _).mpr (appends byte))
        intro answer
        cases answer with
        | ok _ => exact induction
        | error error => trivial
  apply Asks.bind ((asks_issue _).mpr creates)
  intro answer
  cases answer with
  | ok _ => exact written
  | error error => trivial

/-! ## Rules for single calls and for writing a file -/

section Rules

variable {α : Type} {semantics : Semantics host State}
variable {rules : Rules State}

theorem ensures_issue
    (call : Call) (post : call.Answer → State → Prop) (state : State) :
    Ensures semantics (issue call) post state ↔
      ∀ answer after, semantics call state answer after →
        post answer after :=
  Iff.rfl

theorem ensures_invoke_bind
    (call : Call) (next : call.Answer → HostExcept ε α)
    (post : Except ε α → State → Prop) (state : State) :
    Ensures semantics (invoke call >>= next).run post state ↔
      ∀ answer after, semantics call state answer after →
        Ensures semantics (next answer).run post after :=
  Iff.rfl

/-- Where every directory can be made, all of a path can. -/
theorem runs_createDirAll
    {state : State}
    (created : ∀ path, semantics (.createDir path) state (.ok ()) state)
    (path : Path) :
    Runs semantics (createDirAll path) state (.ok ()) state := by
  rw [createDirAll]
  cases path.components.reverse with
  | nil =>
      cases path.absolute with
      | false => exact .done _ _
      | true => exact Runs.ask (created _) (.done _ _)
  | cons component ancestors => exact Runs.ask (created _) (.done _ _)

section Writing

variable {path : Path} {state : Bytes → State} {whole : Bytes}
variable (appended : ∀ written byte, written ++ [byte] <+: whole →
  semantics (.append path byte) (state written) (.ok ())
    (state (written ++ [byte])))

include appended

/-- Where every byte of a prefix can be appended, what follows decides. -/
theorem runs_writeAll
    {bytes written rest : Bytes} (within : written ++ bytes <+: whole)
    {result : Except IoError Unit} {after : State}
    (further : Runs semantics (writeAll path rest) (state (written ++ bytes))
      result after) :
    Runs semantics (writeAll path (bytes ++ rest)) (state written) result
      after := by
  induction bytes generalizing written with
  | nil =>
      rw [List.append_nil] at further
      exact further
  | cons byte bytes induction =>
      rw [List.append_cons] at within further
      exact Runs.ask
        (appended written byte ((List.prefix_append _ bytes).trans within))
        (induction within further)

/-- Where the file can be created and filled, it is. -/
theorem runs_writeFile
    {before : State} (created : semantics (.create path) before (.ok ())
      (state [])) :
    Runs semantics (writeFile path whole) before (.ok ()) (state whole) := by
  have filled := @runs_writeAll _ _ _ _ _ appended whole [] []
    List.prefix_rfl _ _ (.done _ _)
  rw [List.append_nil] at filled
  exact Runs.ask created filled

end Writing

theorem ensures_readToString
    (path : Path) (post : Except IoError Text → State → Prop)
    (state : State) :
    Ensures semantics (readToString path) post state ↔
      ∀ answer after, semantics (.read path) state answer after →
        post (textOf answer) after :=
  Iff.rfl

/-- Reading a file as a text is one read. -/
theorem abides_readToString
    {path : Path} {pre : State → Prop}
    {post : Except IoError Text → State → Prop}
    (preStable : rules.Stable pre)
    (postStable : ∀ answer, rules.Stable (post answer))
    (step : ∀ state answer after, rules.invariant state → pre state →
      semantics (.read path) state answer after →
        rules.guarantee state after ∧
          (rules.invariant after → post (textOf answer) after)) :
    Abides semantics rules pre (readToString path) post := by
  have read :
      Abides semantics rules pre (issue (.read path))
        fun answer => post (textOf answer) := by
    apply Abides.perform preStable
    · intro answer
      exact postStable (textOf answer)
    · exact step
  apply read.bind
  intro answer
  exact Abides.pure (postStable (textOf answer)) fun _ _ holds => holds

variable {path : Path} {pre : State → Prop}
variable {progress : Bytes → State → Prop} {failure : IoError → State → Prop}

/-- The loop rule of `writeAll`: the invariant follows the written prefix. -/
theorem ensures_writeAll
    {whole : Bytes}
    (appended : ∀ written byte before answer after,
      written ++ [byte] <+: whole → progress written before →
        semantics (.append path byte) before answer after →
          onOk (fun _ => progress (written ++ [byte])) failure answer after)
    {bytes written : Bytes} (splits : written ++ bytes = whole)
    {state : State} (holds : progress written state) :
    Ensures semantics (writeAll path bytes)
      (onOk (fun _ => progress whole) failure) state := by
  induction bytes generalizing written state with
  | nil =>
      rw [List.append_nil] at splits
      exact splits ▸ holds
  | cons byte rest induction =>
      rw [List.append_cons] at splits
      rw [writeAll, ensures_bind]
      intro answer after step
      have outcome :=
        appended written byte state answer after ⟨rest, splits⟩ holds step
      cases answer with
      | error error => exact outcome
      | ok _ => exact induction splits outcome

/-- The rule of `writeFile`, of the prefixes of what is written. -/
theorem ensures_writeFile_within
    {bytes : Bytes}
    (created : ∀ before answer after, pre before →
      semantics (.create path) before answer after →
        onOk (fun _ => progress []) failure answer after)
    (appended : ∀ written byte before answer after,
      written ++ [byte] <+: bytes → progress written before →
        semantics (.append path byte) before answer after →
          onOk (fun _ => progress (written ++ [byte])) failure answer after)
    {state : State} (holds : pre state) :
    Ensures semantics (writeFile path bytes)
      (onOk (fun _ => progress bytes) failure) state := by
  rw [writeFile, ensures_bind]
  intro answer after step
  have outcome := created state answer after holds step
  cases answer with
  | error error => exact outcome
  | ok _ => exact ensures_writeAll appended (List.nil_append bytes) outcome

theorem ensures_writeFile
    (created : ∀ before answer after, pre before →
      semantics (.create path) before answer after →
        onOk (fun _ => progress []) failure answer after)
    (appended : ∀ written byte before answer after,
      progress written before →
        semantics (.append path byte) before answer after →
          onOk (fun _ => progress (written ++ [byte])) failure answer after)
    (bytes : Bytes) {state : State} (holds : pre state) :
    Ensures semantics (writeFile path bytes)
      (onOk (fun _ => progress bytes) failure) state :=
  ensures_writeFile_within created
    (fun written byte before answer after _ =>
      appended written byte before answer after)
    holds

theorem abides_writeAll
    (progressStable : ∀ written, rules.Stable (progress written))
    (failureStable : ∀ error, rules.Stable (failure error))
    (appended : ∀ written byte before answer after,
      rules.invariant before → progress written before →
        semantics (.append path byte) before answer after →
          rules.guarantee before after ∧
            (rules.invariant after →
              onOk (fun _ => progress (written ++ [byte])) failure
                answer after))
    (bytes written : Bytes) :
    Abides semantics rules (progress written) (writeAll path bytes)
      (onOk (fun _ => progress (written ++ bytes)) failure) := by
  induction bytes generalizing written with
  | nil =>
      rw [List.append_nil]
      exact Abides.pure (progressStable written) fun _ _ holds => holds
  | cons byte rest induction =>
      have first :
          Abides semantics rules (progress written)
            (issue (.append path byte))
            (onOk (fun _ => progress (written ++ [byte])) failure) := by
        apply Abides.perform (progressStable written)
        · intro answer
          cases answer with
          | error error => exact failureStable error
          | ok _ => exact progressStable _
        · exact appended written byte
      rw [writeAll]
      apply first.bind
      intro answer
      cases answer with
      | error error =>
          exact Abides.pure (failureStable error) fun _ _ holds => holds
      | ok _ =>
          have tail := induction (written ++ [byte])
          rw [← List.append_cons] at tail
          exact tail

theorem abides_writeFile
    (preStable : rules.Stable pre)
    (progressStable : ∀ written, rules.Stable (progress written))
    (failureStable : ∀ error, rules.Stable (failure error))
    (created : ∀ before answer after, rules.invariant before → pre before →
      semantics (.create path) before answer after →
        rules.guarantee before after ∧
          (rules.invariant after →
            onOk (fun _ => progress []) failure answer after))
    (appended : ∀ written byte before answer after,
      rules.invariant before → progress written before →
        semantics (.append path byte) before answer after →
          rules.guarantee before after ∧
            (rules.invariant after →
              onOk (fun _ => progress (written ++ [byte])) failure
                answer after))
    (bytes : Bytes) :
    Abides semantics rules pre (writeFile path bytes)
      (onOk (fun _ => progress bytes) failure) := by
  have first :
      Abides semantics rules pre (issue (.create path))
        (onOk (fun _ => progress []) failure) := by
    apply Abides.perform preStable
    · intro answer
      cases answer with
      | error error => exact failureStable error
      | ok _ => exact progressStable []
    · exact created
  rw [writeFile]
  apply first.bind
  intro answer
  cases answer with
  | error error =>
      exact Abides.pure (failureStable error) fun _ _ holds => holds
  | ok _ =>
      exact abides_writeAll progressStable failureStable appended bytes []

end Rules

end Luminosity.Host.Calls
