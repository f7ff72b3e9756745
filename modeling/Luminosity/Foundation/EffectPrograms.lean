import Mathlib.Logic.Relation

/-!
# Programs over an operation interface

A program is a tree of operations: it either is done with a value, or asks its
environment for one operation and continues with the answer.  What an
operation does is not part of the program.  A semantics relates the state
before an operation to its possible answers and the states they leave, so one
program text can be run over several kinds of environment.

`Runs` is the big-step relation of complete runs, and `Ensures` the weakest
liberal precondition, computed by recursion on the program.  The rules for
sequencing reduce a claim about a program to claims about its parts.
-/

namespace Luminosity.Foundation.EffectPrograms

/-- The operations of an environment, each with the type of its answers. -/
structure Interface where
  Op : Type
  Answer : Op → Type

/-- A program which computes a value by asking for operations. -/
inductive Program (interface : Interface) (α : Type) where
  | done (value : α)
  | ask
      (op : interface.Op)
      (next : interface.Answer op → Program interface α)

/-- The possible answers of each operation, and the states they leave. -/
abbrev Semantics (interface : Interface) (State : Type) :=
  (op : interface.Op) → State → interface.Answer op → State → Prop

variable {interface : Interface} {State : Type} {α β ε : Type}

namespace Program

/-- Continue a program with the value it computes. -/
def bind :
    Program interface α → (α → Program interface β) →
      Program interface β
  | .done value, next => next value
  | .ask op resume, next => .ask op fun answer => (resume answer).bind next

instance : Monad (Program interface) where
  pure := .done
  bind := bind

theorem bind_done (program : Program interface α) :
    program.bind .done = program := by
  induction program with
  | done value => rfl
  | ask op next induction =>
      change Program.ask op (fun answer => (next answer).bind .done) = _
      rw [funext induction]

theorem bind_assoc {γ : Type}
    (program : Program interface α)
    (first : α → Program interface β) (second : β → Program interface γ) :
    (program.bind first).bind second =
      program.bind fun value => (first value).bind second := by
  induction program with
  | done value => rfl
  | ask op next induction =>
      change Program.ask op (fun answer =>
        ((next answer).bind first).bind second) = _
      rw [funext induction]
      rfl

instance : LawfulMonad (Program interface) :=
  LawfulMonad.mk' _ bind_done (fun _ _ => rfl) bind_assoc

/-- Ask for one operation and return its answer. -/
def perform (op : interface.Op) : Program interface (interface.Answer op) :=
  .ask op .done

/-- Ask for one operation inside a computation which may fail. -/
def call (op : interface.Op) :
    ExceptT ε (Program interface) (interface.Answer op) :=
  ExceptT.lift (perform op)

end Program

/-! ## Complete runs -/

/-- The complete runs of a program. -/
inductive Runs (semantics : Semantics interface State) :
    Program interface α → State → α → State → Prop where
  | done (value : α) (state : State) :
      Runs semantics (.done value) state value state
  | ask
      (step : semantics op state answer middle)
      (rest : Runs semantics (next answer) middle value final) :
      Runs semantics (.ask op next) state value final

/-- Runs of a semantics are runs of every semantics which allows its steps. -/
theorem Runs.mono
    {strict lax : Semantics interface State}
    (weaken : ∀ op state answer after,
      strict op state answer after → lax op state answer after)
    {program : Program interface α} {state final : State} {value : α}
    (runs : Runs strict program state value final) :
    Runs lax program state value final := by
  induction runs with
  | done value state => exact .done value state
  | ask step rest induction =>
      exact .ask (weaken _ _ _ _ step) induction

theorem Runs.perform
    {semantics : Semantics interface State} {op : interface.Op}
    {state after : State} {answer : interface.Answer op}
    (step : semantics op state answer after) :
    Runs semantics (Program.perform op) state answer after :=
  .ask step (.done answer after)

/-- Runs compose along a sequence. -/
theorem Runs.bind
    {semantics : Semantics interface State}
    {program : Program interface α} {next : α → Program interface β}
    {state middle final : State} {value : α} {result : β}
    (first : Runs semantics program state value middle)
    (rest : Runs semantics (next value) middle result final) :
    Runs semantics (program >>= next) state result final := by
  induction first with
  | done value state => exact rest
  | ask step _ induction => exact .ask step (induction rest)

/-- A semantics in which every operation has an answer. -/
def Responsive (semantics : Semantics interface State) : Prop :=
  ∀ op state, ∃ answer after, semantics op state answer after

theorem Responsive.exists_run
    {semantics : Semantics interface State}
    (responsive : Responsive semantics)
    (program : Program interface α) (state : State) :
    ∃ value final, Runs semantics program state value final := by
  induction program generalizing state with
  | done value => exact ⟨value, state, .done value state⟩
  | ask op next induction =>
      rcases responsive op state with ⟨answer, middle, step⟩
      rcases induction answer middle with ⟨value, final, rest⟩
      exact ⟨value, final, .ask step rest⟩

/-- One answer for each operation and state. -/
abbrev Handler (interface : Interface) (State : Type) :=
  (op : interface.Op) → State → interface.Answer op × State

/-- The run of a program in which the handler answers every operation. -/
def Program.execute (handler : Handler interface State) :
    Program interface α → State → α × State
  | .done value, state => (value, state)
  | .ask op next, state =>
      (next (handler op state).1).execute handler (handler op state).2

@[simp]
theorem execute_pure
    (handler : Handler interface State) (value : α) (state : State) :
    (pure value : Program interface α).execute handler state =
      (value, state) := rfl

@[simp]
theorem execute_perform
    (handler : Handler interface State) (op : interface.Op) (state : State) :
    (Program.perform op).execute handler state = handler op state := rfl

@[simp]
theorem execute_bind
    (handler : Handler interface State) (program : Program interface α)
    (next : α → Program interface β) (state : State) :
    (program >>= next).execute handler state =
      (next (program.execute handler state).1).execute handler
        (program.execute handler state).2 := by
  induction program generalizing state with
  | done value => rfl
  | ask op resume induction => exact induction _ _

/-- An execution by admissible answers is a run. -/
theorem runs_execute
    {semantics : Semantics interface State}
    {handler : Handler interface State}
    (admissible : ∀ op state,
      semantics op state (handler op state).1 (handler op state).2)
    (program : Program interface α) (state : State) :
    Runs semantics program state
      (program.execute handler state).1
      (program.execute handler state).2 := by
  induction program generalizing state with
  | done value => exact .done value state
  | ask op next induction =>
      exact .ask (admissible op state) (induction _ _)

/-- An execution is a run of what it shows, if its answers are admissible. -/
theorem runs_execute_view
    {Shown : Type} {view : State → Shown}
    {semantics : Semantics interface Shown}
    {handler : Handler interface State}
    (admissible : ∀ op state,
      semantics op (view state) (handler op state).1
        (view (handler op state).2))
    (program : Program interface α) (state : State) :
    Runs semantics program (view state)
      (program.execute handler state).1
      (view (program.execute handler state).2) := by
  induction program generalizing state with
  | done value => exact .done value (view state)
  | ask op next induction =>
      exact .ask (admissible op state) (induction _ _)

/-! ## Weakest liberal preconditions -/

/-- Every run of the program from the state satisfies the postcondition. -/
def Ensures (semantics : Semantics interface State) :
    Program interface α → (α → State → Prop) → State → Prop
  | .done value, post, state => post value state
  | .ask op next, post, state =>
      ∀ answer middle, semantics op state answer middle →
        Ensures semantics (next answer) post middle

variable {semantics : Semantics interface State}

/-- The weakest precondition is exact for the complete runs. -/
theorem ensures_iff_runs
    (program : Program interface α) (post : α → State → Prop)
    (state : State) :
    Ensures semantics program post state ↔
      ∀ value final, Runs semantics program state value final →
        post value final := by
  induction program generalizing state with
  | done value =>
      constructor
      · intro holds result final runs
        cases runs
        exact holds
      · intro holds
        exact holds value state (.done value state)
  | ask op next induction =>
      constructor
      · intro holds result final runs
        cases runs with
        | ask step rest =>
            exact (induction _ _).mp (holds _ _ step) _ _ rest
      · intro holds answer middle step
        apply (induction answer middle).mpr
        intro value final rest
        exact holds value final (.ask step rest)

/-- A program ensures what its own runs are. -/
theorem ensures_runs (program : Program interface α) (state : State) :
    Ensures semantics program (Runs semantics program state) state :=
  (ensures_iff_runs program _ state).mpr fun _ _ runs => runs

theorem Ensures.of_run
    {program : Program interface α} {post : α → State → Prop}
    {state final : State} {value : α}
    (ensured : Ensures semantics program post state)
    (runs : Runs semantics program state value final) :
    post value final :=
  (ensures_iff_runs program post state).mp ensured value final runs

theorem Ensures.mono
    {program : Program interface α} {post weaker : α → State → Prop}
    {state : State}
    (ensured : Ensures semantics program post state)
    (weaken : ∀ value final, post value final → weaker value final) :
    Ensures semantics program weaker state := by
  induction program generalizing state with
  | done value => exact weaken value state ensured
  | ask op next induction =>
      intro answer middle step
      exact induction answer (ensured answer middle step)

theorem Ensures.and
    {program : Program interface α} {left right : α → State → Prop}
    {state : State}
    (leftEnsured : Ensures semantics program left state)
    (rightEnsured : Ensures semantics program right state) :
    Ensures semantics program
      (fun value final => left value final ∧ right value final) state := by
  induction program generalizing state with
  | done value => exact ⟨leftEnsured, rightEnsured⟩
  | ask op next induction =>
      intro answer middle step
      exact induction answer (leftEnsured answer middle step)
        (rightEnsured answer middle step)

/-- What is ensured of a view of the state is ensured of the state. -/
theorem Ensures.view
    {Shown : Type} {coarse : Semantics interface Shown} {view : State → Shown}
    (simulates : ∀ op state answer after, semantics op state answer after →
      coarse op (view state) answer (view after))
    {program : Program interface α} {post : α → Shown → Prop} {state : State}
    (ensured : Ensures coarse program post (view state)) :
    Ensures semantics program
      (fun value final => post value (view final)) state := by
  induction program generalizing state with
  | done value => exact ensured
  | ask op next induction =>
      intro answer middle step
      exact induction answer
        (ensured answer (view middle) (simulates op state answer middle step))

@[simp]
theorem ensures_pure
    (value : α) (post : α → State → Prop) (state : State) :
    Ensures semantics (pure value : Program interface α) post state ↔
      post value state :=
  Iff.rfl

@[simp]
theorem ensures_perform
    (op : interface.Op) (post : interface.Answer op → State → Prop)
    (state : State) :
    Ensures semantics (Program.perform op) post state ↔
      ∀ answer after, semantics op state answer after →
        post answer after :=
  Iff.rfl

/-- The sequencing rule. -/
@[simp]
theorem ensures_bind
    (program : Program interface α) (next : α → Program interface β)
    (post : β → State → Prop) (state : State) :
    Ensures semantics (program >>= next) post state ↔
      Ensures semantics program
        (fun value middle => Ensures semantics (next value) post middle)
        state := by
  induction program generalizing state with
  | done value => rfl
  | ask op resume induction =>
      constructor
      · intro ensured answer middle step
        exact (induction answer middle).mp (ensured answer middle step)
      · intro ensured answer middle step
        exact (induction answer middle).mpr (ensured answer middle step)

/-! ## Computations which may fail -/

/-- Inversion of a successful sequence of two results. -/
theorem except_bind_ok
    {result : Except ε α} {next : α → Except ε β} {value : β} :
    result >>= next = .ok value ↔
      ∃ middle, result = .ok middle ∧ next middle = .ok value := by
  cases result with
  | error error => simp [bind, Except.bind]
  | ok middle => simp [bind, Except.bind]

/-- Continue a result: an error ends the computation. -/
def onOk
    (next : α → State → Prop) (fail : ε → State → Prop) :
    Except ε α → State → Prop
  | .ok value, state => next value state
  | .error error, state => fail error state

@[simp]
theorem onOk_ok
    (next : α → State → Prop) (fail : ε → State → Prop)
    (value : α) (state : State) :
    onOk next fail (.ok value) state ↔ next value state :=
  Iff.rfl

@[simp]
theorem onOk_error
    (next : α → State → Prop) (fail : ε → State → Prop)
    (error : ε) (state : State) :
    onOk next fail (.error error) state ↔ fail error state :=
  Iff.rfl

theorem execute_run_lift
    (handler : Handler interface State) (program : Program interface α)
    (state : State) :
    (ExceptT.lift program : ExceptT ε (Program interface) α).run.execute
        handler state =
      (.ok (program.execute handler state).1,
        (program.execute handler state).2) := by
  rw [ExceptT.run_lift, map_eq_pure_bind, execute_bind]
  rfl

/-- A computation which succeeds hands its value on. -/
theorem execute_run_bind_ok
    {handler : Handler interface State}
    {computation : ExceptT ε (Program interface) α}
    {next : α → ExceptT ε (Program interface) β}
    {state middle : State} {value : α}
    (first : computation.run.execute handler state = (.ok value, middle)) :
    (computation >>= next).run.execute handler state =
      (next value).run.execute handler middle := by
  rw [ExceptT.run_bind, execute_bind, first]

@[simp]
theorem ensures_run_pure
    (value : α) (post : Except ε α → State → Prop) (state : State) :
    Ensures semantics
        (pure value : ExceptT ε (Program interface) α).run post state ↔
      post (.ok value) state :=
  Iff.rfl

@[simp]
theorem ensures_run_throw
    (error : ε) (post : Except ε α → State → Prop) (state : State) :
    Ensures semantics
        (throw error : ExceptT ε (Program interface) α).run post state ↔
      post (.error error) state :=
  Iff.rfl

@[simp]
theorem ensures_run_call
    (op : interface.Op)
    (post : Except ε (interface.Answer op) → State → Prop)
    (state : State) :
    Ensures semantics
        (Program.call op : ExceptT ε (Program interface) _).run post state ↔
      ∀ answer after, semantics op state answer after →
        post (.ok answer) after :=
  Iff.rfl

@[simp]
theorem ensures_run_lift
    (program : Program interface α)
    (post : Except ε α → State → Prop) (state : State) :
    Ensures semantics
        (ExceptT.lift program : ExceptT ε (Program interface) α).run
        post state ↔
      Ensures semantics program
        (fun value => post (.ok value)) state := by
  rw [ExceptT.run_lift, map_eq_pure_bind, ensures_bind]
  rfl

theorem ensures_run_adapt
    {ε' : Type} (describe : ε → ε')
    (computation : ExceptT ε (Program interface) α)
    (post : Except ε' α → State → Prop) (state : State) :
    Ensures semantics (computation.adapt describe).run post state ↔
      Ensures semantics computation.run
        (fun result => post (result.mapError describe)) state := by
  show Ensures semantics (Except.mapError describe <$> computation.run) _ _ ↔
    _
  rw [map_eq_pure_bind, ensures_bind]
  rfl

@[simp]
theorem ensures_run_except
    (result : Except ε α) (post : Except ε α → State → Prop)
    (state : State) :
    Ensures semantics
        (monadLift result : ExceptT ε (Program interface) α).run
        post state ↔
      post result state :=
  Iff.rfl

/-- The sequencing rule for computations which may fail. -/
@[simp]
theorem ensures_run_bind
    (computation : ExceptT ε (Program interface) α)
    (next : α → ExceptT ε (Program interface) β)
    (post : Except ε β → State → Prop) (state : State) :
    Ensures semantics (computation >>= next).run post state ↔
      Ensures semantics computation.run
        (onOk
          (fun value middle =>
            Ensures semantics (next value).run post middle)
          (fun error => post (.error error)))
        state := by
  rw [ExceptT.run_bind, ensures_bind]
  constructor
  · intro ensured
    refine ensured.mono ?_
    intro result middle holds
    cases result with
    | ok value => exact holds
    | error error => exact holds
  · intro ensured
    refine ensured.mono ?_
    intro result middle holds
    cases result with
    | ok value => exact holds
    | error error => exact holds

/-- The sequencing rule, from a specification of each part. -/
theorem Ensures.run_bind
    {computation : ExceptT ε (Program interface) α}
    {next : α → ExceptT ε (Program interface) β}
    {middle : α → State → Prop} {fail : ε → State → Prop}
    {post : Except ε β → State → Prop} {state : State}
    (first : Ensures semantics computation.run (onOk middle fail) state)
    (rest : ∀ value after, middle value after →
      Ensures semantics (next value).run post after)
    (failed : ∀ error after, fail error after → post (.error error) after) :
    Ensures semantics (computation >>= next).run post state := by
  rw [ensures_run_bind]
  apply first.mono
  intro result after holds
  cases result with
  | ok value => exact rest value after holds
  | error error => exact failed error after holds

/-- Runs compose along a sequence of computations which may fail. -/
theorem Runs.run_bind
    {computation : ExceptT ε (Program interface) α}
    {next : α → ExceptT ε (Program interface) β}
    {state middle final : State} {value : α} {result : Except ε β}
    (first : Runs semantics computation.run state (.ok value) middle)
    (rest : Runs semantics (next value).run middle result final) :
    Runs semantics (computation >>= next).run state result final := by
  rw [ExceptT.run_bind]
  exact first.bind rest

/-- The first error ends a computation. -/
theorem Runs.run_bind_error
    {computation : ExceptT ε (Program interface) α}
    {next : α → ExceptT ε (Program interface) β}
    {state final : State} {error : ε}
    (failed : Runs semantics computation.run state (.error error) final) :
    Runs semantics (computation >>= next).run state (.error error) final := by
  rw [ExceptT.run_bind]
  exact failed.bind (.done _ _)

theorem Runs.run_lift
    {program : Program interface α} {state final : State} {value : α}
    (runs : Runs semantics program state value final) :
    Runs semantics
      (ExceptT.lift program : ExceptT ε (Program interface) α).run
      state (.ok value) final := by
  rw [ExceptT.run_lift, map_eq_pure_bind]
  exact runs.bind (.done _ _)

/-! ## The values a program can compute -/

/-- Whatever the answers are, the program computes a value of this kind. -/
def Returns (kind : α → Prop) : Program interface α → Prop
  | .done value => kind value
  | .ask _ next => ∀ answer, Returns kind (next answer)

theorem Returns.bind
    {program : Program interface α} {next : α → Program interface β}
    {first : α → Prop} {kind : β → Prop}
    (returns : Returns first program)
    (rest : ∀ value, first value → Returns kind (next value)) :
    Returns kind (program >>= next) := by
  induction program with
  | done value => exact rest value returns
  | ask op resume induction =>
      intro answer
      exact induction answer (returns answer)

theorem Returns.mono
    {program : Program interface α} {kind wider : α → Prop}
    (returns : Returns kind program)
    (weaken : ∀ value, kind value → wider value) :
    Returns wider program := by
  induction program with
  | done value => exact weaken value returns
  | ask op next induction =>
      intro answer
      exact induction answer (returns answer)

theorem Returns.ensures
    {program : Program interface α} {kind : α → Prop}
    (returns : Returns kind program) (state : State) :
    Ensures semantics program (fun value _ => kind value) state := by
  induction program generalizing state with
  | done value => exact returns
  | ask op next induction =>
      intro answer middle _
      exact induction answer (returns answer) middle

theorem returns_any (program : Program interface α) :
    Returns (fun _ => True) program := by
  induction program with
  | done value => trivial
  | ask op next induction => exact induction

theorem Returns.run_bind
    {computation : ExceptT ε (Program interface) α}
    {next : α → ExceptT ε (Program interface) β}
    {first : Except ε α → Prop} {kind : Except ε β → Prop}
    (returns : Returns first computation.run)
    (rest : ∀ value, first (.ok value) → Returns kind (next value).run)
    (failed : ∀ error, kind (.error error)) :
    Returns kind (computation >>= next).run := by
  rw [ExceptT.run_bind]
  apply returns.bind
  intro result known
  cases result with
  | ok value => exact rest value known
  | error error => exact failed error

/-! ## The operations a program can ask for -/

/-- Whatever the answers are, the program asks for allowed operations only. -/
def Asks (allowed : interface.Op → Prop) : Program interface α → Prop
  | .done _ => True
  | .ask op next => allowed op ∧ ∀ answer, Asks allowed (next answer)

variable {allowed : interface.Op → Prop}

@[simp]
theorem asks_pure (value : α) :
    Asks allowed (pure value : Program interface α) :=
  trivial

@[simp]
theorem asks_perform (op : interface.Op) :
    Asks allowed (Program.perform op) ↔ allowed op := by
  simp [Program.perform, Asks]

theorem Asks.bind
    {program : Program interface α} {next : α → Program interface β}
    (first : Asks allowed program)
    (rest : ∀ value, Asks allowed (next value)) :
    Asks allowed (program >>= next) := by
  induction program with
  | done value => exact rest value
  | ask op resume induction =>
      exact ⟨first.1, fun answer => induction answer (first.2 answer)⟩

theorem Asks.bind_returns
    {program : Program interface α} {next : α → Program interface β}
    {kind : α → Prop}
    (first : Asks allowed program) (returns : Returns kind program)
    (rest : ∀ value, kind value → Asks allowed (next value)) :
    Asks allowed (program >>= next) := by
  induction program with
  | done value => exact rest value returns
  | ask op resume induction =>
      exact ⟨first.1, fun answer =>
        induction answer (first.2 answer) (returns answer)⟩

theorem Asks.mono
    {program : Program interface α} {weaker : interface.Op → Prop}
    (asks : Asks allowed program)
    (weaken : ∀ op, allowed op → weaker op) :
    Asks weaker program := by
  induction program with
  | done value => trivial
  | ask op next induction =>
      exact ⟨weaken op asks.1, fun answer => induction answer (asks.2 answer)⟩

@[simp]
theorem asks_run_pure (value : α) :
    Asks allowed (pure value : ExceptT ε (Program interface) α).run :=
  trivial

@[simp]
theorem asks_run_throw (error : ε) :
    Asks allowed (throw error : ExceptT ε (Program interface) α).run :=
  trivial

@[simp]
theorem asks_run_except (result : Except ε α) :
    Asks allowed
      (monadLift result : ExceptT ε (Program interface) α).run :=
  trivial

@[simp]
theorem asks_run_call (op : interface.Op) :
    Asks allowed
        (Program.call op : ExceptT ε (Program interface) _).run ↔
      allowed op := by
  simp [Program.call, Program.perform, ExceptT.lift, ExceptT.mk,
    ExceptT.run, Functor.map, Program.bind, Asks]

theorem Asks.run_lift
    {program : Program interface α} (asks : Asks allowed program) :
    Asks allowed
      (ExceptT.lift program : ExceptT ε (Program interface) α).run := by
  rw [ExceptT.run_lift, map_eq_pure_bind]
  exact asks.bind fun value => trivial

theorem Asks.run_bind
    {computation : ExceptT ε (Program interface) α}
    {next : α → ExceptT ε (Program interface) β}
    (first : Asks allowed computation.run)
    (rest : ∀ value, Asks allowed (next value).run) :
    Asks allowed (computation >>= next).run := by
  rw [ExceptT.run_bind]
  apply first.bind
  intro result
  cases result with
  | ok value => exact rest value
  | error error => trivial

theorem Asks.run_adapt
    {ε' : Type} {describe : ε → ε'}
    {computation : ExceptT ε (Program interface) α}
    (asks : Asks allowed computation.run) :
    Asks allowed (computation.adapt describe).run := by
  show Asks allowed (Except.mapError describe <$> computation.run)
  rw [map_eq_pure_bind]
  exact asks.bind fun result => trivial

/-- The frame rule: what no allowed operation changes, the program keeps. -/
theorem Asks.ensures
    {program : Program interface α} (asks : Asks allowed program)
    {assertion : State → Prop}
    (kept : ∀ op before answer after, allowed op →
      semantics op before answer after → assertion before →
        assertion after)
    {state : State} (holds : assertion state) :
    Ensures semantics program (fun _ => assertion) state := by
  induction program generalizing state with
  | done value => exact holds
  | ask op next induction =>
      intro answer middle step
      exact induction answer (asks.2 answer)
        (kept op state answer middle asks.1 step holds)

/-- Environments which answer what is asked alike are not told apart. -/
theorem Asks.execute_eq
    {program : Program interface α} (asks : Asks allowed program)
    {first second : Handler interface State}
    (agree : ∀ op state, allowed op → first op state = second op state)
    (state : State) :
    program.execute first state = program.execute second state := by
  induction program generalizing state with
  | done value => rfl
  | ask op next induction =>
      rw [Program.execute, Program.execute, agree op state asks.1]
      exact induction _ (asks.2 _) _

end Luminosity.Foundation.EffectPrograms
