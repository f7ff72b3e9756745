import Luminosity.Foundation.EffectPrograms

/-!
# Handlers, cleanups and loops

A computation which may fail can be given a handler of its error, or a cleanup
which is done in any case, and whose own error replaces the outcome.  A loop
does one computation for each item, and ends with the first error.

Each has a rule for its weakest precondition, and one for the operations it
asks for.  The rule for loops collects what the computations establish, as
long as what comes later keeps it.
-/

namespace Luminosity.Foundation.Exceptions

open Luminosity.Foundation.EffectPrograms

variable {interface : Interface} {State : Type} {α β ε : Type}

/-- Handle the error of a computation. -/
def attempt
    (body : ExceptT ε (Program interface) α)
    (handler : ε → ExceptT ε (Program interface) α) :
    ExceptT ε (Program interface) α :=
  ExceptT.mk (body.run >>= fun result =>
    match result with
    | .ok value => pure (.ok value)
    | .error error => (handler error).run)

/-- The outcome of a computation after its cleanup. -/
def cleaned (result : Except ε α) : Except ε Unit → Except ε α
  | .ok _ => result
  | .error error => .error error

/-- Do the cleanup after a computation, whatever its outcome is. -/
def ensuring
    (body : ExceptT ε (Program interface) α)
    (cleanup : ExceptT ε (Program interface) Unit) :
    ExceptT ε (Program interface) α :=
  ExceptT.mk (body.run >>= fun result =>
    cleanup.run >>= fun ended => pure (cleaned result ended))

/-- Do a computation for each item, up to the first error. -/
def forEach (body : α → ExceptT ε (Program interface) Unit) :
    List α → ExceptT ε (Program interface) Unit
  | [] => pure ()
  | item :: later => do
      body item
      forEach body later

/-! ## Preconditions -/

section Preconditions

variable {semantics : Semantics interface State}

theorem ensures_attempt
    (body : ExceptT ε (Program interface) α)
    (handler : ε → ExceptT ε (Program interface) α)
    (post : Except ε α → State → Prop) (state : State) :
    Ensures semantics (attempt body handler).run post state ↔
      Ensures semantics body.run
        (onOk (fun value => post (.ok value))
          (fun error middle =>
            Ensures semantics (handler error).run post middle))
        state := by
  change Ensures semantics (body.run >>= _) post state ↔ _
  rw [ensures_bind]
  constructor
  · intro ensured
    apply ensured.mono
    intro result middle holds
    cases result with
    | ok value => exact holds
    | error error => exact holds
  · intro ensured
    apply ensured.mono
    intro result middle holds
    cases result with
    | ok value => exact holds
    | error error => exact holds

theorem ensures_ensuring
    (body : ExceptT ε (Program interface) α)
    (cleanup : ExceptT ε (Program interface) Unit)
    (post : Except ε α → State → Prop) (state : State) :
    Ensures semantics (ensuring body cleanup).run post state ↔
      Ensures semantics body.run
        (fun result middle =>
          Ensures semantics cleanup.run
            (fun ended => post (cleaned result ended)) middle)
        state := by
  change Ensures semantics (body.run >>= _) post state ↔ _
  simp only [ensures_bind, ensures_pure]

/-- What a computation establishes on success, without a word on failures. -/
abbrev WhenOk (holds : α → State → Prop) : Except ε α → State → Prop :=
  onOk holds fun _ _ => True

/-- A sequence establishes on success what its parts establish in turn. -/
theorem Ensures.succeeds
    {computation : ExceptT ε (Program interface) α}
    {next : α → ExceptT ε (Program interface) β}
    {middle : α → State → Prop} {holds : β → State → Prop} {state : State}
    (first : Ensures semantics computation.run (WhenOk middle) state)
    (rest : ∀ value after, middle value after →
      Ensures semantics (next value).run (WhenOk holds) after) :
    Ensures semantics (computation >>= next).run (WhenOk holds) state :=
  first.run_bind rest fun _ _ _ => trivial

/-- A handler which always fails adds no success. -/
theorem Ensures.attempt
    {body : ExceptT ε (Program interface) α}
    {handler : ε → ExceptT ε (Program interface) α}
    {holds : α → State → Prop} {state : State}
    (established : Ensures semantics body.run (WhenOk holds) state)
    (fails : ∀ error,
      Returns (fun result => ∃ other, result = .error other)
        (handler error).run) :
    Ensures semantics (Exceptions.attempt body handler).run
      (WhenOk holds) state := by
  rw [ensures_attempt]
  apply established.mono
  intro result middle onSuccess
  cases result with
  | ok value => exact onSuccess
  | error error =>
      apply (Returns.ensures (fails error) middle).mono
      rintro result after ⟨other, rfl⟩
      trivial

/-- What a computation establishes on success outlasts its cleanup. -/
theorem Ensures.ensuring
    {body : ExceptT ε (Program interface) α}
    {cleanup : ExceptT ε (Program interface) Unit}
    {holds : α → State → Prop} {state : State}
    (established : Ensures semantics body.run (WhenOk holds) state)
    (kept : ∀ value middle, holds value middle →
      Ensures semantics cleanup.run (fun _ => holds value) middle) :
    Ensures semantics (Exceptions.ensuring body cleanup).run
      (WhenOk holds) state := by
  rw [ensures_ensuring]
  apply established.mono
  intro result middle onSuccess
  cases result with
  | ok value =>
      apply (kept value middle onSuccess).mono
      intro ended after holdsAfter
      cases ended with
      | ok _ => exact holdsAfter
      | error error => trivial
  | error error =>
      apply (ensures_runs cleanup.run middle).mono
      intro ended after _
      cases ended <;> trivial

/-- A loop establishes what its computations do, for each item. -/
theorem Ensures.forEach
    {body : α → ExceptT ε (Program interface) Unit}
    (holds : α → State → Prop) (later : State → State → Prop)
    (refl : ∀ state, later state state)
    (trans : ∀ first second third,
      later first second → later second third → later first third)
    (stable : ∀ item before after,
      holds item before → later before after → holds item after)
    (step : ∀ item state,
      Ensures semantics (body item).run
        (WhenOk fun _ after => later state after ∧ holds item after)
        state)
    (items : List α) (state : State) :
    Ensures semantics (Exceptions.forEach body items).run
      (WhenOk fun _ after =>
        later state after ∧ ∀ item ∈ items, holds item after)
      state := by
  induction items generalizing state with
  | nil =>
      refine ⟨refl state, ?_⟩
      intro item member
      cases member
  | cons item items induction =>
      rw [Exceptions.forEach, ensures_run_bind]
      apply (step item state).mono
      intro result middle onSuccess
      cases result with
      | error error => trivial
      | ok _ =>
          apply (induction middle).mono
          intro ended after others
          cases ended with
          | error error => trivial
          | ok _ =>
              refine ⟨trans _ _ _ onSuccess.1 others.1, ?_⟩
              intro other member
              rcases List.mem_cons.mp member with rfl | member
              · exact stable other middle after onSuccess.2 others.1
              · exact others.2 other member

end Preconditions

/-! ## Operations -/

section Operations

variable {allowed : interface.Op → Prop}

theorem Asks.attempt
    {body : ExceptT ε (Program interface) α}
    {handler : ε → ExceptT ε (Program interface) α}
    (first : Asks allowed body.run)
    (handles : ∀ error, Asks allowed (handler error).run) :
    Asks allowed (Exceptions.attempt body handler).run := by
  apply Asks.bind first
  intro result
  cases result with
  | ok value => trivial
  | error error => exact handles error

theorem Asks.ensuring
    {body : ExceptT ε (Program interface) α}
    {cleanup : ExceptT ε (Program interface) Unit}
    (first : Asks allowed body.run)
    (cleans : Asks allowed cleanup.run) :
    Asks allowed (Exceptions.ensuring body cleanup).run := by
  apply Asks.bind first
  intro result
  apply Asks.bind cleans
  intro ended
  trivial

theorem Asks.forEach
    {body : α → ExceptT ε (Program interface) Unit}
    (each : ∀ item, Asks allowed (body item).run)
    (items : List α) :
    Asks allowed (Exceptions.forEach body items).run := by
  induction items with
  | nil => trivial
  | cons item items induction =>
      apply Asks.run_bind (each item)
      intro _
      exact induction

end Operations

end Luminosity.Foundation.Exceptions
