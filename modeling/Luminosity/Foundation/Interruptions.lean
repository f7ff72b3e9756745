import Luminosity.Foundation.Exceptions

/-!
# Interruptions

A program can be cut short after any of its operations.  What it leaves is one
of the states it visits: the one it starts in, and each one an answer leads
to.

A crash condition is asserted of every visited state.  It is proved together
with the postcondition: the rules for sequences, handlers and cleanups are
those of the weakest precondition, with the crash condition carried along.
-/

namespace Luminosity.Foundation.Interruptions

open Luminosity.Foundation.EffectPrograms
open Luminosity.Foundation.Exceptions

variable {interface : Interface} {State : Type} {α β ε : Type}

/-- The program visits the second state on its way from the first. -/
inductive Visits (semantics : Semantics interface State) :
    Program interface α → State → State → Prop where
  | start (program : Program interface α) (state : State) :
      Visits semantics program state state
  | later {op : interface.Op}
      {next : interface.Answer op → Program interface α}
      {state middle seen : State} {answer : interface.Answer op}
      (step : semantics op state answer middle)
      (rest : Visits semantics (next answer) middle seen) :
      Visits semantics (.ask op next) state seen

/-- The crash condition holds all along, and the postcondition at the end. -/
def Sustains (semantics : Semantics interface State)
    (always : State → Prop) :
    Program interface α → (α → State → Prop) → State → Prop
  | .done value, post, state => always state ∧ post value state
  | .ask op next, post, state =>
      always state ∧ ∀ answer middle, semantics op state answer middle →
        Sustains semantics always (next answer) post middle

variable {semantics : Semantics interface State}
variable {always : State → Prop}

/-- The two halves of a sustained program. -/
theorem sustains_iff
    (program : Program interface α) (post : α → State → Prop)
    (state : State) :
    Sustains semantics always program post state ↔
      (∀ seen, Visits semantics program state seen → always seen) ∧
        Ensures semantics program post state := by
  induction program generalizing state with
  | done value =>
      constructor
      · rintro ⟨now, holds⟩
        refine ⟨?_, holds⟩
        rintro seen visits
        cases visits
        exact now
      · rintro ⟨visited, holds⟩
        exact ⟨visited state (.start _ state), holds⟩
  | ask op next induction =>
      constructor
      · rintro ⟨now, later⟩
        constructor
        · intro seen visits
          cases visits with
          | start => exact now
          | later step rest =>
              exact ((induction _ _).mp (later _ _ step)).1 seen rest
        · intro answer middle step
          exact ((induction _ _).mp (later answer middle step)).2
      · rintro ⟨visited, ensured⟩
        refine ⟨visited state (.start _ state), ?_⟩
        intro answer middle step
        apply (induction answer middle).mpr
        refine ⟨?_, ensured answer middle step⟩
        intro seen rest
        exact visited seen (.later step rest)

theorem Sustains.now
    {program : Program interface α} {post : α → State → Prop}
    {state : State}
    (sustained : Sustains semantics always program post state) :
    always state :=
  ((sustains_iff program post state).mp sustained).1 state (.start _ state)

theorem Sustains.visited
    {program : Program interface α} {post : α → State → Prop}
    {state seen : State}
    (sustained : Sustains semantics always program post state)
    (visits : Visits semantics program state seen) :
    always seen :=
  ((sustains_iff program post state).mp sustained).1 seen visits

theorem Sustains.ensures
    {program : Program interface α} {post : α → State → Prop}
    {state : State}
    (sustained : Sustains semantics always program post state) :
    Ensures semantics program post state :=
  ((sustains_iff program post state).mp sustained).2

theorem Sustains.mono
    {program : Program interface α} {post weaker : α → State → Prop}
    {state : State}
    (sustained : Sustains semantics always program post state)
    (weaken : ∀ value final, always final → post value final →
      weaker value final) :
    Sustains semantics always program weaker state := by
  induction program generalizing state with
  | done value =>
      exact ⟨sustained.1, weaken value state sustained.1 sustained.2⟩
  | ask op next induction =>
      refine ⟨sustained.1, ?_⟩
      intro answer middle step
      exact induction answer (sustained.2 answer middle step)

/-- A weaker crash condition holds all along too. -/
theorem Sustains.widen
    {wider : State → Prop} {program : Program interface α}
    {post : α → State → Prop} {state : State}
    (sustained : Sustains semantics always program post state)
    (widen : ∀ seen, always seen → wider seen) :
    Sustains semantics wider program post state := by
  induction program generalizing state with
  | done value => exact ⟨widen state sustained.1, sustained.2⟩
  | ask op next induction =>
      refine ⟨widen state sustained.1, ?_⟩
      intro answer middle step
      exact induction answer (sustained.2 answer middle step)

/-! ## Executions which are cut short -/

/-- The state after as many operations, or after all there are. -/
def interruptAfter (handler : Handler interface State) :
    Nat → Program interface α → State → State
  | count + 1, .ask op next, state =>
      interruptAfter handler count (next (handler op state).1)
        (handler op state).2
  | _, _, state => state

/-- What an execution shows when it is cut short is visited. -/
theorem visits_interruptAfter
    {Shown : Type} {view : State → Shown}
    {semantics : Semantics interface Shown}
    {handler : Handler interface State}
    (admissible : ∀ op state,
      semantics op (view state) (handler op state).1
        (view (handler op state).2))
    (count : Nat) (program : Program interface α) (state : State) :
    Visits semantics program (view state)
      (view (interruptAfter handler count program state)) := by
  induction count generalizing program state with
  | zero => exact .start program (view state)
  | succ count induction =>
      cases program with
      | done value => exact .start _ (view state)
      | ask op next =>
          exact .later (admissible op state) (induction _ _)

/-! ## Rules -/

theorem sustains_bind
    (program : Program interface α) (next : α → Program interface β)
    (post : β → State → Prop) (state : State) :
    Sustains semantics always (program >>= next) post state ↔
      Sustains semantics always program
        (fun value middle =>
          Sustains semantics always (next value) post middle)
        state := by
  induction program generalizing state with
  | done value =>
      constructor
      · intro sustained
        exact ⟨sustained.now, sustained⟩
      · intro sustained
        exact sustained.2
  | ask op resume induction =>
      constructor
      · rintro ⟨now, later⟩
        refine ⟨now, ?_⟩
        intro answer middle step
        exact (induction answer middle).mp (later answer middle step)
      · rintro ⟨now, later⟩
        refine ⟨now, ?_⟩
        intro answer middle step
        exact (induction answer middle).mpr (later answer middle step)

section Failing

theorem sustains_run_bind
    (computation : ExceptT ε (Program interface) α)
    (next : α → ExceptT ε (Program interface) β)
    (post : Except ε β → State → Prop) (state : State) :
    Sustains semantics always (computation >>= next).run post state ↔
      Sustains semantics always computation.run
        (onOk
          (fun value middle =>
            Sustains semantics always (next value).run post middle)
          (fun error => post (.error error)))
        state := by
  change Sustains semantics always (computation.run >>= _) post state ↔ _
  rw [sustains_bind]
  constructor
  · intro sustained
    apply sustained.mono
    intro result middle now holds
    cases result with
    | ok value => exact holds
    | error error => exact holds.2
  · intro sustained
    apply sustained.mono
    intro result middle now holds
    cases result with
    | ok value => exact holds
    | error error => exact ⟨now, holds⟩

theorem sustains_run_except
    (result : Except ε α) (post : Except ε α → State → Prop)
    (state : State) :
    Sustains semantics always
        (liftM result : ExceptT ε (Program interface) α).run post state ↔
      always state ∧ post result state := by
  cases result with
  | ok value => exact Iff.rfl
  | error error => exact Iff.rfl

theorem sustains_attempt
    (body : ExceptT ε (Program interface) α)
    (handler : ε → ExceptT ε (Program interface) α)
    (post : Except ε α → State → Prop) (state : State) :
    Sustains semantics always (attempt body handler).run post state ↔
      Sustains semantics always body.run
        (onOk (fun value => post (.ok value))
          (fun error middle =>
            Sustains semantics always (handler error).run post middle))
        state := by
  change Sustains semantics always (body.run >>= _) post state ↔ _
  rw [sustains_bind]
  constructor
  · intro sustained
    apply sustained.mono
    intro result middle now holds
    cases result with
    | ok value => exact holds.2
    | error error => exact holds
  · intro sustained
    apply sustained.mono
    intro result middle now holds
    cases result with
    | ok value => exact ⟨now, holds⟩
    | error error => exact holds

theorem sustains_ensuring
    (body : ExceptT ε (Program interface) α)
    (cleanup : ExceptT ε (Program interface) Unit)
    (post : Except ε α → State → Prop) (state : State) :
    Sustains semantics always (ensuring body cleanup).run post state ↔
      Sustains semantics always body.run
        (fun result middle =>
          Sustains semantics always cleanup.run
            (fun ended => post (cleaned result ended)) middle)
        state := by
  change Sustains semantics always (body.run >>= _) post state ↔ _
  rw [sustains_bind]
  constructor
  · intro sustained
    apply sustained.mono
    intro result middle _ holds
    rw [sustains_bind] at holds
    exact holds.mono fun _ _ _ => And.right
  · intro sustained
    apply sustained.mono
    intro result middle _ holds
    rw [sustains_bind]
    exact holds.mono fun _ _ now ended => ⟨now, ended⟩

theorem Sustains.run_bind
    {computation : ExceptT ε (Program interface) α}
    {next : α → ExceptT ε (Program interface) β}
    {middle : α → State → Prop} {failed : ε → State → Prop}
    {post : Except ε β → State → Prop} {state : State}
    (first : Sustains semantics always computation.run
      (onOk middle failed) state)
    (rest : ∀ value after, always after → middle value after →
      Sustains semantics always (next value).run post after)
    (fails : ∀ error after, always after → failed error after →
      post (.error error) after) :
    Sustains semantics always (computation >>= next).run post state := by
  rw [sustains_run_bind]
  apply first.mono
  intro result after now holds
  cases result with
  | ok value => exact rest value after now holds
  | error error => exact fails error after now holds

end Failing

/-! ## Operations which keep the crash condition -/

/-- Operations which keep a condition sustain it. -/
theorem Asks.sustains
    {allowed : interface.Op → Prop} {program : Program interface α}
    (asks : Asks allowed program)
    (keeps : ∀ op before answer after, allowed op →
      semantics op before answer after → always before → always after)
    {state : State} (now : always state) :
    Sustains semantics always program (fun _ => always) state := by
  induction program generalizing state with
  | done value => exact ⟨now, now⟩
  | ask op next induction =>
      refine ⟨now, ?_⟩
      intro answer middle step
      exact induction answer (asks.2 answer)
        (keeps op state answer middle asks.1 step now)

end Luminosity.Foundation.Interruptions
