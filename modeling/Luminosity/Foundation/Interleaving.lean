import Mathlib.Logic.Function.Basic
import Luminosity.Foundation.EffectPrograms

/-!
# Interleaved programs and rely-guarantee reasoning

A machine runs one program for each thread over a shared state.  Its steps
interleave the operations of the threads in any order, and a thread which has
not returned may crash between any two of its operations.

A thread is verified on its own against `Rules`: an invariant of the shared
state, a rely relation which bounds what the other threads do between two of
its operations, and a guarantee which bounds each of its own operations.  When
the guarantee of every thread implies the rely of every other, each thread
keeps its specification in every reachable machine state.
-/

namespace Luminosity.Foundation.Interleaving

open Relation
open Luminosity.Foundation.EffectPrograms

variable {interface : Interface} {ι State : Type} {α β ε : Type}

/-! ## Machines -/

/-- A shared state and the rest of each thread; a crashed thread has none. -/
structure Machine (interface : Interface) (ι State α : Type) where
  state : State
  thread : ι → Option (Program interface α)

/-- One operation of one thread, or the crash of a running thread. -/
inductive Step [DecidableEq ι] (semantics : ι → Semantics interface State) :
    Machine interface ι State α → Machine interface ι State α → Prop where
  | act
      {machine : Machine interface ι State α} (actor : ι)
      (running : machine.thread actor = some (.ask op next))
      (step : semantics actor op machine.state answer after) :
      Step semantics machine
        { state := after
          thread :=
            Function.update machine.thread actor (some (next answer)) }
  | crash
      {machine : Machine interface ι State α} (actor : ι)
      (running : machine.thread actor = some (.ask op next)) :
      Step semantics machine
        { machine with
          thread := Function.update machine.thread actor none }

/-- The machine states reachable by interleaved steps. -/
abbrev Reaches [DecidableEq ι]
    (semantics : ι → Semantics interface State) :
    Machine interface ι State α → Machine interface ι State α → Prop :=
  ReflTransGen (Step semantics)

/-! ## Histories -/

/-- One performed operation, with the states around it. -/
structure Event (interface : Interface) (ι State : Type) where
  actor : ι
  op : interface.Op
  answer : interface.Answer op
  before : State
  after : State

/-- The same operations over a state which also records them, newest first. -/
def recorded (semantics : ι → Semantics interface State) :
    ι → Semantics interface (State × List (Event interface ι State)) :=
  fun actor op before answer after =>
    semantics actor op before.1 answer after.1 ∧
      after.2 = ⟨actor, op, answer, before.1, after.1⟩ :: before.2

/-- Every run can be recorded. -/
theorem Runs.recorded
    {family : ι → Semantics interface State} {actor : ι}
    {program : Program interface α} {state final : State} {value : α}
    (runs : Runs (family actor) program state value final)
    (history : List (Event interface ι State)) :
    ∃ longer, Runs (Interleaving.recorded family actor) program
      (state, history) value (final, longer) := by
  induction runs generalizing history with
  | done value state => exact ⟨history, .done value _⟩
  | ask step _ induction =>
      rcases induction (⟨actor, _, _, _, _⟩ :: history) with ⟨longer, rest⟩
      exact ⟨longer, .ask ⟨step, rfl⟩ rest⟩

/-- What is ensured without a history is ensured with one, which only grows. -/
theorem Ensures.recorded
    {family : ι → Semantics interface State} {actor : ι}
    {program : Program interface α} {post : α → State → Prop}
    {state : State}
    (ensured : Ensures (family actor) program post state)
    (history : List (Event interface ι State)) :
    Ensures (Interleaving.recorded family actor) program
      (fun value after => post value after.1 ∧ history <:+ after.2)
      (state, history) := by
  induction program generalizing state history with
  | done value => exact ⟨ensured, List.suffix_rfl⟩
  | ask op next induction =>
      rintro answer ⟨middle, longer⟩ ⟨step, grows⟩
      dsimp only at grows
      subst grows
      apply (induction answer (ensured answer middle step) _).mono
      intro value after holds
      exact ⟨holds.1, (List.suffix_cons _ history).trans holds.2⟩

/-- The history of a recorded program only grows. -/
theorem ensures_grows_recorded
    {family : ι → Semantics interface State} {actor : ι}
    (program : Program interface α)
    (log : State × List (Event interface ι State)) :
    Ensures (Interleaving.recorded family actor) program
      (fun _ after => log.2 <:+ after.2) log := by
  have trivially :
      Ensures (family actor) program (fun _ _ => True) log.1 :=
    (ensures_iff_runs program _ log.1).mpr fun _ _ _ => trivial
  exact (Ensures.recorded trivially log.2).mono fun _ _ holds => holds.2

/-! ## Rules for one thread -/

/-- What a thread may assume and must ensure. -/
structure Rules (State : Type) where
  invariant : State → Prop
  rely : State → State → Prop
  guarantee : State → State → Prop

namespace Rules

variable (rules : Rules State)

/-- The state after any number of steps of the other threads. -/
def Later : State → State → Prop :=
  ReflTransGen fun before after =>
    rules.invariant before ∧ rules.invariant after ∧ rules.rely before after

/-- An assertion which no step of another thread can falsify. -/
def Stable (assertion : State → Prop) : Prop :=
  ∀ before after, rules.invariant before → rules.invariant after →
    rules.rely before after → assertion before → assertion after

variable {rules}

theorem Stable.later
    {assertion : State → Prop} (stable : rules.Stable assertion)
    {before after : State} (later : rules.Later before after)
    (holds : assertion before) :
    assertion after := by
  induction later with
  | refl => exact holds
  | tail _ moves induction =>
      exact stable _ _ moves.1 moves.2.1 moves.2.2 induction

theorem Stable.and
    {left right : State → Prop}
    (leftStable : rules.Stable left) (rightStable : rules.Stable right) :
    rules.Stable fun state => left state ∧ right state := by
  intro before after first last moves holds
  exact ⟨leftStable before after first last moves holds.1,
    rightStable before after first last moves holds.2⟩

theorem Stable.const (fact : Prop) : rules.Stable fun _ => fact :=
  fun _ _ _ _ _ holds => holds

theorem Stable.imp
    {fact : Prop} {assertion : State → Prop}
    (stable : fact → rules.Stable assertion) :
    rules.Stable fun state => fact → assertion state := by
  intro before after first last moves holds given
  exact stable given before after first last moves (holds given)

end Rules

/--
From the state on, each operation of the program satisfies the guarantee and
its value the postcondition, whatever the other threads do in between.
-/
def Respects (semantics : Semantics interface State) (rules : Rules State)
    (post : α → State → Prop) : Program interface α → State → Prop
  | .done value, state =>
      ∀ later, rules.Later state later → rules.invariant later →
        post value later
  | .ask op next, state =>
      ∀ later, rules.Later state later → rules.invariant later →
        ∀ answer after, semantics op later answer after →
          rules.guarantee later after ∧
            (rules.invariant after →
              Respects semantics rules post (next answer) after)

variable {semantics : Semantics interface State} {rules : Rules State}

theorem Respects.later
    {post : α → State → Prop} {program : Program interface α}
    {state later : State}
    (respects : Respects semantics rules post program state)
    (moves : rules.Later state later) :
    Respects semantics rules post program later := by
  cases program with
  | done value =>
      intro last further
      exact respects last (moves.trans further)
  | ask op next =>
      intro last further
      exact respects last (moves.trans further)

theorem Respects.of_done
    {post : α → State → Prop} {value : α} {state : State}
    (respects : Respects semantics rules post (.done value) state)
    (invariant : rules.invariant state) :
    post value state :=
  respects state .refl invariant

/-- The program keeps its rules from every state which satisfies `pre`. -/
def Abides (semantics : Semantics interface State) (rules : Rules State)
    (pre : State → Prop) (program : Program interface α)
    (post : α → State → Prop) : Prop :=
  ∀ state, rules.invariant state → pre state →
    Respects semantics rules post program state

namespace Abides

theorem pure
    {pre : State → Prop} {post : α → State → Prop} {value : α}
    (stable : rules.Stable (post value))
    (holds : ∀ state, rules.invariant state → pre state →
      post value state) :
    Abides semantics rules pre
      (Pure.pure value : Program interface α) post := by
  intro state invariant required later moves _
  exact stable.later moves (holds state invariant required)

theorem perform
    {pre : State → Prop} {op : interface.Op}
    {post : interface.Answer op → State → Prop}
    (preStable : rules.Stable pre)
    (postStable : ∀ answer, rules.Stable (post answer))
    (step : ∀ state answer after, rules.invariant state → pre state →
      semantics op state answer after →
        rules.guarantee state after ∧
          (rules.invariant after → post answer after)) :
    Abides semantics rules pre (Program.perform op) post := by
  intro state _ required later moves invariant answer after answered
  have outcome :=
    step later answer after invariant (preStable.later moves required) answered
  refine ⟨outcome.1, ?_⟩
  intro afterInvariant last further _
  exact (postStable answer).later further (outcome.2 afterInvariant)

theorem weaken
    {pre required : State → Prop} {post weaker : α → State → Prop}
    {program : Program interface α}
    (abides : Abides semantics rules required program post)
    (before : ∀ state, rules.invariant state → pre state → required state)
    (after : ∀ value state, rules.invariant state →
      post value state → weaker value state) :
    Abides semantics rules pre program weaker := by
  intro state invariant holds
  have respects := abides state invariant (before state invariant holds)
  clear holds invariant abides before
  induction program generalizing state with
  | done value =>
      intro later moves invariant
      exact after value later invariant (respects later moves invariant)
  | ask op next induction =>
      intro later moves invariant answer last step
      have outcome := respects later moves invariant answer last step
      refine ⟨outcome.1, ?_⟩
      intro lastInvariant
      exact induction answer last (outcome.2 lastInvariant)

/-- What abides over a semantics abides over every stricter one. -/
theorem stricter
    {strict : Semantics interface State}
    (weaken : ∀ op state answer after,
      strict op state answer after → semantics op state answer after)
    {pre : State → Prop} {post : α → State → Prop}
    {program : Program interface α}
    (abides : Abides semantics rules pre program post) :
    Abides strict rules pre program post := by
  intro state invariant holds
  have respects := abides state invariant holds
  clear holds invariant abides
  induction program generalizing state with
  | done value => exact respects
  | ask op next induction =>
      intro later moves laterInvariant answer last step
      have outcome := respects later moves laterInvariant answer last
        (weaken op later answer last step)
      refine ⟨outcome.1, ?_⟩
      intro lastInvariant
      exact induction answer last (outcome.2 lastInvariant)

theorem bind
    {pre : State → Prop} {middle : α → State → Prop}
    {post : β → State → Prop}
    {program : Program interface α} {next : α → Program interface β}
    (first : Abides semantics rules pre program middle)
    (rest : ∀ value, Abides semantics rules (middle value) (next value) post) :
    Abides semantics rules pre (program >>= next) post := by
  intro state invariant holds
  have respects := first state invariant holds
  clear holds first
  induction program generalizing state with
  | done value =>
      exact rest value state invariant (respects state .refl invariant)
  | ask op resume induction =>
      intro later moves laterInvariant answer last step
      have outcome := respects later moves laterInvariant answer last step
      refine ⟨outcome.1, ?_⟩
      intro lastInvariant
      exact induction answer last lastInvariant (outcome.2 lastInvariant)

/-- A precondition which does not look at the state. -/
theorem assume
    {fact : Prop} {post : α → State → Prop} {program : Program interface α}
    (abides : fact → Abides semantics rules (fun _ => True) program post) :
    Abides semantics rules (fun _ => fact) program post := by
  intro state invariant holds
  exact abides holds state invariant trivial

/-- The frame rule for a program whose operations all keep one assertion. -/
theorem frame
    {allowed : interface.Op → Prop} {program : Program interface α}
    (asks : Asks allowed program)
    {assertion : State → Prop} (stable : rules.Stable assertion)
    (step : ∀ op before answer after, allowed op →
      rules.invariant before → assertion before →
        semantics op before answer after →
          rules.guarantee before after ∧
            (rules.invariant after → assertion after)) :
    Abides semantics rules assertion program fun _ => assertion := by
  intro state _ holds
  induction program generalizing state with
  | done value =>
      intro later moves _
      exact stable.later moves holds
  | ask op next induction =>
      intro later moves laterInvariant answer last performed
      have outcome := step op later answer last asks.1 laterInvariant
        (stable.later moves holds) performed
      refine ⟨outcome.1, ?_⟩
      intro lastInvariant
      exact induction answer (asks.2 answer) last lastInvariant
        (outcome.2 lastInvariant)

/-- A program keeps what neither it nor the other threads can falsify. -/
theorem keep
    {pre assertion : State → Prop} {post : α → State → Prop}
    {program : Program interface α}
    (abides : Abides semantics rules pre program post)
    (stable : rules.Stable assertion)
    (kept : ∀ before after, rules.guarantee before after →
      assertion before → assertion after) :
    Abides semantics rules
      (fun state => pre state ∧ assertion state) program
      (fun value state => post value state ∧ assertion state) := by
  intro state invariant holds
  have respects := abides state invariant holds.1
  have current := holds.2
  clear holds invariant abides
  induction program generalizing state with
  | done value =>
      intro later moves invariant
      exact ⟨respects later moves invariant, stable.later moves current⟩
  | ask op next induction =>
      intro later moves invariant answer last step
      have outcome := respects later moves invariant answer last step
      refine ⟨outcome.1, ?_⟩
      intro lastInvariant
      exact induction answer last (outcome.2 lastInvariant)
        (kept _ _ outcome.1 (stable.later moves current))

/-- Add what is known of the value whatever the answers are. -/
theorem returning
    {pre : State → Prop} {post : α → State → Prop}
    {program : Program interface α} {kind : α → Prop}
    (abides : Abides semantics rules pre program post)
    (returns : Returns kind program) :
    Abides semantics rules pre program
      fun value state => kind value ∧ post value state := by
  intro state invariant holds
  have respects := abides state invariant holds
  clear holds invariant abides
  induction program generalizing state with
  | done value =>
      intro later moves invariant
      exact ⟨returns, respects later moves invariant⟩
  | ask op next induction =>
      intro later moves invariant answer last step
      have outcome := respects later moves invariant answer last step
      refine ⟨outcome.1, ?_⟩
      intro lastInvariant
      exact induction answer (returns answer) last (outcome.2 lastInvariant)

/-! ### Computations which may fail -/

theorem run_pure
    {pre : State → Prop} {post : Except ε α → State → Prop} {value : α}
    (stable : rules.Stable (post (.ok value)))
    (holds : ∀ state, rules.invariant state → pre state →
      post (.ok value) state) :
    Abides semantics rules pre
      (Pure.pure value : ExceptT ε (Program interface) α).run post :=
  pure stable holds

theorem run_throw
    {pre : State → Prop} {post : Except ε α → State → Prop} {error : ε}
    (stable : rules.Stable (post (.error error)))
    (holds : ∀ state, rules.invariant state → pre state →
      post (.error error) state) :
    Abides semantics rules pre
      (throw error : ExceptT ε (Program interface) α).run post :=
  pure stable holds

theorem run_except
    {pre : State → Prop} {post : Except ε α → State → Prop}
    {result : Except ε α}
    (stable : rules.Stable (post result))
    (holds : ∀ state, rules.invariant state → pre state →
      post result state) :
    Abides semantics rules pre
      (monadLift result : ExceptT ε (Program interface) α).run post :=
  pure stable holds

theorem run_lift
    {pre : State → Prop} {post : Except ε α → State → Prop}
    {program : Program interface α}
    (abides : Abides semantics rules pre program
      fun value => post (.ok value)) :
    Abides semantics rules pre
      (ExceptT.lift program : ExceptT ε (Program interface) α).run post := by
  rw [ExceptT.run_lift, map_eq_pure_bind]
  intro state invariant holds
  have respects := abides state invariant holds
  clear holds invariant abides
  induction program generalizing state with
  | done value => exact respects
  | ask op next induction =>
      intro later moves laterInvariant answer last step
      have outcome := respects later moves laterInvariant answer last step
      refine ⟨outcome.1, ?_⟩
      intro lastInvariant
      exact induction answer last (outcome.2 lastInvariant)

theorem run_call
    {pre : State → Prop} {op : interface.Op}
    {post : Except ε (interface.Answer op) → State → Prop}
    (preStable : rules.Stable pre)
    (postStable : ∀ answer, rules.Stable (post (.ok answer)))
    (step : ∀ state answer after, rules.invariant state → pre state →
      semantics op state answer after →
        rules.guarantee state after ∧
          (rules.invariant after → post (.ok answer) after)) :
    Abides semantics rules pre
      (Program.call op : ExceptT ε (Program interface) _).run post :=
  run_lift (perform preStable postStable step)

/-- The sequencing rule for computations which may fail. -/
theorem run_bind
    {pre : State → Prop} {middle : α → State → Prop}
    {post : Except ε β → State → Prop}
    {computation : ExceptT ε (Program interface) α}
    {next : α → ExceptT ε (Program interface) β}
    (first : Abides semantics rules pre computation.run
      (onOk middle fun error => post (.error error)))
    (rest : ∀ value,
      Abides semantics rules (middle value) (next value).run post) :
    Abides semantics rules pre (computation >>= next).run post := by
  rw [ExceptT.run_bind]
  intro state invariant holds
  have respects := first state invariant holds
  clear holds first
  generalize computation.run = program at respects ⊢
  induction program generalizing state with
  | done result =>
      cases result with
      | ok value =>
          exact rest value state invariant (respects state .refl invariant)
      | error error => exact respects
  | ask op resume induction =>
      intro later moves laterInvariant answer last step
      have outcome := respects later moves laterInvariant answer last step
      refine ⟨outcome.1, ?_⟩
      intro lastInvariant
      exact induction answer last lastInvariant (outcome.2 lastInvariant)

end Abides

/-! ## From threads to machines -/

/-- Threads which tolerate each other under one invariant. -/
structure Compatible (semantics : ι → Semantics interface State)
    (rules : ι → Rules State) (invariant : State → Prop) : Prop where
  shared : ∀ actor, (rules actor).invariant = invariant
  preserved : ∀ actor op before answer after,
    invariant before → semantics actor op before answer after →
      (rules actor).guarantee before after → invariant after
  tolerated : ∀ actor other before after, actor ≠ other →
    invariant before → invariant after →
      (rules other).guarantee before after →
        (rules actor).rely before after

/-- The invariant holds, and the rest of each thread keeps its rules. -/
def Verified (semantics : ι → Semantics interface State)
    (rules : ι → Rules State) (invariant : State → Prop)
    (post : ι → α → State → Prop)
    (machine : Machine interface ι State α) : Prop :=
  invariant machine.state ∧
    ∀ actor program, machine.thread actor = some program →
      Respects (semantics actor) (rules actor) (post actor) program
        machine.state

section Soundness

variable [DecidableEq ι] {family : ι → Semantics interface State}
variable {ruleFamily : ι → Rules State} {invariant : State → Prop}
variable {post : ι → α → State → Prop}

theorem Step.verified
    (compatible : Compatible family ruleFamily invariant)
    {machine after : Machine interface ι State α}
    (step : Step family machine after)
    (verified : Verified family ruleFamily invariant post machine) :
    Verified family ruleFamily invariant post after := by
  rcases verified with ⟨holds, threads⟩
  cases step with
  | act actor running performed =>
      have own := compatible.shared actor
      have outcome := threads actor _ running machine.state .refl
        (own ▸ holds) _ _ performed
      have held := compatible.preserved actor _ _ _ _ holds performed outcome.1
      refine ⟨held, ?_⟩
      intro other program present
      by_cases same : other = actor
      · subst same
        simp only [Function.update_self, Option.some.injEq] at present
        subst present
        exact outcome.2 (own ▸ held)
      · simp only [Function.update_of_ne same] at present
        refine (threads other program present).later (.single ⟨?_, ?_, ?_⟩)
        · exact compatible.shared other ▸ holds
        · exact compatible.shared other ▸ held
        · exact compatible.tolerated other actor _ _ same holds held outcome.1
  | crash actor running =>
      refine ⟨holds, ?_⟩
      intro other program present
      by_cases same : other = actor
      · subst same
        simp at present
      · simp only [Function.update_of_ne same] at present
        exact threads other program present

/-- Every reachable machine is verified. -/
theorem Reaches.verified
    (compatible : Compatible family ruleFamily invariant)
    {machine later : Machine interface ι State α}
    (reaches : Reaches family machine later)
    (verified : Verified family ruleFamily invariant post machine) :
    Verified family ruleFamily invariant post later := by
  induction reaches with
  | refl => exact verified
  | tail _ step induction => exact step.verified compatible induction

omit [DecidableEq ι] in
/-- A thread which has returned satisfies its postcondition. -/
theorem Verified.returned
    (compatible : Compatible family ruleFamily invariant)
    {machine : Machine interface ι State α}
    (verified : Verified family ruleFamily invariant post machine)
    {actor : ι} {value : α}
    (present : machine.thread actor = some (.done value)) :
    post actor value machine.state :=
  (verified.2 actor _ present).of_done
    (compatible.shared actor ▸ verified.1)

/--
Runs whose last state satisfies a predicate which no step establishes are runs
of the semantics restricted to it.
-/
theorem Reaches.restrict
    {bound : State → Prop}
    (inherited : ∀ actor op before answer after,
      family actor op before answer after → bound after → bound before)
    {machine later : Machine interface ι State α}
    (reaches : Reaches family machine later)
    (bounded : bound later.state) :
    Reaches
      (fun actor op before answer after =>
        family actor op before answer after ∧ bound after)
      machine later := by
  induction reaches with
  | refl => exact .refl
  | tail _ step induction =>
      cases step with
      | act actor running performed =>
          have earlier := inherited actor _ _ _ _ performed bounded
          exact (induction earlier).tail
            (.act actor running ⟨performed, bounded⟩)
      | crash actor running =>
          exact (induction bounded).tail (.crash actor running)

/-- One operation of a single program. -/
def Advance (semantics : Semantics interface State)
    (before after : Program interface α × State) : Prop :=
  ∃ op next answer, before.1 = .ask op next ∧
    semantics op before.2 answer after.2 ∧ after.1 = next answer

omit [DecidableEq ι] in
/-- A complete run, one operation at a time. -/
theorem Runs.advances
    {semantics : Semantics interface State}
    {program : Program interface α} {state final : State} {value : α}
    (runs : Runs semantics program state value final) :
    ReflTransGen (Advance semantics) (program, state)
      (.done value, final) := by
  induction runs with
  | done value state => exact .refl
  | ask step _ induction =>
      exact induction.head ⟨_, _, _, rfl, step, rfl⟩

/-- A thread which runs on its own takes the machine along. -/
theorem Reaches.alone
    {machine : Machine interface ι State α} {actor : ι}
    {before after : Program interface α × State}
    (advances : ReflTransGen (Advance (family actor)) before after)
    (running : machine.thread actor = some before.1)
    (current : machine.state = before.2) :
    Reaches family machine
      { state := after.2
        thread := Function.update machine.thread actor (some after.1) } := by
  induction advances with
  | refl =>
      rw [← current, ← running, Function.update_eq_self]
  | @tail middle last _ step induction =>
      rcases step with ⟨op, next, answer, asks, performed, rest⟩
      have present :
          Function.update machine.thread actor (some middle.1) actor =
            some (.ask op next) := by
        rw [Function.update_self, asks]
      have acted := induction.tail (.act actor present performed)
      rw [Function.update_idem, ← rest] at acted
      exact acted

/-- A thread which has returned stays as it is. -/
theorem Reaches.returned
    {machine later : Machine interface ι State α}
    (reaches : Reaches family machine later)
    {actor : ι} {value : α}
    (present : machine.thread actor = some (.done value)) :
    later.thread actor = some (.done value) := by
  induction reaches with
  | refl => exact present
  | tail _ step induction =>
      cases step with
      | act other running performed =>
          have different : actor ≠ other := by
            rintro rfl
            rw [induction] at running
            cases running
          simpa only [Function.update_of_ne different] using induction
      | crash other running =>
          have different : actor ≠ other := by
            rintro rfl
            rw [induction] at running
            cases running
          simpa only [Function.update_of_ne different] using induction

end Soundness

end Luminosity.Foundation.Interleaving
