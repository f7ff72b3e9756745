import Mathlib.Data.List.Basic

/-!
# Last-write-wins registers

A family of registers is a function from keys to values, and a write replaces
the value of one key.  The value of a key after a sequence of writes is the
value of the last write to that key, or the initial value when there is none.

A `RegisterSystem` is a transition system whose steps each perform at most one
write on an abstract view of the state.  The run law transports the register
law to every finite run of such a system.
-/

namespace Luminosity.Foundation.LastWrite

variable {κ υ : Type} [DecidableEq κ]

/-- Perform a sequence of writes, oldest first. -/
def applyWrites (writes : List (κ × υ)) (base : κ → υ) : κ → υ :=
  writes.foldl
    (fun current write => Function.update current write.1 write.2) base

/-- The value of the last write to a key. -/
def lastWrite (writes : List (κ × υ)) (key : κ) : Option υ :=
  ((writes.filter fun write => write.1 = key).getLast?).map Prod.snd

theorem lastWrite_cons
    (write : κ × υ) (rest : List (κ × υ)) (key : κ) :
    lastWrite (write :: rest) key =
      (lastWrite rest key).or
        (if write.1 = key then some write.2 else none) := by
  by_cases same : write.1 = key
  · rw [if_pos same, lastWrite, List.filter_cons_of_pos (by simpa using same)]
    rw [lastWrite, List.getLast?_cons]
    cases (rest.filter fun write => write.1 = key).getLast? <;> rfl
  · rw [if_neg same, lastWrite, List.filter_cons_of_neg (by simpa using same)]
    rw [← lastWrite, Option.or_none]

/-- The register law. -/
theorem applyWrites_apply
    (writes : List (κ × υ)) (base : κ → υ) (key : κ) :
    applyWrites writes base key =
      (lastWrite writes key).getD (base key) := by
  induction writes generalizing base with
  | nil => rfl
  | cons write rest induction =>
      have tailLaw := induction (Function.update base write.1 write.2)
      rw [lastWrite_cons]
      change
        applyWrites rest (Function.update base write.1 write.2) key = _
      rw [tailLaw]
      cases lastWrite rest key with
      | some value => rfl
      | none =>
          by_cases same : write.1 = key
          · subst same
            simp
          · simp [same, Function.update_of_ne (Ne.symm same)]

/--
A transition system seen through registers: each step either writes one
register of the view or leaves the whole view unchanged.
-/
structure RegisterSystem (State Call κ υ : Type) [DecidableEq κ] where
  step : State → Call → State
  view : State → κ → υ
  effect : State → Call → Option (κ × υ)
  view_step : ∀ state call,
    view (step state call) =
      applyWrites (effect state call).toList (view state)

namespace RegisterSystem

variable {State Call : Type} (system : RegisterSystem State Call κ υ)

/-- The state after a sequence of calls. -/
def run (state : State) (calls : List Call) : State :=
  calls.foldl system.step state

/-- The writes performed along a run, oldest first. -/
def writes (state : State) : List Call → List (κ × υ)
  | [] => []
  | call :: calls =>
      (system.effect state call).toList ++
        writes (system.step state call) calls

/-- The run law: every run refines the writes it performed. -/
theorem view_run (state : State) (calls : List Call) :
    system.view (system.run state calls) =
      applyWrites (system.writes state calls) (system.view state) := by
  induction calls generalizing state with
  | nil => rfl
  | cons call calls induction =>
      have tailLaw := induction (system.step state call)
      change system.view (system.run (system.step state call) calls) = _
      rw [tailLaw, system.view_step state call, writes]
      simp [applyWrites, List.foldl_append]

theorem view_run_apply (state : State) (calls : List Call) (key : κ) :
    system.view (system.run state calls) key =
      (lastWrite (system.writes state calls) key).getD
        (system.view state key) := by
  rw [system.view_run, applyWrites_apply]

end RegisterSystem

end Luminosity.Foundation.LastWrite
