/-
This file fixes what a run of a state machine is: a machine answers each input
with an output and a next state, and a run over a list of inputs keeps the log
of every input with its answer. Every fact about a run is an induction over its
last input, stated once as `run_induction`: what holds of the start and is kept
by one more input holds of every run.
-/

import Mathlib.Data.List.Induction
import Mathlib.Tactic

namespace Dagq.Lib

/-- A machine: one input takes a state to the next one and an output. -/
structure Machine (State Input Output : Type) where
  step : State → Input → State × Output

namespace Machine

variable {State Input Output : Type}

/-- A run so far: where the machine is, and each input with its answer in order. -/
structure Run (State Input Output : Type) where
  state : State
  log : List (Input × Output)

/-- One more input. -/
def follow (machine : Machine State Input Output) (run : Run State Input Output)
    (input : Input) : Run State Input Output where
  state := (machine.step run.state input).1
  log := run.log ++ [(input, (machine.step run.state input).2)]

/-- The run over `inputs` from `start`. -/
def run (machine : Machine State Input Output) (start : State) (inputs : List Input) :
    Run State Input Output :=
  inputs.foldl machine.follow ⟨start, []⟩

variable (machine : Machine State Input Output) (start : State)

@[simp] theorem run_nil : machine.run start [] = ⟨start, []⟩ := rfl

theorem run_append_singleton (inputs : List Input) (input : Input) :
    machine.run start (inputs ++ [input]) = machine.follow (machine.run start inputs) input := by
  rw [run, List.foldl_append]
  rfl

/-- What the start has and one more input keeps, every run has. The inputs so far are at hand,
so a condition on them can be part of the property. -/
theorem run_induction (property : List Input → Run State Input Output → Prop)
    (initial : property [] ⟨start, []⟩)
    (preserved : ∀ inputs input run, property inputs run →
      property (inputs ++ [input]) (machine.follow run input)) (inputs : List Input) :
    property inputs (machine.run start inputs) := by
  induction inputs using List.reverseRecOn with
  | nil => exact initial
  | append_singleton inputs input inductionHypothesis =>
    rw [run_append_singleton]
    exact preserved inputs input _ inductionHypothesis

end Machine

end Dagq.Lib
