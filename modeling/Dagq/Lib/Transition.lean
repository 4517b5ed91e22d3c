/-
This file fixes what an interleaving is: parties take steps one at a time, each
a step of a relation between states, and a state is reachable when some order of
steps leads to it. An invariant is what the start has and every step from a
reachable state keeps; a fact about two moments of a run is an invariant of the
paths between them.
-/

import Mathlib.Logic.Relation
import Mathlib.Tactic

namespace Dagq.Lib

/-- The states some order of steps leads to. -/
inductive Reachable {State : Type*} (start : State) (step : State → State → Prop) : State → Prop
  | start : Reachable start step start
  | step {before after : State} (reached : Reachable start step before) (next : step before after) :
      Reachable start step after

variable {State : Type*} {start : State} {step : State → State → Prop}

/-- What the start has and each step from a reachable state keeps, every reachable state has. -/
theorem Reachable.invariant {state : State} (reached : Reachable start step state)
    (property : State → Prop) (initial : property start)
    (preserved : ∀ before after, Reachable start step before → property before →
      step before after → property after) : property state := by
  induction reached with
  | start => exact initial
  | step before next inductionHypothesis =>
    exact preserved _ _ before inductionHypothesis next

theorem Reachable.trans {middle last : State} (first : Reachable start step middle)
    (second : Reachable middle step last) : Reachable start step last := by
  induction second with
  | start => exact first
  | step _ next inductionHypothesis => exact inductionHypothesis.step next

theorem Reachable.path {before after : State} (reached : Reachable start step before)
    (path : Relation.ReflTransGen step before after) : Reachable start step after := by
  induction path with
  | refl => exact reached
  | tail _ next inductionHypothesis => exact inductionHypothesis.step next

/-- What holds at the start of a path and is kept by each of its steps holds at its end. -/
theorem path_invariant {before after : State} (path : Relation.ReflTransGen step before after)
    (property : State → Prop) (initial : property before)
    (preserved : ∀ first second, property first → step first second → property second) :
    property after := by
  induction path with
  | refl => exact initial
  | tail _ next inductionHypothesis => exact preserved _ _ inductionHypothesis next

end Dagq.Lib
