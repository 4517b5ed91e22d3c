/-
This file models the events that the writes of the queue record beside the rows they
change: of a task, of a goal, or of neither. An event has the number after the one before
it and carries the time its write was made at, which may be any text.
-/

import Dagq.Ledger.Event
import Dagq.Priorities.Task

namespace Dagq.Queue

open Dagq.Ledger Dagq.Priorities

inductive GoalStatus where
  | draft
  | open_
  deriving DecidableEq, Repr

def GoalStatus.asStr : GoalStatus → String
  | draft => "draft"
  | open_ => "open"

def GoalStatus.parse : String → Option GoalStatus
  | "draft" => some draft
  | "open" => some open_
  | _ => none

@[simp] theorem GoalStatus.parse_asStr (status : GoalStatus) : parse status.asStr = some status := by
  cases status <;> rfl

def verdictAsStr : GoalVerdict → String
  | .achieved => "achieved"
  | .abandoned => "abandoned"

def parseVerdict : String → Option GoalVerdict
  | "achieved" => some .achieved
  | "abandoned" => some .abandoned
  | _ => none

@[simp] theorem parseVerdict_asStr (verdict : GoalVerdict) :
    parseVerdict (verdictAsStr verdict) = some verdict := by
  cases verdict <;> rfl

def TaskStatus.parse : String → Option TaskStatus
  | "draft" => some draft
  | "submitted" => some submitted
  | "ready" => some ready
  | "in_progress" => some inProgress
  | "completed" => some completed
  | "canceled" => some canceled
  | "replaced" => some replaced
  | _ => none

@[simp] theorem TaskStatus.parse_asStr (status : TaskStatus) : parse status.asStr = some status := by
  cases status <;> rfl

/-! ### Events -/

/-- The kinds that move a task in and out of the candidates, and all others. -/
inductive QueueKind where
  | taskCreated
  | taskStatusChanged
  | runClaimed
  | dependencyAdded
  | dependencyRemoved
  | goalDependencyAdded
  | goalDependencyRemoved
  | taskGoalChanged
  | goalCreated
  | goalStatusChanged
  | goalClosed
  | goalReopened
  | replanApplied
  | other (name : String)
  deriving DecidableEq, Repr

structure QueueEvent where
  id : Nat
  taskId : Option Nat := none
  goalId : Option Nat := none
  kind : QueueKind
  payload : Value
  createdAt : String

/-! ### Payloads -/

/-- A key of a payload that holds a number of 64 bits. -/
def QueueEvent.number (event : QueueEvent) (key : String) : Option Int :=
  (event.payload.get key).bind Value.asI64

/-- A key of a payload that holds a status of a task. -/
def QueueEvent.taskStatus (event : QueueEvent) (key : String) : Option TaskStatus :=
  ((event.payload.get key).bind Value.asStr).bind TaskStatus.parse

def QueueEvent.goalStatus (event : QueueEvent) (key : String) : Option GoalStatus :=
  ((event.payload.get key).bind Value.asStr).bind GoalStatus.parse

def QueueEvent.verdict (event : QueueEvent) (key : String) : Option GoalVerdict :=
  ((event.payload.get key).bind Value.asStr).bind parseVerdict

/-- The status that the goal of a payload shows. -/
def QueueEvent.createdStatus (event : QueueEvent) : Option GoalStatus :=
  (((event.payload.get "goal").bind (·.get "status")).bind Value.asStr).bind GoalStatus.parse

/-- A number, or `null` for none. -/
def numberValue : Option Nat → Value
  | some number => .int number
  | none => .null

def createdPayload (goalId : Option Nat) (status : TaskStatus) : Value :=
  .object [("goal_id", numberValue goalId), ("status", .text status.asStr)]

def statusPayload (before after : TaskStatus) : Value :=
  .object [("from", .text before.asStr), ("to", .text after.asStr)]

def dependencyPayload (predecessor : Nat) : Value := .object [("predecessor_id", .int predecessor)]

def goalDependencyPayload (goal : Nat) : Value := .object [("goal_id", .int goal)]

def goalMovePayload (before after : Option Nat) : Value :=
  .object [("from", numberValue before), ("to", numberValue after)]

def goalCreatedPayload (status : GoalStatus) : Value :=
  .object [("goal", .object [("status", .text status.asStr)])]

def goalStatusPayload (before after : GoalStatus) : Value :=
  .object [("from", .text before.asStr), ("to", .text after.asStr)]

def goalClosedPayload (verdict : GoalVerdict) : Value :=
  .object [("verdict", .text (verdictAsStr verdict))]

def claimedPayload (readyAt : Option String) : Value :=
  let fields := [("from", .text TaskStatus.ready.asStr), ("to", .text TaskStatus.inProgress.asStr)]
  .object (readyAt.elim fields fun time => fields ++ [("ready_at", .text time)])

/-- What each successor waited for and what it waits for in its place. -/
def appliedPayload (task : Nat) (children : List Nat) (successors : List (Nat × List Nat)) : Value :=
  let numbers := fun tasks : List Nat => Value.list (tasks.map fun id => .int id)
  .object
    [("children", numbers children),
      ("successors", .list (successors.map fun successor => .object
        [("task_id", .int successor.1), ("before", numbers [task]),
          ("after", numbers successor.2)]))]

/-! ### What is recorded -/

/-- What a write records, before it becomes an event. -/
inductive QueueFact where
  | taskCreated (task : Nat) (goal : Option Nat) (status : TaskStatus)
  | taskStatusChanged (task : Nat) (before after : TaskStatus)
  | runClaimed (task : Nat) (readyAt : Option String)
  | dependencyAdded (task predecessor : Nat)
  | dependencyRemoved (task predecessor : Nat)
  | goalDependencyAdded (task goal : Nat)
  | goalDependencyRemoved (task goal : Nat)
  | taskGoalChanged (task : Nat) (before after : Option Nat)
  | goalCreated (goal : Nat) (status : GoalStatus)
  | goalStatusChanged (goal : Nat) (before after : GoalStatus)
  | goalClosed (goal : Nat) (verdict : GoalVerdict)
  | goalReopened (goal : Nat)
  | replanApplied (task : Nat) (children : List Nat) (successors : List (Nat × List Nat))
  | other (task goal : Option Nat) (name : String)
  deriving DecidableEq, Repr

/-- The event of what is recorded, of this number and time. -/
def QueueFact.event (id : Nat) (createdAt : String) : QueueFact → QueueEvent
  | .taskCreated task goal status =>
    { id, taskId := some task, kind := .taskCreated, payload := createdPayload goal status, createdAt }
  | .taskStatusChanged task before after =>
    { id, taskId := some task, kind := .taskStatusChanged, payload := statusPayload before after,
      createdAt }
  | .runClaimed task readyAt =>
    { id, taskId := some task, kind := .runClaimed, payload := claimedPayload readyAt, createdAt }
  | .dependencyAdded task predecessor =>
    { id, taskId := some task, kind := .dependencyAdded, payload := dependencyPayload predecessor,
      createdAt }
  | .dependencyRemoved task predecessor =>
    { id, taskId := some task, kind := .dependencyRemoved, payload := dependencyPayload predecessor,
      createdAt }
  | .goalDependencyAdded task goal =>
    { id, taskId := some task, kind := .goalDependencyAdded, payload := goalDependencyPayload goal,
      createdAt }
  | .goalDependencyRemoved task goal =>
    { id, taskId := some task, kind := .goalDependencyRemoved, payload := goalDependencyPayload goal,
      createdAt }
  | .taskGoalChanged task before after =>
    { id, taskId := some task, kind := .taskGoalChanged, payload := goalMovePayload before after,
      createdAt }
  | .goalCreated goal status =>
    { id, goalId := some goal, kind := .goalCreated, payload := goalCreatedPayload status, createdAt }
  | .goalStatusChanged goal before after =>
    { id, goalId := some goal, kind := .goalStatusChanged, payload := goalStatusPayload before after,
      createdAt }
  | .goalClosed goal verdict =>
    { id, goalId := some goal, kind := .goalClosed, payload := goalClosedPayload verdict, createdAt }
  | .goalReopened goal =>
    { id, goalId := some goal, kind := .goalReopened,
      payload := .object [("previous_verdict", .text (verdictAsStr .achieved))], createdAt }
  | .replanApplied task children successors =>
    { id, taskId := some task, kind := .replanApplied,
      payload := appliedPayload task children successors, createdAt }
  | .other taskId goalId name =>
    { id, taskId, goalId, kind := .other name, payload := .null, createdAt }

/-- The events once more is recorded in turn, the clock giving each number its time. -/
def recordAll (clock : Nat → String) (events : List QueueEvent) (facts : List QueueFact) :
    List QueueEvent :=
  facts.foldl (fun events fact =>
    events ++ [fact.event (events.length + 1) (clock (events.length + 1))]) events

theorem recordAll_append (clock : Nat → String) (events : List QueueEvent)
    (facts more : List QueueFact) :
    recordAll clock events (facts ++ more) = recordAll clock (recordAll clock events facts) more :=
  List.foldl_append ..

theorem recordAll_concat (clock : Nat → String) (events : List QueueEvent) (facts : List QueueFact)
    (fact : QueueFact) :
    recordAll clock events (facts ++ [fact]) = recordAll clock events facts ++
      [fact.event ((recordAll clock events facts).length + 1)
        (clock ((recordAll clock events facts).length + 1))] :=
  recordAll_append ..

end Dagq.Queue
