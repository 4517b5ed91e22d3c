/-
This file models when a task became claimable, replayed from the recorded events: its own
creation, status, dependencies and goal, the statuses of the tasks it depends on, and the
goals it depends on or belongs to. The events are read by one query that picks the kinds
that matter of the tasks and goals the task's own events name.
-/

import Dagq.Queue.Event

namespace Dagq.Queue

open Dagq.Ledger Dagq.Priorities

/-! ### The replay -/

/-- What the replay knows of the task, of other tasks and of goals. -/
structure Replay where
  ready : Bool := false
  goal : Option Int := none
  dependencies : Finset Int := ∅
  completed : Finset Int := ∅
  goalDependencies : Finset Int := ∅
  achieved : Finset Int := ∅
  drafts : Finset Int := ∅
  candidate : Bool := false
  since : Option String := none

namespace Replay

/-- Whether the task is a candidate now. -/
def now (replay : Replay) : Bool :=
  replay.ready && decide (replay.dependencies ⊆ replay.completed) &&
    decide (replay.goalDependencies ⊆ replay.achieved) &&
    replay.goal.all fun goal => decide (goal ∉ replay.drafts)

/-- Add what a payload names, if anything. -/
def extend (known : Finset Int) (named : Option Int) : Finset Int :=
  named.elim known fun number => insert number known

/-- Remove what a payload names, if anything. -/
def without (known : Finset Int) (named : Option Int) : Finset Int :=
  named.elim known known.erase

/-- Read an event of the task itself. -/
def ofTask (replay : Replay) (event : QueueEvent) : Replay :=
  match event.kind with
  | .taskCreated =>
    { replay with
      ready := event.taskStatus "status" == some .ready
      goal := event.number "goal_id" }
  | .taskStatusChanged => { replay with ready := event.taskStatus "to" == some .ready }
  | .runClaimed => { replay with ready := false }
  | .dependencyAdded =>
    { replay with dependencies := extend replay.dependencies (event.number "predecessor_id") }
  | .dependencyRemoved =>
    { replay with dependencies := without replay.dependencies (event.number "predecessor_id") }
  | .goalDependencyAdded =>
    { replay with goalDependencies := extend replay.goalDependencies (event.number "goal_id") }
  | .goalDependencyRemoved =>
    { replay with goalDependencies := without replay.goalDependencies (event.number "goal_id") }
  | .taskGoalChanged => { replay with goal := event.number "to" }
  | _ => replay

/-- Read an event of another task. -/
def ofOther (replay : Replay) (other : Nat) (event : QueueEvent) : Replay :=
  match event.kind with
  | .taskStatusChanged =>
    if event.taskStatus "to" = some .completed then
      { replay with completed := insert (other : Int) replay.completed }
    else { replay with completed := replay.completed.erase other }
  | _ => replay

/-- Read an event of a goal. -/
def ofGoal (replay : Replay) (goal : Nat) (event : QueueEvent) : Replay :=
  match event.kind with
  | .goalCreated =>
    if event.createdStatus = some .draft then
      { replay with drafts := insert (goal : Int) replay.drafts }
    else replay
  | .goalStatusChanged =>
    if event.goalStatus "to" = some .draft then
      { replay with drafts := insert (goal : Int) replay.drafts }
    else { replay with drafts := replay.drafts.erase goal }
  | .goalClosed =>
    if event.verdict "verdict" = some .achieved then
      { replay with achieved := insert (goal : Int) replay.achieved }
    else { replay with achieved := replay.achieved.erase goal }
  | .goalReopened =>
    -- reopened open, whatever it was before it closed
    { replay with
      achieved := replay.achieved.erase goal
      drafts := replay.drafts.erase goal }
  | _ => replay

/-- What an event says, the candidate judged as it was. -/
def learn (task : Nat) (replay : Replay) (event : QueueEvent) : Replay :=
  match event.taskId, event.goalId with
  | some other, _ => if other = task then replay.ofTask event else replay.ofOther other event
  | none, some goal => replay.ofGoal goal event
  | none, none => replay

/-- Judge the candidate again at an event, which dates it where it made it one. -/
def judge (replay : Replay) (event : QueueEvent) : Replay :=
  { replay with
    candidate := replay.now
    since :=
      if replay.now && !replay.candidate && (timestampMillis event.createdAt).isSome then
        some event.createdAt
      else replay.since }

def read (task : Nat) (replay : Replay) (event : QueueEvent) : Replay :=
  (replay.learn task event).judge event

end Replay

/-- What the events tell of the task, read by ascending number. -/
def replayOf (task : Nat) (events : List QueueEvent) : Replay :=
  (events.insertionSort fun first second => first.id ≤ second.id).foldl (Replay.read task) {}

/-- When the task last became claimable. -/
def claimableSince (task : Nat) (events : List QueueEvent) : Option String :=
  (replayOf task events).since

/-! ### The events read for it -/

def ownKinds : List QueueKind :=
  [.taskCreated, .taskStatusChanged, .runClaimed, .dependencyAdded, .dependencyRemoved,
    .goalDependencyAdded, .goalDependencyRemoved, .taskGoalChanged]

def goalKinds : List QueueKind := [.goalCreated, .goalStatusChanged, .goalClosed, .goalReopened]

/-- The numbers under a key of the task's own events of some kinds. -/
def named (task : Nat) (events : List QueueEvent) (kinds : List QueueKind) (key : String) :
    List Int :=
  (events.filter fun event => event.taskId == some task && kinds.contains event.kind).filterMap
    (·.number key)

/-- The tasks that the task's own events name. -/
def namedTasks (task : Nat) (events : List QueueEvent) : List Int :=
  named task events [.dependencyAdded, .dependencyRemoved] "predecessor_id"

/-- The goals that the task's own events name. -/
def namedGoals (task : Nat) (events : List QueueEvent) : List Int :=
  named task events [.goalDependencyAdded, .goalDependencyRemoved, .taskCreated] "goal_id" ++
    named task events [.taskGoalChanged] "from" ++ named task events [.taskGoalChanged] "to"

/-- Whether an event is read for the tasks and goals that are named. -/
def isReadFor (task : Nat) (tasks goals : List Int) (event : QueueEvent) : Bool :=
  (event.taskId == some task && ownKinds.contains event.kind) ||
    (event.kind == .taskStatusChanged && event.taskId.any fun other => tasks.contains (other : Int)) ||
    (event.taskId.isNone && goalKinds.contains event.kind &&
      event.goalId.any fun goal => goals.contains (goal : Int))

/-- When the task became claimable, as the claim reads it of all events. -/
def taskReadyAt (task : Nat) (events : List QueueEvent) : Option String :=
  claimableSince task
    (events.filter (isReadFor task (namedTasks task events) (namedGoals task events)))

end Dagq.Queue
