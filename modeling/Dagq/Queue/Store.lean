/-
This file models the rows of the queue: tasks, goals, what depends on what and the replacements
applied, with the events recorded beside them, and what is read of the rows together: what waits
for what, which tasks are candidates and what holds a goal back. What a write reads of the tables
left out is an input of it, which may be anything at each write.
-/

import Dagq.Lib.Keyed
import Dagq.Queue.ClaimFacts
import Dagq.Queue.View
import Dagq.Replan.Apply
import Dagq.Replan.Unresolved

namespace Dagq.Queue

open Dagq.Lib Dagq.Ledger Dagq.Priorities
open Dagq.Replan (WaitNode UnresolvedReplacement unresolvedReplacements)

/-! ### Rows -/

structure QueueTask where
  id : Nat
  status : TaskStatus
  goalId : Option Nat
  deriving DecidableEq, Repr

/-- A goal with a close time exactly where it has a verdict. -/
structure QueueGoal where
  id : Nat
  status : GoalStatus
  closedAt : Option String
  verdict : Option GoalVerdict
  consistent : closedAt.isSome = verdict.isSome

def QueueGoal.isClosed (goal : QueueGoal) : Bool := goal.closedAt.isSome

theorem QueueGoal.isClosed_eq (goal : QueueGoal) : goal.isClosed = goal.verdict.isSome :=
  goal.consistent

/-- Rows of two numbers, no pair twice. -/
abbrev Edges := Keyed (id : Nat × Nat → Nat × Nat)

theorem Edges.mem_add {edges : Edges} {new edge : Nat × Nat} :
    edge ∈ (edges.add new).items ↔ edge ∈ edges.items ∨ edge = new := by
  by_cases held : new ∈ edges.items
  · have same : edges.add new = edges := by
      rw [Keyed.add, dif_pos (by simpa using held)]
    rw [same]
    exact ⟨Or.inl, fun either => either.elim id fun isNew => isNew ▸ held⟩
  · refine Keyed.mem_add fun old member isNew => ?_
    obtain rfl : old = new := isNew
    exact held member

structure QueueStore where
  tasks : Keyed QueueTask.id
  goals : Keyed QueueGoal.id
  dependencies : Edges
  goalDependencies : Edges
  /-- The tasks that applied operations replaced, each with one it was replaced by. -/
  replacements : List (Nat × Nat)
  events : List QueueEvent

/-- Why a write of the queue is refused. -/
inductive QueueError where
  | noTask (id : Nat)
  | noGoal (id : Nat)
  | idsExhausted
  | selfDependency
  | guarded (task : Nat)
  | taskNotEditable (what : String)
  | replacedDependency (task predecessor : Nat)
  | dependencyCycle (task predecessor : Nat)
  | noDependency (task predecessor : Nat)
  | ownGoalDependency (goal : Nat)
  | goalDependencyCycle (task goal : Nat)
  | goalMembershipCycle (task goal : Nat)
  | noGoalDependency (task goal : Nat)
  | abandonedGoalDependency (goal : Nat)
  | goalClosed (goal : Nat) (verdict : Option GoalVerdict)
  | goalAlreadyClosed (goal : Nat) (verdict : Option GoalVerdict)
  | goalNotDraft (goal : Nat)
  | goalNotReopenable (goal : Nat) (verdict : Option GoalVerdict)
  | goalCloseBlocked (goal : Nat) (verdict : GoalVerdict) (blocking : List (TaskStatus × Nat))
  | goalFollowUpsUnsettled (goal : Nat)
  | goalReplacementsUnresolved (goal : Nat)
  | childWaitsForApply (task : Nat)
  | unjudged (task : Nat)
  | transition (error : TransitionError)
  | taskNotClaimable (task : Nat) (status : TaskStatus)
  | noReadyTask
  | notInProgress (task : Nat)
  | applyRefused (problems : List Replan.ApplyProblem)
  deriving DecidableEq, Repr

namespace QueueStore

def empty : QueueStore := ⟨Keyed.empty, Keyed.empty, Keyed.empty, Keyed.empty, [], []⟩

def readTask (store : QueueStore) (id : Nat) : Except QueueError QueueTask :=
  match store.tasks.get? id with
  | some task => .ok task
  | none => .error (.noTask id)

def readGoal (store : QueueStore) (id : Nat) : Except QueueError QueueGoal :=
  match store.goals.get? id with
  | some goal => .ok goal
  | none => .error (.noGoal id)

/-- Record an event after those recorded before. -/
def record (clock : Nat → String) (store : QueueStore) (fact : QueueFact) : QueueStore :=
  let id := store.events.length + 1
  { store with events := store.events ++ [fact.event id (clock id)] }

/-! ### What waits for what -/

def taskEdges (edges : List (Nat × Nat)) : List (Node × Node) :=
  edges.map fun edge => (.task edge.1, .task edge.2)

/-- The edges of the wait graph but those of predecessors. -/
def otherEdges (store : QueueStore) : List (Node × Node) :=
  (store.goalDependencies.items.map fun edge => (.task edge.1, .goal edge.2)) ++
    (store.tasks.items.filterMap fun task =>
      if task.status = .canceled then none
      else task.goalId.map fun goal => (WaitNode.goal goal, WaitNode.task task.id)) ++
    taskEdges store.replacements

def waitEdges (store : QueueStore) : List (Node × Node) :=
  taskEdges store.dependencies.items ++ store.otherEdges

/-- Whether one already waits for the other, directly or not. -/
def waitsFor (store : QueueStore) (source target : Node) : Bool :=
  comesTo (tableOf store.waitEdges) target [source] []

/-- The wait graph without the edges of the tasks that depend on the task. -/
def waitGraph (store : QueueStore) (task : Nat) : Table Node (List Node) :=
  tableOf (taskEdges (store.dependencies.items.filter fun edge => edge.2 ≠ task) ++ store.otherEdges)

/-- The tasks that depend on the task and have not ended, with their statuses. -/
def successorsNow (store : QueueStore) (task : Nat) : Ordered Nat TaskStatus :=
  ((store.dependencies.items.filter fun edge => edge.2 = task).filterMap fun edge =>
    (store.tasks.get? edge.1).bind fun successor =>
      if successor.status.isTerminal then none else some (successor.id, successor.status)).foldl
    (fun successors successor => successors.insert successor.1 successor.2) Ordered.empty

/-! ### What follows replaced tasks -/

def replacementsOf (store : QueueStore) (task : Nat) : List Nat :=
  (store.replacements.filter fun edge => edge.1 = task).map Prod.snd

/-- The tasks of a goal that were replaced, by number. -/
def replacedTasks (store : QueueStore) (goal : Nat) : List Nat :=
  ((store.tasks.items.filter fun task => task.goalId = some goal ∧ task.status = .replaced).map
    QueueTask.id).insertionSort (· ≤ ·)

/-- Every task that the replacements of these reach, with its status, by number. -/
def replacementTasks (store : QueueStore) (from_ : List Nat) : List QueueTask :=
  (store.tasks.items.filter fun task => from_.any fun root =>
    comesTo (tableOf store.replacements) task.id (store.replacementsOf root) []).insertionSort
      fun first second => first.id ≤ second.id

/-- The tasks outside the goal that its replaced tasks' replacements reach. -/
def goalReplacing (store : QueueStore) (goal : Nat) : List QueueTask :=
  (store.replacementTasks (store.replacedTasks goal)).filter fun task => task.goalId ≠ some goal

/-- The statuses of the tasks given and of all those that something was replaced by. -/
def replacementStatuses (store : QueueStore) (from_ : List Nat) : Table Nat TaskStatus :=
  (store.tasks.items.filter fun task =>
    task.id ∈ from_ ∨ task.id ∈ store.replacements.map Prod.snd).foldl
    (fun statuses task => statuses.insert task.id task.status) Table.empty

/-- The broken records that the goal's replaced tasks reach. -/
def goalUnresolved (store : QueueStore) (goal : Nat) : Option (List (UnresolvedReplacement Nat)) :=
  let replacements := tableOf store.replacements
  unresolvedReplacements (replacements.keys.length + 1) (store.replacedTasks goal) replacements
    (store.replacementStatuses (store.replacedTasks goal))

/-! ### Candidates -/

/-- What a write reads of the tables left out. -/
structure QueueReads where
  now : String
  unfinishedRun : Nat → Bool
  /-- Whether an operation guards the task. -/
  guarded : Nat → Bool
  held : Nat → Bool
  /-- Whether no operation and no hold refuses the step on the task. -/
  mayStep : Nat → Bool
  /-- Whether the task is a child of a replacement that was not applied yet. -/
  childWaits : Nat → Bool
  /-- Whether the task's membership is judged, where it is a follow-up. -/
  judged : Nat → Bool
  /-- Whether the follow-ups found from the goal let it be achieved. -/
  settled : Nat → Bool
  /-- Whether a route, the classes and the investigations let the task be claimed. -/
  mayTake : Nat → Bool
  waitsForBuild : Nat → Bool
  /-- The order the supervisor asks for, and the order of the graph. -/
  order : List Nat
  claimOrder : List Nat

/-- Whether a task is ready in no draft, with its predecessors completed and the goals it depends on
achieved. -/
def conditionsMet (store : QueueStore) (task : QueueTask) : Bool :=
  task.status == .ready &&
    (task.goalId.bind store.goals.get?).all (fun goal => goal.status != .draft) &&
    (store.dependencies.items.all fun edge => edge.1 != task.id ||
      (store.tasks.get? edge.2).all fun predecessor => predecessor.status == .completed) &&
    store.goalDependencies.items.all fun edge => edge.1 != task.id ||
      (store.goals.get? edge.2).all fun goal => goal.isClosed && goal.verdict == some .achieved

/-- The candidates, by number. -/
def readyTasks (store : QueueStore) (reads : QueueReads) : List QueueTask :=
  (store.tasks.items.filter fun task =>
    store.conditionsMet task && !reads.unfinishedRun task.id && !reads.guarded task.id &&
      !reads.held task.id).insertionSort fun first second => first.id ≤ second.id

end QueueStore

end Dagq.Queue
