/-
This file models the dependency view of the unfinished tasks: which tasks each task
blocks, directly and through the goals it belongs to, how many wait for it in all and
what priority they lift it to, the order of the candidates, and the critical chain.
-/

import Dagq.Claim.Order
import Dagq.Lib.Grouped
import Dagq.Lib.Least
import Dagq.Lib.Reach
import Mathlib.Data.Finset.Sort

namespace Dagq.Graph

open Dagq.Claim Dagq.Lib Dagq.Priorities Dagq.Queue

/-! ### The input -/

/-- Whether a goal's tasks may run. -/
inductive GoalStatus where
  | draft
  | open_
  deriving DecidableEq, Repr

/-- A goal a task depends on and its verdict, absent while the goal is not closed. -/
structure GraphGoalDependency where
  goalId : Int
  verdict : Option GoalVerdict
  deriving DecidableEq, Repr

/-- Only a goal closed as achieved releases the tasks that wait for it. -/
def GraphGoalDependency.isMet (dependency : GraphGoalDependency) : Bool :=
  dependency.verdict = some .achieved

/-- An unfinished task with every direct predecessor, finished or not. -/
structure GraphTask where
  id : Int
  status : TaskStatus
  priority : Priority
  prioritySource : PrioritySource
  priorityBy : PriorityBy
  executionClass : ExecutionClass
  title : String
  goalId : Option Int
  goalStatus : Option GoalStatus
  dependsOn : List Int
  goalDependencies : List GraphGoalDependency
  deriving DecidableEq, Repr

/-- One read of the queue: the unfinished tasks and the ids of the claimable ones. -/
structure GraphInput where
  tasks : List GraphTask
  candidates : List Int

/-! ### The view -/

/-- What an unfinished task still waits for. -/
inductive WaitFor where
  | task (id : Int)
  | goal (id : Int)
  deriving DecidableEq, Repr

/-- An unfinished task as the graph shows it. -/
structure GraphNode where
  id : Int
  status : TaskStatus
  priority : Priority
  prioritySource : PrioritySource
  priorityBy : PriorityBy
  effectivePriority : Priority
  executionClass : ExecutionClass
  title : String
  goalId : Option Int
  goalStatus : Option GoalStatus
  dependsOn : List Int
  goalDependencies : List Int
  blocks : List Int
  unblocks : Nat
  readyAfter : List WaitFor
  deriving DecidableEq, Repr

structure DependencyGraph where
  tasks : List GraphNode
  candidates : List Int
  critical : List Int

/-! ### Edges -/

/-- The tasks of each goal. -/
def membersOf (tasks : List GraphTask) : Ordered Int (List Int) :=
  tasks.foldl
    (fun members task =>
      match task.goalId with
      | some goalId => members.push goalId task.id
      | none => members)
    Ordered.empty

/-- Put a task after each of the tasks it waits for. A closed goal no longer waits for its tasks:
achieved releases the task, abandoned never does. -/
def addBlocks (tasks : List GraphTask) (blocks : Ordered Int (List Int)) (task : GraphTask) :
    Ordered Int (List Int) :=
  let ofTasks := task.dependsOn.foldl
    (fun blocks predecessor =>
      if predecessor ∈ tasks.map (·.id) then blocks.push predecessor task.id else blocks)
    blocks
  (task.goalDependencies.filter fun dependency => dependency.verdict.isNone).foldl
    (fun blocks dependency =>
      ((membersOf tasks).held dependency.goalId).foldl
        (fun blocks member => blocks.push member task.id) blocks)
    ofTasks

/-- The tasks that each task blocks, ascending. -/
def blocksOf (tasks : List GraphTask) : Ordered Int (List Int) :=
  (tasks.foldl (addBlocks tasks) Ordered.empty).mapValues
    fun dependents => (dependents.insertionSort (· ≤ ·)).dedup

/-- The tasks that wait for a task directly. -/
def direct (tasks : List GraphTask) (id : Int) : List Int := (blocksOf tasks).held id

/-! ### Waiters -/

/-- Whether a task passes its priority on to those it waits for. -/
def GraphTask.passesOn (task : GraphTask) : Bool :=
  task.status = .ready && task.goalStatus ≠ some .draft &&
    !task.goalDependencies.any fun dependency => dependency.verdict = some .abandoned

/-- The priority the claim order compares, of a task's own and those of its waiters. -/
def effectivePriority (own : Priority) (waiters : List GraphTask) : Priority :=
  ((waiters.filter GraphTask.passesOn).map (·.priority)).foldl max own

/-- The rounds that a search takes at most: each task is looked at once. -/
def searchRounds (tasks : List GraphTask) (id : Int) : Nat :=
  (direct tasks id).length + ∑ other ∈ (tasks.map (·.id)).toFinset, (direct tasks other).length

/-- The search for the tasks that wait for a task, directly or not. -/
def waitersSearch (tasks : List GraphTask) (id : Int) : Search Int :=
  search (direct tasks) (searchRounds tasks id) id

/-- The tasks by their ids. -/
def byId (tasks : List GraphTask) : Ordered Int GraphTask :=
  Ordered.collect (tasks.map fun task => (task.id, task))

/-- How many unfinished tasks wait for each task, and its effective priority over those. -/
def reachOf (tasks : List GraphTask) : Ordered Int (Nat × Priority) :=
  Ordered.collect (tasks.map fun task =>
    let reached := (waitersSearch tasks task.id).reached
    let waiters := (reached.sort (· ≤ ·)).filterMap (byId tasks).get?
    (task.id, reached.card, effectivePriority task.priority waiters))

def count (tasks : List GraphTask) (id : Int) : Nat :=
  ((reachOf tasks).get? id).elim 0 Prod.fst

def effective (tasks : List GraphTask) (id : Int) : Priority :=
  ((reachOf tasks).get? id).elim .normal Prod.snd

/-! ### Orders -/

/-- Most unblocks first, lowest id on a tie. -/
def rank (tasks : List GraphTask) (id : Int) : ℕᵒᵈ ×ₗ Int :=
  toLex (OrderDual.toDual (count tasks id), id)

/-- Where a task stands in the claim rule's order; the smaller rank comes first. -/
abbrev ClaimRank : Type := Priorityᵒᵈ ×ₗ ℕᵒᵈ ×ₗ Int

def ClaimRank.new (effectivePriority : Priority) (unblocks : Nat) (id : Int) : ClaimRank :=
  toLex (OrderDual.toDual effectivePriority, toLex (OrderDual.toDual unblocks, id))

def claimRank (tasks : List GraphTask) (id : Int) : ClaimRank :=
  ClaimRank.new (effective tasks id) (count tasks id) id

/-! ### The critical chain -/

/-- The chain so far, and the task it goes on with. -/
structure Chain where
  step : Option Int
  critical : List Int := []

/-- Go on to the directly blocked task with the most unblocks. -/
def Chain.next (tasks : List GraphTask) (chain : Chain) : Option Chain :=
  chain.step.map fun id =>
    { step := leastBy (rank tasks) (direct tasks id)
      critical := chain.critical ++ [id] }

/-- Where the chain starts: with the task that has the most unblocks, if another waits for it. -/
def Chain.start (tasks : List GraphTask) (goalIds : List Int) : Chain :=
  let step := leastBy (rank tasks) goalIds
  { step := if step.any fun id => count tasks id = 0 then none else step }

/-- The chain when it has ended, after as many rounds as there are tasks. -/
def chainOf (tasks : List GraphTask) (goalIds : List Int) : Chain :=
  loop (Chain.next tasks) (tasks.length + 1) (Chain.start tasks goalIds)

/-! ### The view computed -/

/-- The tasks of the goal asked for, or all. -/
def inGoal (goalId : Option Int) (task : GraphTask) : Bool :=
  goalId.isNone || task.goalId = goalId

/-- The ids of those tasks, ascending. -/
def goalIdsOf (tasks : List GraphTask) (goalId : Option Int) : List Int :=
  (((tasks.filter (inGoal goalId)).map (·.id)).insertionSort (· ≤ ·)).dedup

/-- A task as the graph shows it. -/
def nodeOf (tasks : List GraphTask) (task : GraphTask) : GraphNode where
  effectivePriority := effective tasks task.id
  blocks := direct tasks task.id
  unblocks := count tasks task.id
  readyAfter :=
    (task.dependsOn.filter fun id => id ∈ tasks.map (·.id)).map WaitFor.task ++
      (task.goalDependencies.filter fun dependency => !dependency.isMet).map
        fun dependency => WaitFor.goal dependency.goalId
  goalDependencies := task.goalDependencies.map (·.goalId)
  id := task.id
  executionClass := task.executionClass
  status := task.status
  priority := task.priority
  prioritySource := task.prioritySource
  priorityBy := task.priorityBy
  title := task.title
  goalId := task.goalId
  goalStatus := task.goalStatus
  dependsOn := task.dependsOn

/-- The dependency view of the unfinished tasks. Counts span all of them; a goal only narrows the
tasks shown, the candidates and where the critical chain starts. -/
def dependencyGraph (input : GraphInput) (goalId : Option Int) : DependencyGraph :=
  let goalIds := goalIdsOf input.tasks goalId
  let candidates := input.candidates.filter fun id => goalId.isNone || id ∈ goalIds
  { tasks := (input.tasks.filter fun task => task.id ∈ goalIds).map (nodeOf input.tasks)
    candidates := candidates.insertionSort
      fun first second => claimRank input.tasks first ≤ claimRank input.tasks second
    critical := (chainOf input.tasks goalIds).critical }

end Dagq.Graph
