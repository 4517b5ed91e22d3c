/-
This file models the priority of a task: its own setting or its goal's, who set
it, what a move between goals and an edit do to it, and which roles change a
priority a person set.
-/

import Dagq.Lib.Checks
import Dagq.Lib.Text
import Dagq.Queue.TaskStatus

namespace Dagq.Priorities

open Dagq.Lib Dagq.Queue

/-! ### Levels and who set them -/

inductive Priority where
  | low
  | normal
  | high
  | urgent
  | interrupt
  deriving DecidableEq, Repr

inductive PriorityBy where
  | human
  | ai
  deriving DecidableEq, Repr

inductive PrioritySource where
  | task
  | goal
  | default
  deriving DecidableEq, Repr

/-- A task's priority and where it comes from: its own setting, else its goal's. -/
def basePriority (own goal : Option Priority) : Priority × PrioritySource :=
  match own, goal with
  | some own, _ => (own, .task)
  | none, some goal => (goal, .goal)
  | none, none => (.normal, .default)

/-- Who set the effective priority. An own priority whose setter nobody can tell counts as a
person's. -/
def PriorityBy.effective (own : Option Priority) (ownBy goalBy : Option PriorityBy) : PriorityBy :=
  match own with
  | some _ => ownBy.getD .human
  | none => goalBy.getD .ai

/-! ### Roles -/

inductive ActorRole where
  | user
  | inbox
  | planner
  | worker
  | reviewJob
  | recoveryJob
  | planReviewJob
  | goalReviewJob
  | throughputReviewJob
  | setupReviewJob
  | observer
  | supervisor
  | wrapper
  | integrator
  | executorTelemetry
  deriving DecidableEq, Repr

/-- What holds a priority. -/
inductive PriorityHolder where
  | task (id : Nat)
  | goal (id : Nat)
  deriving DecidableEq, Repr

inductive GoalVerdict where
  | achieved
  | abandoned
  deriving DecidableEq, Repr

/-- Why a write is refused. -/
inductive DomainError where
  | notFound (text : String)
  | nonPositiveId (field : String)
  | blank (field : String)
  | taskNotEditable (what : String)
  | taskPriorityNotEditable (taskId : Nat) (status : TaskStatus)
  | taskContentNotEditable (taskId : Nat) (status : TaskStatus)
  | goalTagRepeated (tag : String)
  | goalCloseInconsistent (goalId : Nat)
  | goalClosed (goalId : Nat) (verdict : Option GoalVerdict)
  | ownGoalDependency (goalId : Nat)
  | goalMembershipCycle (taskId goalId : Nat)
  | requestPriorityDiffers (requestId : Nat) (priority given : Priority)
  | personsPriority (holder : PriorityHolder) (priority : Priority) (role : ActorRole)
  deriving DecidableEq, Repr

/-- Whether the role changes a priority a person set. -/
def changesPersonsPriority : ActorRole → Bool
  | .user | .inbox => true
  | _ => false

def checkPriorityChange (role : ActorRole) (holder : PriorityHolder) (priority : Priority)
    (setBy : PriorityBy) : Except DomainError Unit :=
  require (setBy != .human || changesPersonsPriority role)
    (.personsPriority holder priority role)

/-- Who creates a goal or a task, or sets a priority. -/
inductive Creator where
  | person
  | planner
  | draft
  | other
  deriving DecidableEq, Repr

def PriorityBy.of : Creator → PriorityBy
  | .person => .human
  | _ => .ai

/-- Who a role writes as, a draft the runtime registers apart. -/
def creatorOfActor : ActorRole → Creator
  | .user | .inbox => .person
  | .planner => .planner
  | _ => .other

/-- The priority of a new goal and who set it, a request's attached as a person's. -/
def goalPriorityAtCreation (creator : Creator) (request : Option (Nat × Priority))
    (given : Option Priority) : Except DomainError (Priority × PriorityBy) :=
  match request with
  | some (requestId, priority) =>
    match given with
    | some given =>
      if given ≠ priority then .error (.requestPriorityDiffers requestId priority given)
      else .ok (priority, .human)
    | none => .ok (priority, .human)
  | none => .ok (given.getD .normal, .of creator)

/-- The own priority of a new task and who set it. -/
def taskPriorityAtCreation (creator : Creator) (request : Option (Nat × Priority))
    (given : Option Priority) (goal : Option (Priority × PriorityBy)) :
    Except DomainError (Option Priority × Option PriorityBy) :=
  match request with
  | some (requestId, priority) =>
    match given.filter (· ≠ priority) with
    | some given => .error (.requestPriorityDiffers requestId priority given)
    | none =>
      if given.isNone && goal == some (priority, .human) then .ok (none, none)
      else .ok (some priority, some .human)
  | none => .ok (given, given.map fun _ => .of creator)

/-! ### A task and its moves -/

structure Task where
  id : Nat
  title : String
  status : TaskStatus
  goalId : Option Nat
  priority : Priority
  prioritySource : PrioritySource
  priorityBy : PriorityBy
  ownPriority : Option Priority
  ownPriorityBy : Option PriorityBy
  goalPriority : Option Priority
  goalPriorityBy : Option PriorityBy
  deriving DecidableEq, Repr

/-- The goal a task moves to, as the move reads it. -/
structure Destination where
  id : Nat
  priority : Priority
  priorityBy : PriorityBy
  deriving DecidableEq, Repr

/-- Who moves a task between goals. -/
inductive MovedBy where
  | person
  | ai
  | aiJudgedOutOfScope
  deriving DecidableEq, Repr

def MovedBy.of (role : ActorRole) : MovedBy :=
  if changesPersonsPriority role then .person else .ai

/-- Who a role moves a follow-up as when it judges it out of its goal's scope. -/
def MovedBy.judgedOutOfScope (role : ActorRole) : MovedBy :=
  match MovedBy.of role with
  | .person => .person
  | _ => .aiJudgedOutOfScope

namespace Task

/-- A stored task as it was saved. -/
def restore (id : Nat) (title : String) (status : TaskStatus) (goalId : Option Nat)
    (own goalPriority : Option Priority) : Except DomainError Task := do
  require (0 < id) (.nonPositiveId "task ID")
  require (!isBlank title) (.blank "task title")
  require (goalId.all (0 < ·)) (.nonPositiveId "goal ID")
  .ok
    { id
      title
      status
      goalId
      priority := (basePriority own goalPriority).1
      prioritySource := (basePriority own goalPriority).2
      priorityBy := .effective own none none
      ownPriority := own
      ownPriorityBy := none
      goalPriority
      goalPriorityBy := none }

/-- The task with what the queue records beside it. -/
def withRecord (task : Task) (ownBy goalBy : Option PriorityBy) : Task :=
  { task with
    ownPriorityBy := task.ownPriority.bind fun _ => ownBy
    goalPriorityBy := task.goalPriority.bind fun _ => goalBy
    priorityBy := .effective task.ownPriority ownBy goalBy }

/-- The person's priority the task takes from its goal, none where the new goal has the same. -/
def personsPriorityTakenFromGoal (task : Task) (destination : Option Destination) :
    Option Priority :=
  let inheritsTheSame := task.ownPriority.isSome || task.priorityBy != .human ||
    destination.any fun goal => (goal.priority, goal.priorityBy) == (task.priority, .human)
  if inheritsTheSame then none else some task.priority

/-- The priority the move keeps as the task's own and a person's. -/
def priorityKeptOnMove (task : Task) (destination : Option Destination) (movedBy : MovedBy) :
    Option Priority :=
  if movedBy = .ai then task.personsPriorityTakenFromGoal destination else none

/-- The person's priority the move lets go of. -/
def personsPriorityDroppedOnMove (task : Task) (destination : Option Destination)
    (movedBy : MovedBy) : Option Priority :=
  if movedBy = .aiJudgedOutOfScope then task.personsPriorityTakenFromGoal destination else none

/-- The task with the own priority the move keeps. -/
def keep (task : Task) (kept : Option Priority) : Task :=
  match kept with
  | some kept => { task with ownPriority := some kept, ownPriorityBy := some .human }
  | none => task

/-- The task in the goal, or in none, and what it takes from there. -/
def join (task : Task) (destination : Option Destination) : Task :=
  let goalPriority := destination.map Destination.priority
  let goalPriorityBy := destination.map Destination.priorityBy
  { task with
    goalId := destination.map Destination.id
    goalPriority
    goalPriorityBy
    priority := (basePriority task.ownPriority goalPriority).1
    prioritySource := (basePriority task.ownPriority goalPriority).2
    priorityBy := .effective task.ownPriority task.ownPriorityBy goalPriorityBy }

/-- Move the task to the goal, or out of any goal. -/
def setGoal (task : Task) (destination : Option Destination) (movedBy : MovedBy) :
    Except DomainError Task := do
  require task.status.dependenciesEditable (.taskNotEditable "the goal")
  if task.goalId = destination.map Destination.id then .ok task
  else .ok ((task.keep (task.priorityKeptOnMove destination movedBy)).join destination)

/-- Give the task a priority of its own, or with none its goal's again. -/
def setPriority (task : Task) (priority : Option Priority) : Except DomainError Task := do
  require task.status.priorityEditable (.taskPriorityNotEditable task.id task.status)
  .ok
    { task with
      ownPriority := priority
      priority := (basePriority priority task.goalPriority).1
      prioritySource := (basePriority priority task.goalPriority).2 }

/-- Whether the task depends on the goal it joins, at once or through others. -/
def checkMembershipAcyclic (task : Task) (goalId : Nat) (dependsOnGoal createsCycle : Bool) :
    Except DomainError Unit := do
  require (!dependsOnGoal) (.ownGoalDependency goalId)
  require (!createsCycle) (.goalMembershipCycle task.id goalId)

/-- Replace the title of the task. -/
def edit (task : Task) (title : String) : Except DomainError Task := do
  require (!isBlank title) (.blank "task title")
  require task.status.contentEditable (.taskContentNotEditable task.id task.status)
  .ok { task with title }

end Task

/-! ### A goal -/

structure Goal where
  id : Nat
  title : String
  priority : Priority
  priorityBy : PriorityBy
  tags : List String
  closedAt : Option String
  verdict : Option GoalVerdict
  deriving DecidableEq, Repr

/-- What an edit of a goal replaces. -/
structure GoalEdit where
  title : Option String
  priority : Option Priority
  tags : Option (List String)
  deriving DecidableEq, Repr

/-- The first tag given a second time, the tags before it already seen. -/
def repeatedTag : List String → List String → Option String
  | _, [] => none
  | seen, tag :: rest => if tag ∈ seen then some tag else repeatedTag (seen ++ [tag]) rest

def checkDistinct (tags : List String) : Except DomainError Unit :=
  match repeatedTag [] tags with
  | some tag => .error (.goalTagRepeated tag)
  | none => .ok ()

namespace Goal

def isClosed (goal : Goal) : Bool := goal.closedAt.isSome

/-- A stored goal as it was saved. -/
def restore (goal : Goal) : Except DomainError Goal := do
  require (0 < goal.id) (.nonPositiveId "goal ID")
  require (!isBlank goal.title) (.blank "goal title")
  checkDistinct goal.tags
  require (goal.closedAt.isSome == goal.verdict.isSome) (.goalCloseInconsistent goal.id)
  .ok goal

def checkAcceptsTasks (goal : Goal) : Except DomainError Unit :=
  require (!goal.isClosed) (.goalClosed goal.id goal.verdict)

def editPriority (goal : Goal) : Option Priority → Except DomainError Goal
  | some priority => do
    goal.checkAcceptsTasks
    .ok { goal with priority }
  | none => .ok goal

def editTags (goal : Goal) : Option (List String) → Except DomainError Goal
  | some tags => do
    checkDistinct tags
    .ok { goal with tags }
  | none => .ok goal

def editTitle (goal : Goal) : Option String → Except DomainError Goal
  | some title => do
    require (!isBlank title) (.blank "goal title")
    .ok { goal with title }
  | none => .ok goal

/-- The goal with what the edit replaces. The priority changes only while the goal is not
closed. -/
def edit (goal : Goal) (change : GoalEdit) : Except DomainError Goal := do
  let prioritized ← goal.editPriority change.priority
  let tagged ← prioritized.editTags change.tags
  tagged.editTitle change.title

end Goal

def Destination.of (goal : Goal) : Destination := ⟨goal.id, goal.priority, goal.priorityBy⟩

end Dagq.Priorities
