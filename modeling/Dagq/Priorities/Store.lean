/-
This file models what the queue records of priorities, the rows of the tasks
and of the goals, and the writes on them: each reads the rows it is about, is
refused, or changes them. What a write reads of the tables left out is an input
of it, which may be anything at each write.
-/

import Dagq.Lib.Keyed
import Dagq.Priorities.Task

namespace Dagq.Priorities

open Dagq.Lib Dagq.Queue

/-! ### Rows -/

structure TaskRow where
  id : Nat
  title : String
  status : TaskStatus
  goalId : Option Nat
  priority : Option Priority
  priorityBy : Option PriorityBy
  deriving DecidableEq, Repr

structure PriorityStore where
  tasks : Keyed TaskRow.id
  goals : Keyed Goal.id

namespace PriorityStore

def empty : PriorityStore := ⟨Keyed.empty, Keyed.empty⟩

/-- The goal row of a task, where it has one. -/
def goalOf (store : PriorityStore) (row : TaskRow) : Option Goal := row.goalId.bind store.goals.get?

def readRow (store : PriorityStore) (id : Nat) : Except DomainError TaskRow :=
  match store.tasks.get? id with
  | some row => .ok row
  | none => .error (.notFound (s!"task {id} does not exist"))

/-- The task of a row, what it takes from its goal read with it. -/
def restoreTask (store : PriorityStore) (row : TaskRow) : Except DomainError Task := do
  let task ← Task.restore row.id row.title row.status row.goalId row.priority
    ((store.goalOf row).map Goal.priority)
  .ok (task.withRecord row.priorityBy ((store.goalOf row).map Goal.priorityBy))

def readTask (store : PriorityStore) (id : Nat) : Except DomainError Task := do
  let row ← store.readRow id
  store.restoreTask row

def readGoal (store : PriorityStore) (id : Nat) : Except DomainError Goal :=
  match store.goals.get? id with
  | some goal => goal.restore
  | none => .error (.notFound (s!"goal {id} does not exist"))

def readGoals (store : PriorityStore) : Option Nat → Except DomainError (Option Goal)
  | some id => do
    let goal ← store.readGoal id
    .ok (some goal)
  | none => .ok none

/-! ### Writes -/

def setRow (store : PriorityStore) (row : TaskRow) : PriorityStore :=
  { store with tasks := store.tasks.set row }

/-- The checks of the goal a task moves to. -/
def checkMembership (task : Task) (movedFrom : Option Nat) (goal : Option Goal)
    (dependsOnGoal createsCycle : Bool) : Except DomainError Unit :=
  match goal with
  | none => .ok ()
  | some goal => do
    goal.checkAcceptsTasks
    if movedFrom = some goal.id then .ok ()
    else task.checkMembershipAcyclic goal.id dependsOnGoal createsCycle

/-- The row of a moved task: the priority it keeps and its goal, a setter written with a
changed priority alone. -/
def movedRow (row : TaskRow) (task : Task) : TaskRow :=
  { row with
    goalId := task.goalId
    priority := task.ownPriority
    priorityBy :=
      if row.priority ≠ task.ownPriority then task.ownPriorityBy else row.priorityBy }

/-- Move the task to the goal, or out of any goal. -/
def setGoalIn (store : PriorityStore) (taskId : Nat) (goalId : Option Nat) (movedBy : MovedBy)
    (dependsOnGoal createsCycle : Bool) : Except DomainError PriorityStore := do
  let row ← store.readRow taskId
  let task ← store.restoreTask row
  let goal ← store.readGoals goalId
  let moved ← task.setGoal (goal.map Destination.of) movedBy
  checkMembership moved task.goalId goal dependsOnGoal createsCycle
  .ok (store.setRow (movedRow row moved))

/-- Give the task a priority of its own, or with none its goal's again. -/
def changePriority (store : PriorityStore) (role : ActorRole) (taskId : Nat)
    (priority : Option Priority) : Except DomainError PriorityStore := do
  let row ← store.readRow taskId
  let task ← store.restoreTask row
  let changed ← task.setPriority priority
  if task.ownPriority = changed.ownPriority then .ok store
  else do
    checkPriorityChange role (.task taskId) task.priority task.priorityBy
    .ok (store.setRow
      { row with
        priority := changed.ownPriority
        priorityBy := changed.ownPriority.map fun _ => .of (creatorOfActor role) })

/-- Who set the priority of an edited goal. -/
def editedBy (role : ActorRole) (old : Goal) (priority : Option Priority) :
    Except DomainError PriorityBy :=
  match priority with
  | some priority =>
    if priority ≠ old.priority then do
      checkPriorityChange role (.goal old.id) old.priority old.priorityBy
      .ok (.of (creatorOfActor role))
    else .ok old.priorityBy
  | none => .ok old.priorityBy

def editGoal (store : PriorityStore) (role : ActorRole) (goalId : Nat) (change : GoalEdit) :
    Except DomainError PriorityStore := do
  let old ← store.readGoal goalId
  let priorityBy ← editedBy role old change.priority
  let edited ← old.edit change
  .ok { store with goals := store.goals.set { edited with priorityBy } }

/-- Register a goal, the priority a person gave its request attached. -/
def addGoal (store : PriorityStore) (creator : Creator) (request : Option (Nat × Priority))
    (title : String) (priority : Option Priority) (tags : List String) :
    Except DomainError PriorityStore := do
  let set ← goalPriorityAtCreation creator request priority
  require (!isBlank title) (.blank "goal title")
  checkDistinct tags
  .ok { store with
    goals := store.goals.add
      { id := store.goals.nextKey
        title
        priority := set.1
        priorityBy := set.2
        tags
        closedAt := none
        verdict := none } }

def checkAccepts : Option Goal → Except DomainError Unit
  | some goal => goal.checkAcceptsTasks
  | none => .ok ()

/-- Register a task in the goal, or in none. -/
def insertTask (store : PriorityStore) (creator : Creator) (request : Option (Nat × Priority))
    (title : String) (goalId : Option Nat) (priority : Option Priority) :
    Except DomainError PriorityStore := do
  let goal ← store.readGoals goalId
  checkAccepts goal
  let set ← taskPriorityAtCreation creator request priority
    (goal.map fun goal => (goal.priority, goal.priorityBy))
  require (!isBlank title) (.blank "task title")
  .ok { store with
    tasks := store.tasks.add
      { id := store.tasks.nextKey
        title
        status := .draft
        goalId
        priority := set.1
        priorityBy := set.2 } }

def editTask (store : PriorityStore) (taskId : Nat) (title : String) :
    Except DomainError PriorityStore := do
  let row ← store.readRow taskId
  let task ← store.restoreTask row
  let edited ← task.edit title
  .ok (store.setRow { row with title := edited.title })

/-- Every other write of a task: it changes its status alone. -/
def setStatus (store : PriorityStore) (taskId : Nat) (status : TaskStatus) :
    Except DomainError PriorityStore := do
  let row ← store.readRow taskId
  .ok (store.setRow { row with status })

/-- Every other write of a goal: it closes or reopens it. -/
def setClosed (store : PriorityStore) (goalId : Nat) (closed : Option (String × GoalVerdict)) :
    Except DomainError PriorityStore := do
  let goal ← store.readGoal goalId
  .ok { store with
    goals := store.goals.set
      { goal with closedAt := closed.map Prod.fst, verdict := closed.map Prod.snd } }

/-! ### Operations of a role -/

inductive Operation where
  | setGoal (taskId : Nat) (goalId : Option Nat) (dependsOnGoal createsCycle : Bool)
  | setPriority (taskId : Nat) (priority : Option Priority)
  | editGoal (goalId : Nat) (change : GoalEdit)
  | addGoal (creator : Creator) (request : Option (Nat × Priority)) (title : String)
      (priority : Option Priority) (tags : List String)
  | addTask (creator : Creator) (request : Option (Nat × Priority)) (title : String)
      (goalId : Option Nat) (priority : Option Priority)
  | editTask (taskId : Nat) (title : String)
  | setStatus (taskId : Nat) (status : TaskStatus)
  | setClosed (goalId : Nat) (closed : Option (String × GoalVerdict))
  deriving DecidableEq, Repr

/-- What an operation of the role leaves, the task moved as its role moves one. -/
def apply (store : PriorityStore) (role : ActorRole) : Operation → Except DomainError PriorityStore
  | .setGoal taskId goalId dependsOnGoal createsCycle =>
    store.setGoalIn taskId goalId (.of role) dependsOnGoal createsCycle
  | .setPriority taskId priority => store.changePriority role taskId priority
  | .editGoal goalId change => store.editGoal role goalId change
  | .addGoal creator request title priority tags =>
    store.addGoal creator request title priority tags
  | .addTask creator request title goalId priority =>
    store.insertTask creator request title goalId priority
  | .editTask taskId title => store.editTask taskId title
  | .setStatus taskId status => store.setStatus taskId status
  | .setClosed goalId closed => store.setClosed goalId closed

/-- A step of an AI role: its operation goes through, or is refused and changes nothing. -/
inductive AiStep : PriorityStore → PriorityStore → Prop
  | done {before after : PriorityStore} (role : ActorRole) (operation : Operation)
      (isAi : changesPersonsPriority role = false)
      (applied : before.apply role operation = .ok after) : AiStep before after
  | refused {before : PriorityStore} (role : ActorRole) (operation : Operation)
      (error : DomainError) (isAi : changesPersonsPriority role = false)
      (refusal : before.apply role operation = .error error) : AiStep before before

end PriorityStore

end Dagq.Priorities
