/-
This file models the writes of the queue: each reads the rows it is about, is refused, or changes
them and records what it did. An apply is one write, which replaces a task, moves what waited for
it onto the children and makes them ready. What a claim takes is what the supervisor asks for,
else the first of the graph's order.
-/

import Dagq.Queue.Store

namespace Dagq.Queue

open Dagq.Lib Dagq.Ledger Dagq.Priorities Dagq.Runs
open Dagq.Replan (WaitNode ReplacementPlan PlannedOperation PlanRevision PlanTask PlanContext
  PlanProblem PlanMapping PlanSuccessor DeletionAuthority ProposalStatus ApplyState Acceptance
  checkPlan closesLoop successorEdges applyProblems)

namespace QueueStore

section Writes

variable (clock : Nat → String) (reads : QueueReads)

/-! ### Goals -/

def setGoalRow (store : QueueStore) (goal : QueueGoal) : QueueStore :=
  { store with goals := store.goals.set goal }

/-- Register a goal, open or a draft. -/
def addGoal (store : QueueStore) (draft : Bool) : Except QueueError QueueStore := do
  let id := store.goals.nextKey
  let status := if draft then GoalStatus.draft else .open_
  require (decide ((id : Int) ≤ i64Max)) .idsExhausted
  .ok ({ store with goals := store.goals.add ⟨id, status, none, none, rfl⟩ }.record clock
    (.goalCreated id status))

/-- Open a draft, so that its tasks become candidates. -/
def readyGoal (store : QueueStore) (id : Nat) : Except QueueError QueueStore := do
  let goal ← store.readGoal id
  require (!goal.isClosed) (.goalAlreadyClosed id goal.verdict)
  require (goal.status == .draft) (.goalNotDraft id)
  .ok ((store.setGoalRow { goal with status := .open_ }).record clock
    (.goalStatusChanged id goal.status .open_))

/-- The tasks that hold the goal back, of a status. -/
def holding (store : QueueStore) (goal : Nat) (status : TaskStatus) : Nat :=
  (store.tasks.items.countP fun task => task.goalId == some goal && task.status == status) +
    (store.goalReplacing goal).countP fun task => task.status == status

/-- The statuses that do not allow the verdict, with how many tasks have them. -/
def blocking (store : QueueStore) (goal : Nat) (verdict : GoalVerdict) : List (TaskStatus × Nat) :=
  ([TaskStatus.draft, .submitted, .ready, .inProgress].map fun status =>
    (status, store.holding goal status)).filter fun held => 0 < held.2 && !allows verdict held.1

def closeGoal (store : QueueStore) (id : Nat) (verdict : GoalVerdict) :
    Except QueueError QueueStore := do
  let goal ← store.readGoal id
  require (!goal.isClosed) (.goalAlreadyClosed id goal.verdict)
  require (store.blocking id verdict).isEmpty
    (.goalCloseBlocked id verdict (store.blocking id verdict))
  require (verdict != .achieved || reads.settled id) (.goalFollowUpsUnsettled id)
  require (verdict != .achieved || store.goalUnresolved id == some [])
    (.goalReplacementsUnresolved id)
  let closed : QueueGoal :=
    { goal with closedAt := some reads.now, verdict := some verdict, consistent := rfl }
  .ok ((store.setGoalRow closed).record clock (.goalClosed id verdict))

/-- Open a goal closed as achieved again. -/
def reopenGoal (store : QueueStore) (id : Nat) : Except QueueError QueueStore := do
  let goal ← store.readGoal id
  require (goal.verdict == some .achieved) (.goalNotReopenable id goal.verdict)
  let reopened : QueueGoal :=
    { goal with status := .open_, closedAt := none, verdict := none, consistent := rfl }
  .ok ((store.setGoalRow reopened).record clock (.goalReopened id))

/-! ### Dependencies -/

def checkStep (task : Nat) : Except QueueError Unit := require (reads.mayStep task) (.guarded task)

def checkEditable (task : QueueTask) (what : String) : Except QueueError Unit :=
  require task.status.dependenciesEditable (.taskNotEditable what)

def insertDependency (store : QueueStore) (taskId predecessor : Nat) :
    Except QueueError QueueStore := do
  require (decide (taskId ≠ predecessor)) .selfDependency
  checkStep reads taskId
  checkStep reads predecessor
  let task ← store.readTask taskId
  checkEditable task "dependencies"
  let waitedFor ← store.readTask predecessor
  require (waitedFor.status != .replaced) (.replacedDependency taskId predecessor)
  require (!store.waitsFor (.task predecessor) (.task taskId)) (.dependencyCycle taskId predecessor)
  if (taskId, predecessor) ∈ store.dependencies.items then .ok store
  else .ok ({ store with dependencies := store.dependencies.add (taskId, predecessor) }.record clock
    (.dependencyAdded taskId predecessor))

def removeDependency (store : QueueStore) (taskId predecessor : Nat) :
    Except QueueError QueueStore := do
  checkStep reads taskId
  checkStep reads predecessor
  let task ← store.readTask taskId
  checkEditable task "dependencies"
  require (decide ((taskId, predecessor) ∈ store.dependencies.items))
    (.noDependency taskId predecessor)
  .ok ({ store with
    dependencies := store.dependencies.keep (· ≠ (taskId, predecessor)) }.record clock
      (.dependencyRemoved taskId predecessor))

def insertGoalDependency (store : QueueStore) (taskId goalId : Nat) :
    Except QueueError QueueStore := do
  let task ← store.readTask taskId
  checkEditable task "dependencies"
  let goal ← store.readGoal goalId
  require (goal.verdict != some .abandoned) (.abandonedGoalDependency goalId)
  require (task.goalId != some goalId) (.ownGoalDependency goalId)
  require (!store.waitsFor (.goal goalId) (.task taskId)) (.goalDependencyCycle taskId goalId)
  if (taskId, goalId) ∈ store.goalDependencies.items then .ok store
  else .ok ({ store with goalDependencies := store.goalDependencies.add (taskId, goalId) }.record
    clock (.goalDependencyAdded taskId goalId))

def addGoalDependency (store : QueueStore) (taskId goalId : Nat) : Except QueueError QueueStore := do
  checkStep reads taskId
  store.insertGoalDependency clock taskId goalId

def removeGoalDependency (store : QueueStore) (taskId goalId : Nat) :
    Except QueueError QueueStore := do
  checkStep reads taskId
  let task ← store.readTask taskId
  checkEditable task "dependencies"
  require (decide ((taskId, goalId) ∈ store.goalDependencies.items))
    (.noGoalDependency taskId goalId)
  .ok ({ store with
    goalDependencies := store.goalDependencies.keep (· ≠ (taskId, goalId)) }.record clock
      (.goalDependencyRemoved taskId goalId))

/-! ### Tasks -/

def setTaskRow (store : QueueStore) (task : QueueTask) : QueueStore :=
  { store with tasks := store.tasks.set task }

/-- A goal named is there and takes tasks. -/
def checkAccepts (store : QueueStore) : Option Nat → Except QueueError Unit
  | some id => do
    let goal ← store.readGoal id
    require (!goal.isClosed) (.goalClosed id goal.verdict)
  | none => .ok ()

/-- Register a task as a draft, with what it waits for. -/
def insertTask (store : QueueStore) (goal : Option Nat) (dependencies goalDependencies : List Nat) :
    Except QueueError QueueStore := do
  store.checkAccepts goal
  let id := store.tasks.nextKey
  require (decide ((id : Int) ≤ i64Max)) .idsExhausted
  let added := { store with tasks := store.tasks.add ⟨id, .draft, goal⟩ }.record clock
    (.taskCreated id goal .draft)
  let dependent ← dependencies.foldlM
    (fun store predecessor => store.insertDependency clock reads id predecessor) added
  goalDependencies.foldlM (fun store goal => store.insertGoalDependency clock id goal) dependent

/-- Whether the task waits for the goal it joins, at once or through others. -/
def checkMembershipAcyclic (store : QueueStore) (task goal : Nat) : Except QueueError Unit := do
  require (decide ((task, goal) ∉ store.goalDependencies.items)) (.ownGoalDependency goal)
  require (!store.waitsFor (.task task) (.goal goal)) (.goalMembershipCycle task goal)

/-- Move the task to the goal, or out of any goal. -/
def setGoal (store : QueueStore) (taskId : Nat) (goal : Option Nat) : Except QueueError QueueStore := do
  checkStep reads taskId
  let task ← store.readTask taskId
  checkEditable task "the goal"
  store.checkAccepts goal
  if task.goalId = goal then .ok store
  else do
    goal.forM fun id => store.checkMembershipAcyclic taskId id
    .ok ((store.setTaskRow { task with goalId := goal }).record clock
      (.taskGoalChanged taskId task.goalId goal))

/-- Whether the action makes a task ready. -/
def readies : TaskAction → Bool
  | .ready | .bypassReview | .approve => true
  | _ => false

def moveStatus (task : QueueTask) (action : TaskAction) : Except QueueError TaskStatus :=
  (task.status.transition action (reads.unfinishedRun task.id)).mapError .transition

/-- Move the task as the action does. -/
def applyTransition (store : QueueStore) (taskId : Nat) (action : TaskAction) :
    Except QueueError QueueStore := do
  checkStep reads taskId
  require (!readies action || !reads.childWaits taskId) (.childWaitsForApply taskId)
  let task ← store.readTask taskId
  require (action != .bypassReview || reads.judged taskId) (.unjudged taskId)
  let status ← moveStatus reads task action
  let moved := (store.setTaskRow { task with status }).record clock
    (.taskStatusChanged taskId task.status status)
  if action = .bypassReview then .ok (moved.record clock (.other (some taskId) none "review_bypassed"))
  else .ok moved

/-! ### Runs -/

/-- The task a claim takes: the first of the order asked for that is a candidate, else the first of
the graph's order that waits for no build. -/
def chosen (ready : List QueueTask) : Option QueueTask :=
  let position := fun id => ready.find? (·.id == id)
  match reads.order.findSome? position with
  | some task => some task
  | none =>
    match reads.claimOrder.findSome? fun id =>
        ready.find? fun task => task.id == id && !reads.waitsForBuild task.id with
    | some task => some task
    | none => ready.find? fun task => !reads.waitsForBuild task.id

/-- Take a candidate for a new run. -/
def claim (store : QueueStore) : Except QueueError QueueStore :=
  match chosen reads ((store.readyTasks reads).filter fun task => reads.mayTake task.id) with
  | none => .error .noReadyTask
  | some task => do
    require (task.status == .ready) (.taskNotClaimable task.id task.status)
    .ok ((store.setTaskRow { task with status := .inProgress }).record clock
      (.runClaimed task.id (taskReadyAt task.id store.events)))

/-- End the task of a run in progress in another status. -/
def endTask (store : QueueStore) (taskId : Nat) (status : TaskStatus) :
    Except QueueError QueueStore := do
  let task ← store.readTask taskId
  require (task.status == .inProgress) (.notInProgress taskId)
  .ok ((store.setTaskRow { task with status }).record clock
    (.taskStatusChanged taskId .inProgress status))

def completeTask (store : QueueStore) (taskId : Nat) : Except QueueError QueueStore :=
  store.endTask clock taskId .completed

end Writes

/-! ### An apply -/

/-- What a child or a task of a plan says beside its row. -/
structure TaskTexts where
  acceptance : Acceptance
  verify : List String
  paths : List String
  evidence : List String

/-- What an apply reads of the operation, of its proposal and of the asks. -/
structure ApplyReads where
  operation : PlannedOperation
  generation : Int
  revision : Option PlanRevision
  proposal : Option ProposalStatus
  members : List Nat
  run : RunStatus
  runLeased : Bool
  versionOf : Nat → String
  approvedChildren : Option (Ordered Nat String)
  texts : Nat → TaskTexts
  taskVersionNow : String
  goalAcceptanceVersionNow : Option Int
  authorities : Ordered Nat DeletionAuthority

/-- A task of a plan as the check reads it. -/
def planTask (store : QueueStore) (texts : Nat → TaskTexts) (id : Nat) : Option PlanTask :=
  (store.tasks.get? id).map fun task =>
    { status := task.status
      goalId := task.goalId
      acceptance := (texts id).acceptance
      verify := (texts id).verify
      paths := (texts id).paths
      evidence := (texts id).evidence
      dependsOn := ((store.dependencies.items.filter fun edge => edge.1 = id).map
        Prod.snd).insertionSort (· ≤ ·) }

/-- The tasks a plan and its operation name. -/
def namedByPlan (reads : ApplyReads) (plan : ReplacementPlan) : List Nat :=
  plan.childIds ++ reads.members ++ plan.successors.map PlanSuccessor.taskId ++
    reads.operation.conditions.successors ++ reads.operation.conditions.predecessors ++
    plan.mappings.filterMap PlanMapping.landedTaskId

/-- The tasks that wait for the task, directly or through other tasks. -/
def downstream (store : QueueStore) (task : Nat) : List Nat :=
  let waiting := (store.dependencies.items.filter fun edge => edge.2 = task).map Prod.fst
  let dependents := tableOf (store.dependencies.items.map Prod.swap)
  (store.dependencies.items.map Prod.fst).dedup.filter fun other =>
    comesTo dependents other waiting []

def planContext (store : QueueStore) (reads : ApplyReads) (plan : ReplacementPlan) : PlanContext where
  operation := reads.operation
  taskVersionNow := reads.taskVersionNow
  goalAcceptanceVersionNow := reads.goalAcceptanceVersionNow
  members := reads.members
  tasks := (namedByPlan reads plan).foldl
    (fun tasks id => (store.planTask reads.texts id).elim tasks (tasks.insert id)) Ordered.empty
  downstream := store.downstream reads.operation.taskId
  authorities := reads.authorities

/-- What an apply would have wait for the children: the task's successors and the task itself. -/
def applyEdges (store : QueueStore) (task : Nat) (plan : ReplacementPlan) : List (Nat × List Nat) :=
  successorEdges plan ((store.successorsNow task).entries.map Prod.fst) ++ [(task, plan.childIds)]

/-- A loop that the apply would close through tasks and goals. -/
def loopProblems (store : QueueStore) (task : Nat) (plan : ReplacementPlan) : List PlanProblem :=
  match closesLoop (store.waitGraph task) (store.applyEdges task plan) with
  | some looped => [⟨.dependencyCycle, some looped,
      s!"task {looped} would wait for itself, through the tasks and goals it waits for, once the successors of task {task} wait for the children"⟩]
  | none => []

/-- The problems of the plan now, and a loop it would close. -/
def checkReplacement (store : QueueStore) (reads : ApplyReads) (plan : ReplacementPlan) :
    List PlanProblem :=
  checkPlan plan (store.planContext reads plan) ++
    store.loopProblems reads.operation.taskId plan

/-- The statuses of the children, each of which has to be there. -/
def readChildren (store : QueueStore) (children : List Nat) :
    Except QueueError (Ordered Nat TaskStatus) :=
  children.foldlM (fun statuses child => do
    let task ← store.readTask child
    .ok (statuses.insert child task.status)) Ordered.empty

def applyState (store : QueueStore) (reads : ApplyReads) : Except QueueError ApplyState := do
  let task ← store.readTask reads.operation.taskId
  let checked := reads.proposal.bind fun _ => reads.revision
  let children := (checked.map fun revision => revision.plan.childIds).getD []
  let statuses ← store.readChildren children
  .ok
    { operation := reads.operation.toReplanOperation
      generation := reads.generation
      plan := reads.revision
      proposal := reads.proposal
      task := task.status
      run := reads.run
      runLeased := reads.runLeased
      children := statuses
      childVersions := children.foldl
        (fun versions child => versions.insert child (reads.versionOf child)) Ordered.empty
      approvedChildren := checked.bind fun _ => reads.approvedChildren
      successors := store.successorsNow reads.operation.taskId
      planProblems := (checked.map fun revision =>
        store.checkReplacement reads revision.plan).getD [] }

/-- Have a successor wait for others in the task's place. -/
def repoint (task : Nat) (dependencies : Edges) (successor : Nat × List Nat) : Edges :=
  successor.2.foldl (fun dependencies need => dependencies.add (successor.1, need))
    (dependencies.keep (· ≠ (successor.1, task)))

/-- Write the whole replacement. -/
def writeReplacement (clock : Nat → String) (reads : QueueReads) (store : QueueStore) (task : Nat)
    (plan : ReplacementPlan) : Except QueueError QueueStore := do
  let children := plan.childIds
  let ended ← store.endTask clock task .replaced
  let replaced :=
    { ended with replacements := ended.replacements ++ children.map fun child => (task, child) }
  let edges := successorEdges plan ((replaced.successorsNow task).entries.map Prod.fst)
  let repointed :=
    { replaced with dependencies := edges.foldl (repoint task) replaced.dependencies }
  let approved ← children.foldlM
    (fun store child => store.applyTransition clock reads child .approve) repointed
  .ok (approved.record clock (.replanApplied task children edges))

/-- Apply the replacement of an operation, or refuse it whole. -/
def applyReplacement (clock : Nat → String) (reads : QueueReads) (store : QueueStore)
    (apply : ApplyReads) : Except QueueError QueueStore := do
  let state ← store.applyState apply
  require (applyProblems state).isEmpty (.applyRefused (applyProblems state))
  match apply.revision with
  | none => .error (.applyRefused [])
  | some revision =>
    store.writeReplacement clock reads apply.operation.taskId revision.plan

/-! ### Steps -/

inductive QueueWrite where
  | addGoal (draft : Bool)
  | readyGoal (goal : Nat)
  | closeGoal (goal : Nat) (verdict : GoalVerdict)
  | reopenGoal (goal : Nat)
  | addTask (goal : Option Nat) (dependencies goalDependencies : List Nat)
  | addDependency (task predecessor : Nat)
  | removeDependency (task predecessor : Nat)
  | addGoalDependency (task goal : Nat)
  | removeGoalDependency (task goal : Nat)
  | setGoal (task : Nat) (goal : Option Nat)
  | transition (task : Nat) (action : TaskAction)
  | claim
  | complete (task : Nat)
  | apply (apply : ApplyReads)
  /-- Any other write that records an event. -/
  | note (task goal : Option Nat) (name : String)

def write (clock : Nat → String) (reads : QueueReads) (store : QueueStore) :
    QueueWrite → Except QueueError QueueStore
  | .addGoal draft => store.addGoal clock draft
  | .readyGoal goal => store.readyGoal clock goal
  | .closeGoal goal verdict => store.closeGoal clock reads goal verdict
  | .reopenGoal goal => store.reopenGoal clock goal
  | .addTask goal dependencies goalDependencies =>
    store.insertTask clock reads goal dependencies goalDependencies
  | .addDependency task predecessor => store.insertDependency clock reads task predecessor
  | .removeDependency task predecessor => store.removeDependency clock reads task predecessor
  | .addGoalDependency task goal => store.addGoalDependency clock reads task goal
  | .removeGoalDependency task goal => store.removeGoalDependency clock reads task goal
  | .setGoal task goal => store.setGoal clock reads task goal
  | .transition task action => store.applyTransition clock reads task action
  | .claim => store.claim clock reads
  | .complete task => store.completeTask clock task
  | .apply apply => store.applyReplacement clock reads apply
  | .note task goal name => .ok (store.record clock (.other task goal name))

/-- A write goes through whatever it reads of the tables left out, or is refused and changes
nothing. -/
inductive QueueStep (clock : Nat → String) : QueueStore → QueueStore → Prop
  | done {before after : QueueStore} (reads : QueueReads) (write : QueueWrite)
      (written : before.write clock reads write = .ok after) : QueueStep clock before after
  | refused {before : QueueStore} (reads : QueueReads) (write : QueueWrite) (error : QueueError)
      (refusal : before.write clock reads write = .error error) : QueueStep clock before before

end QueueStore

end Dagq.Queue
