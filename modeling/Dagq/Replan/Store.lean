/-
This file models the queue's record of the replanning operations and the writes
on it: the operations, the planning requests recorded for them, the planners
opened for a request, the runs of the tasks in the order they were claimed, and
the records each write leaves.

A write is one transaction: it reads the store, is refused, or gives the store
it leaves. What it reads of the tables left out (the holds, the premise of a
diagnosis, the children of a proposal) is an input of it, `Outside`, which may
be anything at each write.
-/

import Dagq.Lib.Keyed
import Dagq.Lib.Transition
import Dagq.Replan.Operation

namespace Dagq.Replan

open Dagq.Lib Dagq.Queue

/-! ### What is recorded -/

inductive RequestStatus where
  | opened
  | proposed
  | declined
  | exhausted
  deriving DecidableEq, Repr

inductive RequestRef where
  | ask (id : Nat)
  | task (id : Nat)
  | run (id : String)
  | event (id : Nat)
  | finding (id : Nat)
  | goal (id : Nat)
  deriving DecidableEq, Repr

structure PlanRequest where
  id : Nat
  text : String
  note : Option String
  refs : List RequestRef
  priority : Option Nat
  requestedBy : String
  requestedById : String
  status : RequestStatus
  statusReason : Option String
  replanOperation : Option Nat
  updatedAt : Int
  deriving DecidableEq, Repr

structure Planner where
  id : Nat
  requestId : Option Nat
  /-- Whether the runtime opened it. -/
  runtime : Bool
  /-- It was asked to exit, only a person's answer left. -/
  answerWait : Bool
  closed : Bool
  deriving DecidableEq, Repr

structure ClaimedRun where
  id : String
  taskId : Nat
  deriving DecidableEq, Repr

inductive ReplanRecord where
  | replanRequested (operation : Nat) (run : String) (origin : ReplanOrigin) (created : Bool)
      (status : ReplanStatus) (reason : String) (evidence : List Nat) (request : Option Nat)
  | replanStatusChanged (operation : Nat) (source target : ReplanStatus) (reason : String)
      (generation : Int) (snapshotId : Option String) (recorded declined renewed : Option Nat)
  | replanCarried (operation : Nat) (fromRun toRun : String) (generation : Int)
  | replanResolved (operation : Nat) (resolution : ReplanResolution)
      (blockedAt : Option ReplanStatus) (target : ReplanStatus) (generation : Int) (reason : String)
      (by_ byId : String)
  | requestRecorded (request : Nat) (requestedBy : String) (operation : Nat) (renews : Option Nat)
  | requestDeclined (request : Nat) (planner : Option Nat) (reason by_ : String)
      (operation : Option Nat) (outcome : Option ReplanStatus) (endedPlanner : Option Nat)
      (continueRun : Bool)
  | requestProposed (request proposal : Nat) (planner : Option Nat)
  | requestPlannerOpened (request planner attempt : Nat) (ask : Option Nat)
  | requestPlannerExhausted (request planners : Nat) (reason : String)
  deriving DecidableEq, Repr

structure ReplanStore where
  operations : Keyed ReplanOperation.id
  requests : Keyed PlanRequest.id
  planners : Keyed Planner.id
  /-- The runs, in the order they were claimed. -/
  runs : List ClaimedRun
  records : List ReplanRecord

/-- What a write reads of the tables left out. -/
structure Outside where
  /-- The hold open on a task. -/
  hold : Nat → Option Nat
  /-- Whether the premise of a diagnosis still holds for a move of the operation. -/
  premise : ReplanOperation → ReplanStatus → DiagnosisPremise → Except ReplanError Unit
  /-- The release of the children of a proposal. -/
  release : ReplanOperation → Nat → Except ReplanError Unit
  /-- The tasks of a proposal with their statuses. -/
  children : Nat → List (Nat × TaskStatus)
  taskStatus : Nat → TaskStatus
  goalOf : Nat → Option Nat
  /-- Whether a run landed or succeeded. -/
  runDone : String → Bool

namespace ReplanStore

def empty : ReplanStore := ⟨Keyed.empty, Keyed.empty, Keyed.empty, [], []⟩

/-! ### Reads -/

def readOperation (store : ReplanStore) (id : Nat) : Except ReplanError ReplanOperation :=
  match store.operations.get? id with
  | some op => .ok op
  | none => .error (.refused (s!"replan operation {id} does not exist"))

def readRequest (store : ReplanStore) (id : Nat) : Except ReplanError PlanRequest :=
  match store.requests.get? id with
  | some request => .ok request
  | none => .error (.refused (s!"request {id} does not exist"))

/-- Whether the operation is one of the task's open ones. -/
def isOpenOn (task : Nat) (op : ReplanOperation) : Bool := op.taskId == task && op.closedAt.isNone

/-- The open operations on a task, oldest first. -/
def openOperations (store : ReplanStore) (task : Nat) : List ReplanOperation :=
  store.operations.items.filter (isOpenOn task)

/-- The latest run of a task. -/
def latestRun (store : ReplanStore) (task : Nat) : Option String :=
  ((store.runs.filter fun run => run.taskId == task).map ClaimedRun.id).getLast?

/-- The runtime's open planners of a request, oldest first. -/
def openPlanners (store : ReplanStore) (request : Nat) : List Planner :=
  store.planners.items.filter fun planner =>
    planner.runtime && !planner.closed && planner.requestId == some request

def plannerOpen (store : ReplanStore) (request : Nat) : Bool := !(store.openPlanners request).isEmpty

/-- Whether the runtime declined the request as the operation closed undecided. -/
def declinedAtClose (store : ReplanStore) (request op : Nat) : Bool :=
  ((store.requests.get? request).any fun request => request.status == .declined) &&
    store.records.any fun record => match record with
      | .requestDeclined declined _ _ by_ operation _ _ _ =>
        declined == request && by_ == "runtime" && operation == some op
      | _ => false

/-- The operation that guards the task. -/
def guardOf (store : ReplanStore) (task : Nat) : Option ReplanOperation :=
  store.operations.items.find? fun op => op.taskId == task && op.status.guards

/-! ### Requests -/

def note (store : ReplanStore) (record : ReplanRecord) : ReplanStore :=
  { store with records := store.records ++ [record] }

def setOperation (store : ReplanStore) (op : ReplanOperation) : ReplanStore :=
  { store with operations := store.operations.set op }

def setRequest (store : ReplanStore) (request : PlanRequest) : ReplanStore :=
  { store with requests := store.requests.set request }

/-- Decline the open request of an operation that ended, by the runtime; whether it was. -/
def declineForOperation (store : ReplanStore) (request op : Nat) (outcome : ReplanStatus)
    (reason : String) (endedPlanner : Option Nat) (now : Int) :
    Except ReplanError (ReplanStore × Bool) := do
  let current ← store.readRequest request
  if current.status ≠ .opened then .ok (store, false)
  else
    let declined := store.setRequest
      { current with status := .declined, statusReason := some reason, updatedAt := now }
    .ok (declined.note (.requestDeclined request none reason "runtime" (some op) (some outcome)
      endedPlanner false), true)

def declineUndecided (store : ReplanStore) (request op : Nat) (outcome : ReplanStatus)
    (why : String) (now : Int) : Except ReplanError (ReplanStore × Bool) :=
  store.declineForOperation request op outcome
    (s!"replan operation {op} ended {outcome.asStr} with no planner of the runtime's open for it: " ++
      why) none now

/-- Decline the request of a planner that ended, its operation closed and no other planner open
for it. -/
def declineAfterPlanner (store : ReplanStore) (planner : Nat) (now : Int) :
    Except ReplanError ReplanStore :=
  match (store.planners.get? planner).bind Planner.requestId with
  | none => .ok store
  | some id => match store.requests.get? id with
    | none => .ok store
    | some request =>
      if request.status ≠ .opened then .ok store
      else match request.replanOperation.bind store.operations.get? with
        | none => .ok store
        | some op =>
          if !op.status.endsRequestUndecided (store.plannerOpen id) then .ok store
          else (store.declineForOperation id op.id op.status
            (s!"replan operation {op.id} ended {op.status.asStr} while planner {planner} of the " ++
              "runtime was open, and it ended without deciding the request: " ++
              op.statusReason.getD "") (some planner) now).map Prod.fst

/-- Record a request in place of one that ended. -/
def renewDeclined (store : ReplanStore) (ended op : Nat) (now : Int) :
    Except ReplanError (ReplanStore × Nat) := do
  let old ← store.readRequest ended
  let id := store.requests.nextKey
  let request : PlanRequest :=
    { old with
      id := id
      status := .opened
      statusReason := none
      replanOperation := some op
      updatedAt := now }
  let renewed := { store with requests := store.requests.add request }
  .ok (renewed.note (.requestRecorded id old.requestedBy op (some ended)), id)

/-- Record the planning request of an operation. -/
def recordRequest (store : ReplanStore) (op : ReplanOperation) (new : NewReplan)
    (byRole byId : String) (now : Int) : ReplanStore × Nat :=
  let id := store.requests.nextKey
  let refs := [RequestRef.run op.runId, .task op.taskId] ++ (op.goalId.map RequestRef.goal).toList ++
    new.evidence.map RequestRef.event
  let request : PlanRequest :=
    { id := id, text := new.reason, note := none, refs := refs, priority := none,
      requestedBy := byRole, requestedById := byId, status := .opened, statusReason := none,
      replanOperation := some op.id, updatedAt := now }
  let recorded := { store with requests := store.requests.add request }
  (recorded.note (.requestRecorded id byRole op.id none), id)

/-! ### A move -/

def checkNotHeld (outside : Outside) (op : ReplanOperation) : Except ReplanError Unit :=
  match outside.hold op.taskId with
  | some hold => .error (.replanDiagnosisHeld op.id op.taskId hold)
  | none => .ok ()

/-- The checks of a move beyond the operation's own: the hold and the premise of a diagnosis. -/
def checkDiagnosis (outside : Outside) (op : ReplanOperation) (step : ReplanMove) :
    Except ReplanError Unit :=
  match step.diagnosis.bind Diagnosis.premise with
  | some premise => do
    checkNotHeld outside op
    outside.premise op step.target premise
  | none => if step.target = .diagnosing then checkNotHeld outside op else .ok ()

/-- A move that needs the operation to be its task's only open one finds no other. -/
def checkAlone (store : ReplanStore) (op : ReplanOperation) (target : ReplanStatus) :
    Except ReplanError Unit :=
  if needsTaskAlone op.status target then
    match (store.openOperations op.taskId).find? fun other => other.id ≠ op.id with
    | some other =>
      .error (.refused (s!"replan operation {op.id} cannot move to {target.asStr}: task " ++
        s!"{op.taskId} has operation {other.id} open"))
    | none => .ok ()
  else .ok ()

/-- The evidence of a diagnosis joined to what the request named. -/
def mergedDiagnosis (diagnosis : Diagnosis) (made : Option Diagnosis) : Diagnosis :=
  match made with
  | none => diagnosis
  | some made =>
    let joined := made.evidence.foldl
      (fun evidence id => if evidence.contains id then evidence else evidence ++ [id])
      diagnosis.evidence
    { made with evidence := joined }

/-- The operation as a move leaves it. -/
def moved (op : ReplanOperation) (step : ReplanMove) (now : Int) : ReplanOperation :=
  { op with
    status := step.target
    statusReason := some step.reason
    generation := generationAfter op.status step.target op.generation
    returnPhase := if step.target = .blocked then some op.status else none
    snapshotId := step.snapshotId.or op.snapshotId
    diagnosis := mergedDiagnosis op.diagnosis step.diagnosis
    updatedAt := now
    closedAt := if step.target.isClosed then some now else none }

def releaseChildren (outside : Outside) (op : ReplanOperation) : Except ReplanError Unit :=
  match op.proposalId with
  | none => .ok ()
  | some proposal => outside.release op proposal

/-- A close that is no apply gives the children of the proposal back. -/
def releaseAtClose (outside : Outside) (op : ReplanOperation) (target : ReplanStatus) :
    Except ReplanError Unit :=
  if target.isClosed && target != .applied then releaseChildren outside op else .ok ()

/-- The request of an operation that a move closes with no planner open for it is declined. -/
def declineAtClose (store : ReplanStore) (op : ReplanOperation) (step : ReplanMove) (now : Int) :
    Except ReplanError (ReplanStore × Option Nat) :=
  match op.requestId with
  | none => .ok (store, none)
  | some request =>
    if step.target.endsRequestUndecided (store.plannerOpen request) then do
      let (declined, was) ← store.declineUndecided request op.id step.target step.reason now
      .ok (declined, if was then some request else none)
    else .ok (store, none)

/-- The request declined at a close is renewed by a move onto the planner. -/
def renewAtMove (store : ReplanStore) (op after : ReplanOperation) (step : ReplanMove) (now : Int) :
    Except ReplanError (ReplanStore × ReplanOperation × Option Nat) :=
  match op.requestId with
  | none => .ok (store, after, none)
  | some request =>
    if op.status.renewsRequest step.target true && store.declinedAtClose request op.id then do
      let (renewed, id) ← store.renewDeclined request op.id now
      let after := { after with requestId := some id }
      .ok (renewed.setOperation after, after, some id)
    else .ok (store, after, none)

/-- A diagnosis that fences an operation without a request records one. -/
def recordAtPause (store : ReplanStore) (op after : ReplanOperation) (step : ReplanMove)
    (now : Int) : ReplanStore × ReplanOperation × Option Nat :=
  match op.requestId, step.diagnosis with
  | none, some made =>
    if step.target = .pauseRequested then
      let new : NewReplan :=
        { run := op.runId
          reason := op.reason ++ "; diagnosed: " ++ made.summary.getD step.reason
          evidence := after.diagnosis.evidence }
      let (recorded, id) := store.recordRequest op new "supervisor" op.requestedById now
      let after := { after with requestId := some id }
      (recorded.setOperation after, after, some id)
    else (store, after, none)
  | _, _ => (store, after, none)

/-- Move operation `id`, read under `generation`, as `step` says; by the runtime's apply when
`apply`. -/
def moveInAs (outside : Outside) (store : ReplanStore) (id : Nat) (generation : Int)
    (step : ReplanMove) (now : Int) (apply : Bool) : Except ReplanError ReplanStore := do
  let op ← store.readOperation id
  checkMoveAs op generation step apply
  checkDiagnosis outside op step
  store.checkAlone op step.target
  let after := moved op step now
  let written := store.setOperation after
  releaseAtClose outside op step.target
  let (closed, declined) ← written.declineAtClose op step now
  let (renewed, after, renewal) ← closed.renewAtMove op after step now
  let (recorded, _, recording) := renewed.recordAtPause op after step now
  .ok (recorded.note (.replanStatusChanged id op.status step.target step.reason
    (generationAfter op.status step.target op.generation) step.snapshotId recording declined
    renewal))

/-! ### One open operation of a task -/

/-- Close the operations superseded by `kept`, each under the generation it was read at. -/
def supersede (outside : Outside) (store : ReplanStore) (older : List ReplanOperation)
    (reason : String) (now : Int) : Except ReplanError ReplanStore :=
  older.foldlM (fun store op => store.moveInAs outside op.id op.generation
    { target := .continuing, reason := reason } now false) store

/-- The carried operation's request names the new run beside the earlier one. -/
def referToRun (store : ReplanStore) (request : Option Nat) (run : String) (now : Int) :
    Except ReplanError ReplanStore :=
  match request with
  | none => .ok store
  | some id => do
    let request ← store.readRequest id
    if request.refs.contains (.run run) then .ok store
    else .ok (store.setRequest
      { request with refs := request.refs ++ [.run run], updatedAt := now })

/-- Keep one open operation on the task now that `run` is its latest run. -/
def carryOpenTo (outside : Outside) (store : ReplanStore) (task : Nat) (run : String) (now : Int) :
    Except ReplanError ReplanStore := do
  let opened := store.openOperations task
  let carry := carry opened run
  match carry.kept with
  | none => .ok store
  | some kept =>
    let closed ← store.supersede outside (opened.filter fun op => carry.superseded.contains op.id)
      (s!"superseded by replan operation {kept} of the task") now
    match carry.moved with
    | none => .ok closed
    | some (id, generation) => match opened.find? fun op => op.id = id with
      | none => .ok closed
      | some op =>
        let carried := closed.setOperation
          { op with runId := run, generation := generation, updatedAt := now }
        let referred ← carried.referToRun op.requestId run now
        .ok (referred.note (.replanCarried id op.runId run generation))

/-- A closed operation whose restore failed goes back to `blocked`, unless one guards the task. -/
def reopenBlocked (outside : Outside) (store : ReplanStore) (id : Nat) (generation : Int)
    (why : String) (now : Int) : Except ReplanError ReplanStore := do
  let op ← store.readOperation id
  let opened := store.openOperations op.taskId
  if opened.any fun other => other.status.guards then .ok store
  else
    let closed ← store.supersede outside (opened.filter fun other => other.id ≠ id)
      (s!"superseded by replan operation {id} of the task, held blocked again: {why}") now
    closed.moveInAs outside id generation { target := .blocked, reason := why } now false

/-! ### A person's writes -/

/-- Whether a run of the task takes an operation: one the task still waits on. -/
def checkReplannable (outside : Outside) (run : String) (task : Nat) (latest : Bool) :
    Except ReplanError Unit :=
  require (latest && outside.taskStatus task == .inProgress && !outside.runDone run)
    (.refused (s!"run {run} cannot be replanned"))

/-- Open a new operation on a run. -/
def openOperation (outside : Outside) (store : ReplanStore) (new : NewReplan) (task : Nat)
    (origin : ReplanOrigin) (byRole byId : String) (now : Int) : ReplanStore × ReplanOperation :=
  let op : ReplanOperation :=
    { id := store.operations.nextKey, taskId := task, runId := new.run,
      goalId := outside.goalOf task, origin := origin, status := .candidate, statusReason := none,
      generation := 1, returnPhase := none, reason := new.reason,
      diagnosis := { evidence := new.evidence }, snapshotId := none, requestId := none,
      proposalId := none, requestedBy := byRole, requestedById := byId, updatedAt := now,
      closedAt := none }
  ({ store with operations := store.operations.add op }, op)

/-- The operation a request on a run joins, or the new one, and whether it is new. -/
def joinOrOpen (outside : Outside) (store : ReplanStore) (new : NewReplan) (task : Nat)
    (latest : Bool) (origin : ReplanOrigin) (byRole byId : String) (now : Int) :
    Except ReplanError (ReplanStore × ReplanOperation × Bool) := do
  let opened := store.openOperations task
  match requestOn (current opened) new.run with
  | .join id =>
    let op ← store.readOperation id
    .ok (store, op, false)
  | .refuse id =>
    let onRun := ((opened.find? fun op => op.id = id).map ReplanOperation.runId).getD ""
    .error (.refused (s!"run {new.run} cannot be replanned: replan operation {id} of task " ++
      s!"{task} is open on run {onRun}"))
  | .open_ => do
    checkReplannable outside new.run task latest
    let (opened, op) := store.openOperation outside new task origin byRole byId now
    .ok (opened, op, true)

/-- A person's request records the operation's planning request, once. -/
def requestFor (store : ReplanStore) (op : ReplanOperation) (new : NewReplan)
    (origin : ReplanOrigin) (byRole byId : String) (now : Int) : ReplanStore × ReplanOperation :=
  if origin = .manual && op.requestId.isNone then
    let (recorded, request) := store.recordRequest op new byRole byId now
    let op := { op with requestId := some request, updatedAt := now }
    (recorded.setOperation op, op)
  else (store, op)

/-- A request on the task's latest run carries the task's open operation to it first. -/
def carryAtRequest (outside : Outside) (store : ReplanStore) (task : Nat) (run : String)
    (latest : Bool) (now : Int) : Except ReplanError ReplanStore :=
  if latest then store.carryOpenTo outside task run now else .ok store

/-- Record a request or a proposal of an operation on a run. -/
def recordReplan (outside : Outside) (store : ReplanStore) (new : NewReplan)
    (origin : ReplanOrigin) (byRole byId : String) (now : Int) :
    Except ReplanError ReplanStore := do
  new.validate
  match store.runs.find? fun run => run.id = new.run with
  | none => .error (.refused (s!"run {new.run} does not exist"))
  | some run =>
    let latest := store.latestRun run.taskId == some new.run
    let carried ← store.carryAtRequest outside run.taskId new.run latest now
    let (joined, op, created) ← carried.joinOrOpen outside new run.taskId latest origin byRole byId
      now
    let (requested, op) := joined.requestFor op new origin byRole byId now
    .ok (requested.note (.replanRequested op.id new.run origin created op.status new.reason
      new.evidence op.requestId))

/-- The request of an operation sent back to a planner is renewed when it ended. -/
def renewEnded (store : ReplanStore) (id : Nat) (before : Option Nat) (now : Int) :
    Except ReplanError ReplanStore := do
  let op ← store.readOperation id
  match op.requestId with
  | none => .ok store
  | some request =>
    if op.requestId = before then do
      let current ← store.readRequest request
      if current.status = .opened then .ok store
      else
        let (renewed, new) ← store.renewDeclined request id now
        .ok (renewed.setOperation { op with requestId := some new })
    else .ok store

/-- Send a blocked operation back to a planner. -/
def replanAgain (outside : Outside) (store : ReplanStore) (op : ReplanOperation) (reason : String)
    (now : Int) : Except ReplanError ReplanStore := do
  releaseChildren outside op
  let moved ← store.moveInAs outside op.id op.generation { target := .parked, reason := reason } now
    false
  moved.renewEnded op.id op.requestId now

/-- Resolve a blocked operation at a person's word, under a new generation. -/
def resolveReplan (outside : Outside) (store : ReplanStore) (resolve : ResolveReplan)
    (snapshotProblem : Option String) (byRole byId : String) (now : Int) :
    Except ReplanError ReplanStore := do
  require (!isBlank resolve.reason) (.blank "reason")
  let op ← store.readOperation resolve.operation
  let target ← resolveTo
    { operation := op
      generation := resolve.generation
      resolution := resolve.resolution
      children := (op.proposalId.map outside.children).getD []
      snapshotProblem := snapshotProblem }
  let generation := op.generation + 1
  let raised := { op with generation := generation, updatedAt := now }
  let reason := s!"{byRole} chose to {resolve.resolution.describe}: " ++
    resolve.reason
  let written := (store.setOperation raised).note (.replanResolved op.id resolve.resolution
    op.returnPhase target generation resolve.reason byRole byId)
  if target = .parked then written.replanAgain outside raised reason now
  else written.moveInAs outside op.id generation { target := target, reason := reason } now false

/-- Hold an operation blocked at its apply, or give the reason it is held for now. -/
def holdBlocked (outside : Outside) (store : ReplanStore) (op : ReplanOperation) (generation : Int)
    (reason : String) (now : Int) : Except ReplanError ReplanStore :=
  if op.status = .applying then
    store.moveInAs outside op.id generation { target := .blocked, reason := reason } now true
  else if op.status = .blocked && op.returnPhase == some .applying &&
      op.statusReason != some reason then
    .ok (store.setOperation { op with statusReason := some reason, updatedAt := now })
  else .ok store

/-- Hold an operation blocked at its apply for another reason than before, or send it back to a
planner. -/
def holdApply (outside : Outside) (store : ReplanStore) (id : Nat) (generation : Int)
    (reason again : String) (replan : Bool) (now : Int) : Except ReplanError ReplanStore := do
  let op ← store.readOperation id
  if op.generation ≠ generation then .ok store
  else
    let held ← store.holdBlocked outside op generation reason now
    let op ← held.readOperation id
    if op.status = .blocked && op.returnPhase == some .applying && replan then
      held.replanAgain outside op again now
    else .ok held

/-! ### Planners and proposals -/

/-- The limit of the planners that may end without deciding a request. -/
def maxRequestPlanners : Nat := 3

/-- The planners opened for a request that no answer waits for. -/
def attempts (store : ReplanStore) (request : Nat) : Nat :=
  (store.planners.items.filter fun planner =>
    planner.requestId == some request && !planner.answerWait).length

/-- The operation of a request goes from `parked` to `planning` as its planner opens. -/
def plannerOpened (outside : Outside) (store : ReplanStore) (request planner : Nat) (now : Int) :
    Except ReplanError ReplanStore :=
  match ((store.requests.get? request).bind PlanRequest.replanOperation).bind
      store.operations.get? with
  | none => .ok store
  | some op =>
    if op.status = .parked then
      store.moveInAs outside op.id op.generation
        { target := .planning, reason := s!"planner {planner} opened for request {request}" } now
        false
    else .ok store

/-- Open a planner of the runtime's for a request, with the answer of a question about it if any;
one of an open request past the limit is exhausted. `eligible` is what else the targets of the
supervisor ask. -/
def openRequestPlanner (outside : Outside) (store : ReplanStore) (request : Nat)
    (answer : Option Nat) (eligible : Bool) (now : Int) : Except ReplanError ReplanStore := do
  let current ← store.readRequest request
  if !eligible || store.plannerOpen request || (answer.isNone && current.status != .opened) then
    .ok store
  else
    let opened := store.attempts request
    if opened ≥ maxRequestPlanners && answer.isNone then
      let reason := s!"{opened} planners of the runtime's ended without deciding the request " ++
        s!"(at most {maxRequestPlanners})"
      .ok ((store.setRequest
        { current with status := .exhausted, statusReason := some reason, updatedAt := now }).note
          (.requestPlannerExhausted request opened reason))
    else
      let planner : Planner :=
        { id := store.planners.nextKey, requestId := some request, runtime := true,
          answerWait := false, closed := false }
      let added := { store with planners := store.planners.add planner }
      let moved ← added.plannerOpened outside request planner.id now
      .ok (moved.note (.requestPlannerOpened request planner.id (opened + 1) answer))

/-- Close a planner's row; the first close counts. -/
def closePlanner (store : ReplanStore) (id : Nat) (now : Int) : Except ReplanError ReplanStore :=
  match store.planners.get? id with
  | none => .ok store
  | some planner =>
    if planner.closed then .ok store
    else ({ store with planners := store.planners.set { planner with closed := true } }
      ).declineAfterPlanner id now

/-- A planner is asked to exit, only a person's answer left. -/
def waitForAnswer (store : ReplanStore) (id : Nat) : ReplanStore :=
  match store.planners.get? id with
  | none => store
  | some planner =>
    if planner.closed || planner.answerWait then store
    else { store with planners := store.planners.set { planner with answerWait := true } }

/-- Decline an open request, authorized for the planner open for it then. -/
def declineRequest (store : ReplanStore) (request : Nat) (reason by_ : String)
    (authorized : Option Nat) (continueRun : Bool) (now : Int) :
    Except ReplanError ReplanStore := do
  let current ← store.readRequest request
  require (!isBlank reason) (.blank "reason")
  require (current.status = .opened) (.refused (s!"request {request} is not open"))
  require (!continueRun || current.replanOperation.isSome)
    (.refused (s!"request {request} was not recorded for a replanning operation: " ++
      "--continue-run continues a parked run"))
  let planner := (store.openPlanners request).getLast?.map Planner.id
  require (planner = authorized)
    (.refused (s!"request {request}: its planner changed while it was declined; decline it again"))
  .ok ((store.setRequest
    { current with status := .declined, statusReason := some reason, updatedAt := now }).note
      (.requestDeclined request planner reason by_ none none none continueRun))

/-- A proposal submitted from an open request makes it `proposed`. -/
def linkRequest (store : ReplanStore) (request proposal : Nat) (planner : Option Nat) (now : Int) :
    Except ReplanError ReplanStore := do
  let current ← store.readRequest request
  if current.status = .opened then
    .ok ((store.setRequest
      { current with
        status := .proposed
        statusReason := some (s!"proposal {proposal} was submitted from it")
        updatedAt := now }).note (.requestProposed request proposal planner))
  else .ok store

/-- The proposal of a plan submitted for the operation. -/
def nameProposal (store : ReplanStore) (id proposal : Nat) (now : Int) :
    Except ReplanError ReplanStore := do
  let op ← store.readOperation id
  .ok (store.setOperation { op with proposalId := some proposal, updatedAt := now })

/-! ### A claim -/

/-- A new run of a task, which no operation may guard; its open operation goes on with it. -/
def claimRun (outside : Outside) (store : ReplanStore) (task : Nat) (run : String) (now : Int) :
    Except ReplanError ReplanStore :=
  match store.guardOf task with
  | some op => .error (.refused (s!"task {task} is being replanned (replan operation {op.id})"))
  | none =>
    let claimed : ClaimedRun := ⟨run, task⟩
    ({ store with runs := store.runs ++ [claimed] }).carryOpenTo outside task run now

end ReplanStore

end Dagq.Replan
