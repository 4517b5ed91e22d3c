/-
This file models a run, one attempt at a task, from its claim to its landing:
its fields, the run a supervisor starts as it claims a task, and the record it
is saved as and restored from.
-/

import Dagq.Lib.Checks
import Dagq.Queue.TaskStatus
import Dagq.Turns.ProviderSwitch

namespace Dagq.Runs

open Dagq.Lib Dagq.Queue

export Dagq.Turns (Provider)

/-! ### Statuses, providers and commits -/

inductive RunStatus where
  | claimed
  | starting
  | running
  | validating
  | awaitingIntegration
  | integrating
  | needsSession
  | integrated
  | succeeded
  | failed
  | interrupted
  | replaced
  deriving DecidableEq, Repr

inductive WorkerMode where
  | interactive
  | headless
  deriving DecidableEq, Repr

/-- The provider and the mode a task's worker runs on. -/
structure Worker where
  provider : Provider
  mode : WorkerMode
  deriving DecidableEq, Repr

/-- Why a run is not started, moved or read back. -/
inductive RunError where
  | invalidCommit (field : String)
  | unknownValue (kind value : String)
  | runOfUnclaimedTask (taskId : Nat) (status : TaskStatus)
  | runTransitionNotAllowed (status : RunStatus) (operation : String)
  | runInconsistent (runId : String) (reason : String)
  deriving DecidableEq, Repr

def hexDigits : List Char :=
  ['0', '1', '2', '3', '4', '5', '6', '7', '8', '9', 'a', 'b', 'c', 'd', 'e', 'f', 'A', 'B', 'C',
    'D', 'E', 'F']

/-- Whether the text is a full object ID, of either hash. -/
def isObjectId (text : String) : Bool :=
  (text.toList.length == 40 || text.toList.length == 64) && text.toList.all (hexDigits.contains ·)

/-- A full object ID. -/
structure CommitSha where
  text : String
  full : isObjectId text = true
  deriving DecidableEq

def CommitSha.parse (text field : String) : Except RunError CommitSha :=
  if full : isObjectId text = true then .ok ⟨text, full⟩ else .error (.invalidCommit field)

/-- The text with the letters of ASCII in lowercase. -/
def toAsciiLowercase (text : String) : String := text.map Char.toLower

/-! ### The run and its record -/

/-- Where a claimed run is provisioned. -/
structure RunPlan where
  repoPath : String
  runDir : String
  branch : String
  worktreePath : String
  receiptPath : String
  logPath : String
  deriving DecidableEq, Repr

/-- What a claim reads of the task it takes. -/
structure ClaimedTask where
  id : Nat
  status : TaskStatus
  worker : Worker
  deriving DecidableEq, Repr

/-- A run as it is saved. -/
structure RunRecord where
  id : String
  taskId : Nat
  status : RunStatus
  requestedProvider : Provider
  actualProvider : Provider
  workerMode : WorkerMode
  baseCommit : CommitSha
  branch : Option String
  worktreePath : Option String
  workspaceId : Option String
  receiptPath : Option String
  logPath : Option String
  resultCommit : Option CommitSha
  repoPath : Option String
  runDir : Option String
  lastError : Option String
  workspaceClosedAt : Option Int
  createdAt : String
  deriving DecidableEq

structure TaskRun where
  id : String
  taskId : Nat
  status : RunStatus
  requestedProvider : Provider
  actualProvider : Provider
  workerMode : WorkerMode
  baseCommit : CommitSha
  branch : Option String
  worktreePath : Option String
  workspaceId : Option String
  receiptPath : Option String
  logPath : Option String
  /-- The commit validation checked; once integrated, the commit that landed. -/
  resultCommit : Option CommitSha
  repoPath : Option String
  runDir : Option String
  lastError : Option String
  workspaceClosedAt : Option Int
  createdAt : String
  deriving DecidableEq

namespace TaskRun

/-- The run a supervisor starts as it claims the task, with nothing provisioned yet. -/
def new (id : String) (task : ClaimedTask) (baseCommit : CommitSha) (claimedAt : String) :
    Except RunError TaskRun := do
  require (task.status == .inProgress) (.runOfUnclaimedTask task.id task.status)
  let base ← CommitSha.parse (toAsciiLowercase baseCommit.text) "base commit"
  .ok
    { id
      taskId := task.id
      status := .claimed
      requestedProvider := task.worker.provider
      actualProvider := task.worker.provider
      workerMode := task.worker.mode
      baseCommit := base
      branch := none
      worktreePath := none
      workspaceId := none
      receiptPath := none
      logPath := none
      resultCommit := none
      repoPath := none
      runDir := none
      lastError := none
      workspaceClosedAt := none
      createdAt := claimedAt }

/-- The run as it was saved: an integrated one names the commit that landed. -/
def restore (record : RunRecord) : Except RunError TaskRun := do
  require (record.status != .integrated || record.resultCommit.isSome)
    (.runInconsistent record.id "is integrated without a result commit")
  .ok
    { id := record.id
      taskId := record.taskId
      status := record.status
      requestedProvider := record.requestedProvider
      actualProvider := record.actualProvider
      workerMode := record.workerMode
      baseCommit := record.baseCommit
      branch := record.branch
      worktreePath := record.worktreePath
      workspaceId := record.workspaceId
      receiptPath := record.receiptPath
      logPath := record.logPath
      resultCommit := record.resultCommit
      repoPath := record.repoPath
      runDir := record.runDir
      lastError := record.lastError
      workspaceClosedAt := record.workspaceClosedAt
      createdAt := record.createdAt }

def record (run : TaskRun) : RunRecord where
  id := run.id
  taskId := run.taskId
  status := run.status
  requestedProvider := run.requestedProvider
  actualProvider := run.actualProvider
  workerMode := run.workerMode
  baseCommit := run.baseCommit
  branch := run.branch
  worktreePath := run.worktreePath
  workspaceId := run.workspaceId
  receiptPath := run.receiptPath
  logPath := run.logPath
  resultCommit := run.resultCommit
  repoPath := run.repoPath
  runDir := run.runDir
  lastError := run.lastError
  workspaceClosedAt := run.workspaceClosedAt
  createdAt := run.createdAt

/-- A run whose record is consistent is restored as it was. -/
theorem restore_record (run : TaskRun)
    (landed : run.status = .integrated → run.resultCommit.isSome = true) :
    restore run.record = .ok run := by
  have consistent : (run.record.status != .integrated || run.record.resultCommit.isSome) = true := by
    by_cases integrated : run.status = .integrated
    · rw [Bool.or_eq_true]
      exact Or.inr (landed integrated)
    · rw [Bool.or_eq_true, bne_iff_ne]
      exact Or.inl integrated
  unfold restore
  rw [consistent]
  rfl

end TaskRun

/-! ### A claim -/

theorem toLower_hexDigit : (hexDigits.all fun digit => hexDigits.contains digit.toLower) = true := by
  decide

/-- A full object ID in lowercase is one still. -/
theorem isObjectId_toAsciiLowercase {text : String} (full : isObjectId text = true) :
    isObjectId (toAsciiLowercase text) = true := by
  unfold isObjectId toAsciiLowercase at *
  rw [Bool.and_eq_true, List.all_eq_true] at *
  rw [String.toList_map, List.length_map]
  refine ⟨full.1, fun lower member => ?_⟩
  obtain ⟨digit, isDigit, rfl⟩ := List.mem_map.mp member
  have held := List.contains_iff_mem.mp (full.2 digit isDigit)
  exact List.all_eq_true.mp toLower_hexDigit digit held

/-- The claim of a task in progress always starts a run. -/
theorem TaskRun.new_ok (id : String) (task : ClaimedTask) (baseCommit : CommitSha)
    (claimedAt : String) (claimed : task.status = .inProgress) :
    ∃ run, TaskRun.new id task baseCommit claimedAt = .ok run ∧ run.status = .claimed ∧
      run.resultCommit = none := by
  have parsed : CommitSha.parse (toAsciiLowercase baseCommit.text) "base commit" =
      .ok ⟨toAsciiLowercase baseCommit.text, isObjectId_toAsciiLowercase baseCommit.full⟩ := by
    unfold CommitSha.parse
    rw [dif_pos (isObjectId_toAsciiLowercase baseCommit.full)]
  unfold TaskRun.new
  rw [claimed, parsed]
  exact ⟨_, rfl, rfl, rfl⟩

end Dagq.Runs
