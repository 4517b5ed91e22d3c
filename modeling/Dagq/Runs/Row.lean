/-
This file models the row a run is stored in: its columns as texts, what a claim
inserts, what a saved command updates, and the run that is read back. A command
is saved with the columns it may change alone, the claim's own columns being
written once.
-/

import Dagq.Runs.Commands

namespace Dagq.Runs

open Dagq.Lib

/-! ### Texts -/

namespace RunStatus

def asStr : RunStatus → String
  | claimed => "claimed"
  | starting => "starting"
  | running => "running"
  | validating => "validating"
  | awaitingIntegration => "awaiting_integration"
  | integrating => "integrating"
  | needsSession => "needs_session"
  | integrated => "integrated"
  | succeeded => "succeeded"
  | failed => "failed"
  | interrupted => "interrupted"
  | replaced => "replaced"

def all : List RunStatus :=
  [claimed, starting, running, validating, awaitingIntegration, integrating, needsSession,
    integrated, succeeded, failed, interrupted, replaced]

end RunStatus

def providerStr : Provider → String
  | .claude => "claude"
  | .codex => "codex"

def WorkerMode.asStr : WorkerMode → String
  | interactive => "interactive"
  | headless => "headless"

/-- The value of an enumeration whose text is given. -/
def parseEnum {Value : Type} (kind : String) (asStr : Value → String) (all : List Value)
    (text : String) : Except RunError Value :=
  match all.find? fun value => asStr value == text with
  | some value => .ok value
  | none => .error (.unknownValue kind text)

def parseStatus : String → Except RunError RunStatus :=
  parseEnum "RunStatus" RunStatus.asStr RunStatus.all

def parseProvider : String → Except RunError Provider :=
  parseEnum "Provider" providerStr [.claude, .codex]

def parseMode : String → Except RunError WorkerMode :=
  parseEnum "WorkerMode" WorkerMode.asStr [.interactive, .headless]

/-- A value whose text is no other's is read back from it. -/
theorem parseEnum_asStr {Value : Type} {kind : String} {asStr : Value → String} {all : List Value}
    (apart : ∀ first ∈ all, ∀ second ∈ all, asStr first = asStr second → first = second)
    {value : Value} (member : value ∈ all) :
    parseEnum kind asStr all (asStr value) = .ok value := by
  unfold parseEnum
  cases found : all.find? fun other => asStr other == asStr value with
  | none =>
    have absent := List.find?_eq_none.mp found value member
    exact absurd (beq_self_eq_true _) absent
  | some other =>
    have same : asStr other = asStr value := by
      have fits := List.find?_some found
      exact eq_of_beq fits
    rw [apart other (List.mem_of_find?_eq_some found) value member same]

/-! ### The row -/

structure RunRow where
  id : String
  taskId : Nat
  status : String
  requestedProvider : String
  actualProvider : String
  workerMode : Option String
  baseCommit : String
  branch : Option String
  worktreePath : Option String
  workspaceId : Option String
  receiptPath : Option String
  logPath : Option String
  resultCommit : Option String
  repoPath : Option String
  runDir : Option String
  lastError : Option String
  workspaceClosedAt : Option Int
  createdAt : String
  deriving DecidableEq, Repr

def optional {First Second : Type} (read : First → Except RunError Second) :
    Option First → Except RunError (Option Second)
  | some text => do
    let value ← read text
    .ok (some value)
  | none => .ok none

/-- The run of a row, as stored. A run from before the mode existed is interactive. -/
def storedRunRow (row : RunRow) : Except RunError TaskRun := do
  let status ← parseStatus row.status
  let requestedProvider ← parseProvider row.requestedProvider
  let actualProvider ← parseProvider row.actualProvider
  let workerMode ← optional parseMode row.workerMode
  let baseCommit ← CommitSha.parse row.baseCommit "commit"
  let resultCommit ← optional (CommitSha.parse · "commit") row.resultCommit
  TaskRun.restore
    { id := row.id
      taskId := row.taskId
      status
      requestedProvider
      actualProvider
      workerMode := workerMode.getD .interactive
      baseCommit
      branch := row.branch
      worktreePath := row.worktreePath
      workspaceId := row.workspaceId
      receiptPath := row.receiptPath
      logPath := row.logPath
      resultCommit
      repoPath := row.repoPath
      runDir := row.runDir
      lastError := row.lastError
      workspaceClosedAt := row.workspaceClosedAt
      createdAt := row.createdAt }

namespace TaskRun

/-- The row of a run with every column it has. -/
def row (run : TaskRun) : RunRow where
  id := run.id
  taskId := run.taskId
  status := run.status.asStr
  requestedProvider := providerStr run.requestedProvider
  actualProvider := providerStr run.actualProvider
  workerMode := some run.workerMode.asStr
  baseCommit := run.baseCommit.text
  branch := run.branch
  worktreePath := run.worktreePath
  workspaceId := run.workspaceId
  receiptPath := run.receiptPath
  logPath := run.logPath
  resultCommit := run.resultCommit.map CommitSha.text
  repoPath := run.repoPath
  runDir := run.runDir
  lastError := run.lastError
  workspaceClosedAt := run.workspaceClosedAt
  createdAt := run.createdAt

/-- The row the claim of a run inserts: nothing provisioned yet. -/
def claimedRow (run : TaskRun) : RunRow :=
  { run.row with
    branch := none
    worktreePath := none
    workspaceId := none
    receiptPath := none
    logPath := none
    resultCommit := none
    repoPath := none
    runDir := none
    lastError := none
    workspaceClosedAt := none }

end TaskRun

/-- Save what a command made of the run of the row: the columns it may change. -/
def saveRunRow (row : RunRow) (run : TaskRun) : RunRow :=
  { row with
    status := run.status.asStr
    repoPath := run.repoPath
    runDir := run.runDir
    branch := run.branch
    worktreePath := run.worktreePath
    receiptPath := run.receiptPath
    logPath := run.logPath
    workspaceId := run.workspaceId
    resultCommit := run.resultCommit.map CommitSha.text
    lastError := run.lastError
    workspaceClosedAt := run.workspaceClosedAt }

/-- Read the run of the row, take the command and save what it made of it. -/
def applyCommand (row : RunRow) (command : Command) : Except RunError RunRow := do
  let run ← storedRunRow row
  let after ← run.execute command
  .ok (saveRunRow row after)

/-! ### What is read back -/

theorem parseStatus_asStr (status : RunStatus) : parseStatus status.asStr = .ok status := by
  refine parseEnum_asStr (by decide) ?_
  cases status <;> decide

theorem parseProvider_str (provider : Provider) :
    parseProvider (providerStr provider) = .ok provider := by
  refine parseEnum_asStr (by decide) ?_
  cases provider <;> decide

theorem parseMode_asStr (mode : WorkerMode) : parseMode mode.asStr = .ok mode := by
  refine parseEnum_asStr (by decide) ?_
  cases mode <;> decide

theorem CommitSha.parse_text (commit : CommitSha) (field : String) :
    CommitSha.parse commit.text field = .ok commit := by
  unfold CommitSha.parse
  rw [dif_pos commit.full]

/-- The row of a run is read back as the run its record restores. -/
theorem storedRunRow_row (run : TaskRun) : storedRunRow run.row = TaskRun.restore run.record := by
  have commits : optional (CommitSha.parse · "commit") (run.resultCommit.map CommitSha.text) =
      .ok run.resultCommit := by
    cases run.resultCommit with
    | none => rfl
    | some commit =>
      show (do
        let value ← CommitSha.parse commit.text "commit"
        Except.ok (some value)) = _
      rw [commit.parse_text]
      rfl
  have mode : optional parseMode (some run.workerMode.asStr) = .ok (some run.workerMode) := by
    show (do
      let value ← parseMode run.workerMode.asStr
      Except.ok (some value)) = _
    rw [parseMode_asStr]
    rfl
  unfold storedRunRow TaskRun.row
  rw [parseStatus_asStr, parseProvider_str, parseProvider_str, mode, run.baseCommit.parse_text, commits]
  rfl

end Dagq.Runs
