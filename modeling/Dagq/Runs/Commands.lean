/-
This file models the commands of a run, the only way its status moves: each
takes the run and gives it changed, or refuses and names the status it found and
the operation.
-/

import Dagq.Runs.Run

namespace Dagq.Runs

open Dagq.Lib

namespace TaskRun

/-- Refuses the operation unless the run is in one of the statuses. -/
def requireStatus (run : TaskRun) (allowed : List RunStatus) (operation : String) :
    Except RunError Unit :=
  require (allowed.contains run.status) (.runTransitionNotAllowed run.status operation)

/-- The run in another status, the reason its last error where one is given. -/
def moved (run : TaskRun) (target : RunStatus) (reason : Option String) : TaskRun :=
  { run with
    status := target
    lastError := if reason.isSome then reason else run.lastError }

/-- Move a run in one of the statuses to another. -/
def move (run : TaskRun) (allowed : List RunStatus) (operation : String) (target : RunStatus)
    (reason : Option String) : Except RunError TaskRun := do
  run.requireStatus allowed operation
  .ok (run.moved target reason)

/-- Executing under a supervisor or being landed. -/
def unfinished : List RunStatus := [.claimed, .starting, .running, .validating, .integrating]

/-! ### Its claim for the other worker -/

def requesting (run : TaskRun) (worker : Worker) : TaskRun :=
  { run with
    requestedProvider := worker.provider
    actualProvider := worker.provider
    workerMode := worker.mode }

def runningOn (run : TaskRun) (worker : Worker) : TaskRun :=
  { run with
    actualProvider := worker.provider
    workerMode := worker.mode }

/-! ### The session -/

def startProvisioning (run : TaskRun) (plan : RunPlan) : Except RunError TaskRun := do
  run.requireStatus [.claimed] "provision"
  .ok
    { run with
      status := .starting
      repoPath := some plan.repoPath
      runDir := some plan.runDir
      branch := some plan.branch
      worktreePath := some plan.worktreePath
      receiptPath := some plan.receiptPath
      logPath := some plan.logPath }

def attachWorkspace (run : TaskRun) (workspaceId : String) : Except RunError TaskRun := do
  run.requireStatus [.starting] "attach a workspace to"
  require run.workspaceId.isNone
    (.runTransitionNotAllowed run.status "attach a second workspace to")
  .ok { run with workspaceId := some workspaceId }

def checkReopenable (run : TaskRun) : Except RunError Unit :=
  run.requireStatus [.running] "reopen the session of"

def reopenWorkspace (run : TaskRun) (workspaceId : String) : Except RunError TaskRun := do
  run.checkReopenable
  .ok { run with workspaceId := some workspaceId, workspaceClosedAt := none }

def checkReadyForWrapper (run : TaskRun) : Except RunError Unit := do
  run.requireStatus [.starting] "start the wrapper of"
  require run.workspaceId.isSome
    (.runTransitionNotAllowed run.status "start the wrapper without a workspace of")

def markRunning (run : TaskRun) : Except RunError TaskRun :=
  run.move [.starting] "mark running" .running none

/-- The status the end of a session gives: a failure only without a receipt. -/
def sessionEndStatus (exitCode : Option Int) (receipt : Bool) : RunStatus :=
  match exitCode with
  | some code => if code ≠ 0 && !receipt then .failed else .validating
  | none => .validating

/-- The last error of a session that ended in the status. -/
def sessionError (status : RunStatus) (exitCode : Option Int) : Option String :=
  match status, exitCode with
  | .failed, some code => some (s!"session exited with code {code}")
  | _, _ => none

def finishSession (run : TaskRun) (exitCode : Option Int) (receipt : Bool) :
    Except RunError TaskRun :=
  run.move [.starting, .running] "finish the session of" (sessionEndStatus exitCode receipt)
    (sessionError (sessionEndStatus exitCode receipt) exitCode)

/-! ### Validation -/

def accept (run : TaskRun) (resultCommit : CommitSha) : Except RunError TaskRun := do
  run.requireStatus [.validating] "accept"
  .ok { run with status := .awaitingIntegration, resultCommit := some resultCommit }

def reject (run : TaskRun) (resultCommit : Option CommitSha) (reason : Option String)
    (resumable : Bool) : Except RunError TaskRun := do
  run.requireStatus [.validating] "reject"
  .ok { run.moved (if resumable then .needsSession else .failed) reason with
    resultCommit := resultCommit }

/-- Close the task of the run without a commit, its claim verified on main. -/
def closeSatisfied (run : TaskRun) : Except RunError TaskRun := do
  run.requireStatus [.validating] "close as already satisfied"
  .ok { run with status := .succeeded, resultCommit := none }

def decideSatisfied (run : TaskRun) (reason : String) : Except RunError TaskRun :=
  run.move [.validating] "decide the already_satisfied claim of" .failed (some reason)

def restartValidation (run : TaskRun) : Except RunError TaskRun :=
  run.move [.awaitingIntegration] "validate again" .validating none

/-! ### Parking -/

def decideLanding (run : TaskRun) (target : RunStatus) (reason : String) :
    Except RunError TaskRun := do
  run.requireStatus [.awaitingIntegration] "decide the landing of"
  require ([RunStatus.needsSession, .failed].contains target)
    (.runTransitionNotAllowed run.status
      "decide a landing other than a send-back or a cancel for")
  .ok (run.moved target (some reason))

def parkAfterRecheck (run : TaskRun) (reason : String) : Except RunError TaskRun :=
  run.move [.awaitingIntegration] "park after a landing recheck" .needsSession (some reason)

def parkAfterE2e (run : TaskRun) (reason : String) : Except RunError TaskRun :=
  run.move [.awaitingIntegration] "park after a failed e2e" .needsSession (some reason)

def parkLive (run : TaskRun) (reason : String) : Except RunError TaskRun :=
  run.move [.running] "park a live session" .needsSession (some reason)

def parkForReplan (run : TaskRun) (reason : String) : Except RunError TaskRun :=
  run.move [.claimed, .starting, .running, .validating, .awaitingIntegration, .needsSession,
    .failed, .interrupted] "park for a replanning" .needsSession (some reason)

def parkForHold (run : TaskRun) (reason : String) : Except RunError TaskRun :=
  run.move [.claimed, .starting, .running, .validating, .awaitingIntegration, .needsSession]
    "park for a hold" .needsSession (some reason)

def endForReplacement (run : TaskRun) : Except RunError TaskRun :=
  run.move [.needsSession] "end for a replacement" .replaced none

def endForRelease (run : TaskRun) (reason : String) : Except RunError TaskRun :=
  run.move [.validating, .awaitingIntegration, .needsSession, .failed, .interrupted]
    "end for a release" .failed (some reason)

/-- Record a runtime error; the status stays. -/
def abandon (run : TaskRun) (message : String) : Except RunError TaskRun :=
  .ok { run with lastError := some message }

/-- Take back a run whose processes are gone. -/
def interrupt (run : TaskRun) : Except RunError TaskRun :=
  if run.status = .awaitingIntegration then .ok run
  else run.move unfinished "recover"
    (if run.status = .integrating then .awaitingIntegration else .interrupted) none

/-! ### Integration -/

def beginIntegration (run : TaskRun) : Except RunError TaskRun :=
  run.move [.awaitingIntegration, .needsSession] "integrate" .integrating none

def leaveIntegration (run : TaskRun) (target : RunStatus) (reason operation : String) :
    Except RunError TaskRun :=
  run.move [.integrating] operation target (some reason)

def deferIntegration (run : TaskRun) (reason : String) : Except RunError TaskRun :=
  run.leaveIntegration .needsSession reason "defer the integration of"

def holdIntegration (run : TaskRun) (reason : String) : Except RunError TaskRun :=
  run.leaveIntegration .awaitingIntegration reason "hold the integration of"

def failIntegration (run : TaskRun) (reason : String) : Except RunError TaskRun :=
  run.leaveIntegration .failed reason "fail the integration of"

/-- A landing goes back to a status it could have started from. -/
def requireRevert (run : TaskRun) (revertTo : RunStatus) : Except RunError Unit :=
  require ([RunStatus.awaitingIntegration, .needsSession].contains revertTo)
    (.runTransitionNotAllowed run.status
      "return to a status it could not have integrated from")

def abortIntegration (run : TaskRun) (revertTo : RunStatus) (message : String) :
    Except RunError TaskRun := do
  run.requireRevert revertTo
  run.leaveIntegration revertTo message "abort the integration of"

def handOverIntegration (run : TaskRun) (revertTo : RunStatus) : Except RunError TaskRun := do
  run.requireRevert revertTo
  run.move [.integrating] "hand over the landing of" revertTo none

/-- The run landed as the commit. -/
def finishIntegration (run : TaskRun) (commit : CommitSha) : Except RunError TaskRun := do
  run.requireStatus [.integrating] "finish the integration of"
  .ok { run with status := .integrated, resultCommit := some commit, lastError := none }

/-! ### Resumes and triage -/

def checkResumable (run : TaskRun) : Except RunError Unit :=
  run.requireStatus [.needsSession] "resume"

def resolveApprovedResume (run : TaskRun) (head : CommitSha) : Except RunError TaskRun := do
  run.requireStatus [.needsSession] "resolve the resume of"
  .ok { run with resultCommit := some head }

def skipResume (run : TaskRun) (head : CommitSha) (approved : Bool) : Except RunError TaskRun := do
  run.checkResumable
  if approved then run.resolveApprovedResume head else .ok { run with status := .validating }

def finishResume (run : TaskRun) (target : RunStatus) (reason : Option String) :
    Except RunError TaskRun := do
  run.requireStatus [.needsSession] "finish the resume of"
  require ([RunStatus.validating, .awaitingIntegration, .failed].contains target)
    (.runTransitionNotAllowed run.status "end a resume in a status a session cannot reach for")
  .ok (run.moved target reason)

def exhaustResumes (run : TaskRun) (reason : String) : Except RunError TaskRun := do
  run.checkResumable
  .ok (run.moved .failed (some reason))

def checkTriageable (run : TaskRun) : Except RunError Unit :=
  run.requireStatus [.failed, .interrupted] "triage"

def resumeAfterTriage (run : TaskRun) (instruction : String) : Except RunError TaskRun := do
  run.checkTriageable
  .ok (run.moved .needsSession (some instruction))

/-- Hand a failed run without a commit to the check that the base meets the acceptance. -/
def handOffAfterTriage (run : TaskRun) : Except RunError TaskRun := do
  run.requireStatus [.failed] "hand off"
  .ok { run with status := .validating, resultCommit := none, lastError := none }

/-! ### Its workspace -/

def requireOpenWorkspaceAtRest (run : TaskRun) (operation : String) : Except RunError Unit := do
  run.requireStatus [.awaitingIntegration, .needsSession, .validating] operation
  require run.workspaceClosedAt.isNone (.runTransitionNotAllowed run.status operation)

def workspaceClosed (run : TaskRun) (closedAt : Int) : Except RunError TaskRun := do
  run.requireOpenWorkspaceAtRest "close the workspace of"
  require run.workspaceId.isSome
    (.runTransitionNotAllowed run.status "close the workspace it never had of")
  .ok { run with workspaceClosedAt := some closedAt }

/-- A workspace was closed: the run's own is recorded as closed. -/
def recordClosedWorkspace (run : TaskRun) (workspaceId : String) (closedAt : Int) :
    Except RunError TaskRun :=
  if run.workspaceId = some workspaceId ∧ run.workspaceClosedAt = none then
    .ok { run with workspaceClosedAt := some closedAt }
  else .ok run

def recordCloseFailure (run : TaskRun) (message : String) : Except RunError TaskRun := do
  run.requireOpenWorkspaceAtRest "record a failed close of the workspace of"
  .ok { run with lastError := some message }

def recordCleanupFailure (run : TaskRun) (message : String) : Except RunError TaskRun :=
  .ok { run with lastError := some message }

end TaskRun

/-! ### Any command -/

inductive Command where
  | requesting (worker : Worker)
  | runningOn (worker : Worker)
  | startProvisioning (plan : RunPlan)
  | attachWorkspace (workspaceId : String)
  | checkReopenable
  | reopenWorkspace (workspaceId : String)
  | checkReadyForWrapper
  | markRunning
  | finishSession (exitCode : Option Int) (receipt : Bool)
  | accept (resultCommit : CommitSha)
  | reject (resultCommit : Option CommitSha) (reason : Option String) (resumable : Bool)
  | closeSatisfied
  | decideSatisfied (reason : String)
  | restartValidation
  | decideLanding (target : RunStatus) (reason : String)
  | parkAfterRecheck (reason : String)
  | parkAfterE2e (reason : String)
  | parkLive (reason : String)
  | parkForReplan (reason : String)
  | parkForHold (reason : String)
  | endForReplacement
  | endForRelease (reason : String)
  | abandon (message : String)
  | interrupt
  | beginIntegration
  | deferIntegration (reason : String)
  | holdIntegration (reason : String)
  | failIntegration (reason : String)
  | abortIntegration (revertTo : RunStatus) (message : String)
  | handOverIntegration (revertTo : RunStatus)
  | finishIntegration (commit : CommitSha)
  | checkResumable
  | skipResume (head : CommitSha) (approved : Bool)
  | resolveApprovedResume (head : CommitSha)
  | finishResume (target : RunStatus) (reason : Option String)
  | exhaustResumes (reason : String)
  | checkTriageable
  | resumeAfterTriage (instruction : String)
  | handOffAfterTriage
  | workspaceClosed (closedAt : Int)
  | recordClosedWorkspace (workspaceId : String) (closedAt : Int)
  | recordCloseFailure (message : String)
  | recordCleanupFailure (message : String)
  deriving DecidableEq

namespace TaskRun

/-- What a command makes of the run; a check alone leaves it as it is. -/
def execute (run : TaskRun) : Command → Except RunError TaskRun
  | .requesting worker => .ok (run.requesting worker)
  | .runningOn worker => .ok (run.runningOn worker)
  | .startProvisioning plan => run.startProvisioning plan
  | .attachWorkspace workspaceId => run.attachWorkspace workspaceId
  | .checkReopenable => run.checkReopenable.map fun _ => run
  | .reopenWorkspace workspaceId => run.reopenWorkspace workspaceId
  | .checkReadyForWrapper => run.checkReadyForWrapper.map fun _ => run
  | .markRunning => run.markRunning
  | .finishSession exitCode receipt => run.finishSession exitCode receipt
  | .accept resultCommit => run.accept resultCommit
  | .reject resultCommit reason resumable => run.reject resultCommit reason resumable
  | .closeSatisfied => run.closeSatisfied
  | .decideSatisfied reason => run.decideSatisfied reason
  | .restartValidation => run.restartValidation
  | .decideLanding target reason => run.decideLanding target reason
  | .parkAfterRecheck reason => run.parkAfterRecheck reason
  | .parkAfterE2e reason => run.parkAfterE2e reason
  | .parkLive reason => run.parkLive reason
  | .parkForReplan reason => run.parkForReplan reason
  | .parkForHold reason => run.parkForHold reason
  | .endForReplacement => run.endForReplacement
  | .endForRelease reason => run.endForRelease reason
  | .abandon message => run.abandon message
  | .interrupt => run.interrupt
  | .beginIntegration => run.beginIntegration
  | .deferIntegration reason => run.deferIntegration reason
  | .holdIntegration reason => run.holdIntegration reason
  | .failIntegration reason => run.failIntegration reason
  | .abortIntegration revertTo message => run.abortIntegration revertTo message
  | .handOverIntegration revertTo => run.handOverIntegration revertTo
  | .finishIntegration commit => run.finishIntegration commit
  | .checkResumable => run.checkResumable.map fun _ => run
  | .skipResume head approved => run.skipResume head approved
  | .resolveApprovedResume head => run.resolveApprovedResume head
  | .finishResume target reason => run.finishResume target reason
  | .exhaustResumes reason => run.exhaustResumes reason
  | .checkTriageable => run.checkTriageable.map fun _ => run
  | .resumeAfterTriage instruction => run.resumeAfterTriage instruction
  | .handOffAfterTriage => run.handOffAfterTriage
  | .workspaceClosed closedAt => run.workspaceClosed closedAt
  | .recordClosedWorkspace workspaceId closedAt => run.recordClosedWorkspace workspaceId closedAt
  | .recordCloseFailure message => run.recordCloseFailure message
  | .recordCleanupFailure message => run.recordCleanupFailure message

end TaskRun

end Dagq.Runs
