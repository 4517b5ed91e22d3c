/-
This file proves what holds of a run whatever commands it is given, the refused
ones included. A run that landed, closed its task without a commit or was
replaced stays so; a landed run names its commit, and a run that names one has
been judged by validation; and the row of a run is read back as that run.
-/

import Dagq.Lib.Transition
import Dagq.Runs.Row

namespace Dagq.Runs

open Dagq.Lib Dagq.Queue

namespace RunStatus

/-- Whether the status is never left. -/
def isFinal : RunStatus → Bool
  | integrated | succeeded | replaced => true
  | _ => false

/-- Whether validation has judged the run, or its task stopped it, and it may name a commit. -/
def isJudged : RunStatus → Bool
  | claimed | starting | running | succeeded => false
  | _ => true

end RunStatus

namespace Command

/-- Whether the command sets the worker of a run just claimed, before its row is inserted. -/
def setsWorker : Command → Bool
  | requesting _ | runningOn _ => true
  | _ => false

end Command

namespace TaskRun

/-! ### Runs of commands -/

/-- The run after a command and why it was refused, if it was: a refused one changes nothing. -/
def perform (run : TaskRun) (command : Command) : TaskRun × Option RunError :=
  match run.execute command with
  | .ok after => (after, none)
  | .error error => (run, some error)

/-- A run is given a command, taken or refused. -/
def Step (before after : TaskRun) : Prop := ∃ command, after = (before.perform command).1

/-- What a command that is taken does to the status and to the commit. -/
inductive Moved (run after : TaskRun) : Prop
  | same (status : after.status = run.status) (commit : after.resultCommit = run.resultCommit)
  | moved (target : RunStatus) (reaches : after.status = target)
      (unended : run.status.isFinal = false) (other : target ≠ .integrated ∧ target ≠ .succeeded)
      (onward : run.status.isJudged = true → target.isJudged = true)
      (commit : after.resultCommit = run.resultCommit ∨ after.resultCommit = none)
  | judged (target : RunStatus) (reaches : after.status = target)
      (unended : run.status.isFinal = false) (other : target ≠ .integrated)
      (isJudged : target.isJudged = true)
  | landed (landing : run.status = .integrating) (target : after.status = .integrated)
      (commit : after.resultCommit.isSome = true)
  | satisfied (validating : run.status = .validating) (target : after.status = .succeeded)
      (commit : after.resultCommit = none)

variable {run after : TaskRun} {allowed : List RunStatus} {operation : String}
  {target : RunStatus} {reason : Option String} {checked : Unit}

theorem requireStatus_ok (passed : run.requireStatus allowed operation = .ok checked) :
    run.status ∈ allowed := List.contains_iff_mem.mp (require_ok passed)

/-- What a command does and what it leaves of the columns that are not saved again. -/
def Effect (run after : TaskRun) : Prop := Moved run after ∧ saveRunRow run.row after = after.row

/-- A move out of statuses that are left, to one that is not reached with a landing. -/
theorem moved_effect (from_ : run.status ∈ allowed)
    (unended : ∀ status ∈ allowed, status.isFinal = false)
    (other : target ≠ .integrated ∧ target ≠ .succeeded)
    (onward : ∀ status ∈ allowed, status.isJudged = true → target.isJudged = true) :
    Effect run (run.moved target reason) :=
  ⟨.moved target rfl (unended _ from_) other (onward _ from_) (Or.inl rfl), rfl⟩

theorem move_effect (applied : run.move allowed operation target reason = .ok after)
    (unended : ∀ status ∈ allowed, status.isFinal = false)
    (other : target ≠ .integrated ∧ target ≠ .succeeded)
    (onward : ∀ status ∈ allowed, status.isJudged = true → target.isJudged = true) :
    Effect run after := by
  obtain ⟨_, allows, applied⟩ := bind_ok applied
  rw [← Except.ok.inj applied]
  exact moved_effect (requireStatus_ok allows) unended other onward

/-- A check alone leaves the run as it is. -/
theorem check_effect {check : Except RunError Unit}
    (applied : (check.map fun _ => run) = .ok after) : Effect run after := by
  obtain ⟨_, _, same⟩ := map_ok applied
  rw [← same]
  exact ⟨.same rfl rfl, rfl⟩

/-! ### What each command does -/

theorem sessionEndStatus_eq (exitCode : Option Int) (receipt : Bool) :
    sessionEndStatus exitCode receipt = .failed ∨
      sessionEndStatus exitCode receipt = .validating := by
  unfold sessionEndStatus
  split
  · split
    · exact Or.inl rfl
    · exact Or.inr rfl
  · exact Or.inr rfl

theorem finishSession_effect {exitCode : Option Int} {receipt : Bool}
    (applied : run.finishSession exitCode receipt = .ok after) : Effect run after := by
  unfold finishSession at applied
  rcases sessionEndStatus_eq exitCode receipt with ended | ended <;> rw [ended] at applied <;>
    exact move_effect applied (by decide) (by decide) (by decide)

theorem reject_effect {commit : Option CommitSha} {resumable : Bool}
    (applied : run.reject commit reason resumable = .ok after) : Effect run after := by
  obtain ⟨_, allows, applied⟩ := bind_ok applied
  have validating := List.mem_singleton.mp (requireStatus_ok allows)
  rw [← Except.ok.inj applied]
  refine ⟨.judged (if resumable then .needsSession else .failed) rfl (by rw [validating]; rfl) ?_ ?_,
    rfl⟩ <;> cases resumable <;> decide

theorem decideLanding_effect {reason : String}
    (applied : run.decideLanding target reason = .ok after) : Effect run after := by
  obtain ⟨_, allows, applied⟩ := bind_ok applied
  obtain ⟨_, reaches, applied⟩ := bind_ok applied
  have member := List.contains_iff_mem.mp (require_ok reaches)
  have facts : ∀ target ∈ [RunStatus.needsSession, .failed],
      (target ≠ .integrated ∧ target ≠ .succeeded) ∧ target.isJudged = true := by decide
  obtain ⟨other, judged⟩ := facts target member
  rw [← Except.ok.inj applied]
  exact moved_effect (requireStatus_ok allows) (by decide) other fun _ _ _ => judged

theorem interrupt_effect (applied : run.interrupt = .ok after) : Effect run after := by
  unfold interrupt at applied
  split at applied
  · rw [← Except.ok.inj applied]
    exact ⟨.same rfl rfl, rfl⟩
  · by_cases landing : run.status = .integrating
    · rw [if_pos landing] at applied
      exact move_effect applied (by decide) (by decide) (by decide)
    · rw [if_neg landing] at applied
      exact move_effect applied (by decide) (by decide) (by decide)

theorem requireRevert_ok (passed : run.requireRevert target = .ok checked) :
    (target ≠ .integrated ∧ target ≠ .succeeded) ∧ target.isJudged = true := by
  have member := List.contains_iff_mem.mp (require_ok passed)
  have facts : ∀ target ∈ [RunStatus.awaitingIntegration, .needsSession],
      (target ≠ .integrated ∧ target ≠ .succeeded) ∧ target.isJudged = true := by decide
  exact facts target member

theorem abortIntegration_effect {message : String}
    (applied : run.abortIntegration target message = .ok after) : Effect run after := by
  obtain ⟨_, reverts, applied⟩ := bind_ok applied
  obtain ⟨other, judged⟩ := requireRevert_ok reverts
  exact move_effect applied (by decide) other fun _ _ _ => judged

theorem handOverIntegration_effect (applied : run.handOverIntegration target = .ok after) :
    Effect run after := by
  obtain ⟨_, reverts, applied⟩ := bind_ok applied
  obtain ⟨other, judged⟩ := requireRevert_ok reverts
  exact move_effect applied (by decide) other fun _ _ _ => judged

theorem finishIntegration_effect {commit : CommitSha}
    (applied : run.finishIntegration commit = .ok after) : Effect run after := by
  obtain ⟨_, allows, applied⟩ := bind_ok applied
  rw [← Except.ok.inj applied]
  exact ⟨.landed (List.mem_singleton.mp (requireStatus_ok allows)) rfl rfl, rfl⟩

theorem resolveApprovedResume_effect {head : CommitSha}
    (applied : run.resolveApprovedResume head = .ok after) : Effect run after := by
  obtain ⟨_, allows, applied⟩ := bind_ok applied
  have waiting := List.mem_singleton.mp (requireStatus_ok allows)
  rw [← Except.ok.inj applied]
  exact ⟨.judged .needsSession waiting (by rw [waiting]; rfl) (by decide) rfl, rfl⟩

theorem skipResume_effect {head : CommitSha} {approved : Bool}
    (applied : run.skipResume head approved = .ok after) : Effect run after := by
  obtain ⟨_, allows, applied⟩ := bind_ok applied
  cases approved with
  | true => exact resolveApprovedResume_effect applied
  | false =>
    rw [← Except.ok.inj applied]
    have waiting := List.mem_singleton.mp (requireStatus_ok allows)
    exact ⟨.moved .validating rfl (by rw [waiting]; rfl) (by decide) (fun _ => rfl) (Or.inl rfl), rfl⟩

theorem finishResume_effect (applied : run.finishResume target reason = .ok after) :
    Effect run after := by
  obtain ⟨_, allows, applied⟩ := bind_ok applied
  obtain ⟨_, reaches, applied⟩ := bind_ok applied
  have member := List.contains_iff_mem.mp (require_ok reaches)
  have facts : ∀ target ∈ [RunStatus.validating, .awaitingIntegration, .failed],
      (target ≠ .integrated ∧ target ≠ .succeeded) ∧ target.isJudged = true := by decide
  obtain ⟨other, judged⟩ := facts target member
  rw [← Except.ok.inj applied]
  exact moved_effect (requireStatus_ok allows) (by decide) other fun _ _ _ => judged

/-- A command that only names the workspace or the error leaves the status and the commit. -/
theorem same_effect (status : after.status = run.status)
    (commit : after.resultCommit = run.resultCommit)
    (saved : saveRunRow run.row after = after.row) : Effect run after :=
  ⟨.same status commit, saved⟩

theorem recordClosedWorkspace_effect {workspaceId : String} {closedAt : Int}
    (applied : run.recordClosedWorkspace workspaceId closedAt = .ok after) : Effect run after := by
  unfold recordClosedWorkspace at applied
  split at applied <;> rw [← Except.ok.inj applied] <;> exact same_effect rfl rfl rfl

/-- What any command does but one that sets the worker. -/
theorem execute_effect {command : Command} (claimed : command.setsWorker = false)
    (applied : run.execute command = .ok after) : Effect run after := by
  cases command with
  | requesting worker => cases claimed
  | runningOn worker => cases claimed
  | checkReopenable => exact check_effect applied
  | checkReadyForWrapper => exact check_effect applied
  | checkResumable => exact check_effect applied
  | checkTriageable => exact check_effect applied
  | startProvisioning plan =>
    obtain ⟨_, allows, applied⟩ := bind_ok applied
    have isClaimed := List.mem_singleton.mp (requireStatus_ok allows)
    rw [← Except.ok.inj applied]
    refine ⟨.moved .starting rfl (by rw [isClaimed]; rfl) (by decide) ?_ (Or.inl rfl), rfl⟩
    rw [isClaimed]
    decide
  | attachWorkspace workspaceId =>
    obtain ⟨_, _, applied⟩ := bind_ok applied
    obtain ⟨_, _, applied⟩ := bind_ok applied
    rw [← Except.ok.inj applied]
    exact same_effect rfl rfl rfl
  | reopenWorkspace workspaceId =>
    obtain ⟨_, _, applied⟩ := bind_ok applied
    rw [← Except.ok.inj applied]
    exact same_effect rfl rfl rfl
  | markRunning => exact move_effect applied (by decide) (by decide) (by decide)
  | finishSession exitCode receipt => exact finishSession_effect applied
  | accept resultCommit =>
    obtain ⟨_, allows, applied⟩ := bind_ok applied
    have validating := List.mem_singleton.mp (requireStatus_ok allows)
    rw [← Except.ok.inj applied]
    exact ⟨.judged .awaitingIntegration rfl (by rw [validating]; rfl) (by decide) rfl, rfl⟩
  | reject resultCommit reason resumable => exact reject_effect applied
  | closeSatisfied =>
    obtain ⟨_, allows, applied⟩ := bind_ok applied
    rw [← Except.ok.inj applied]
    exact ⟨.satisfied (List.mem_singleton.mp (requireStatus_ok allows)) rfl rfl, rfl⟩
  | decideSatisfied reason => exact move_effect applied (by decide) (by decide) (by decide)
  | restartValidation => exact move_effect applied (by decide) (by decide) (by decide)
  | decideLanding target reason => exact decideLanding_effect applied
  | parkAfterRecheck reason => exact move_effect applied (by decide) (by decide) (by decide)
  | parkAfterE2e reason => exact move_effect applied (by decide) (by decide) (by decide)
  | parkLive reason => exact move_effect applied (by decide) (by decide) (by decide)
  | parkForReplan reason => exact move_effect applied (by decide) (by decide) (by decide)
  | parkForHold reason => exact move_effect applied (by decide) (by decide) (by decide)
  | endForReplacement => exact move_effect applied (by decide) (by decide) (by decide)
  | endForRelease reason => exact move_effect applied (by decide) (by decide) (by decide)
  | abandon message =>
    rw [← Except.ok.inj applied]
    exact same_effect rfl rfl rfl
  | interrupt => exact interrupt_effect applied
  | beginIntegration => exact move_effect applied (by decide) (by decide) (by decide)
  | deferIntegration reason => exact move_effect applied (by decide) (by decide) (by decide)
  | holdIntegration reason => exact move_effect applied (by decide) (by decide) (by decide)
  | failIntegration reason => exact move_effect applied (by decide) (by decide) (by decide)
  | abortIntegration revertTo message => exact abortIntegration_effect applied
  | handOverIntegration revertTo => exact handOverIntegration_effect applied
  | finishIntegration commit => exact finishIntegration_effect applied
  | skipResume head approved => exact skipResume_effect applied
  | resolveApprovedResume head => exact resolveApprovedResume_effect applied
  | finishResume target reason => exact finishResume_effect applied
  | exhaustResumes reason =>
    obtain ⟨_, allows, applied⟩ := bind_ok applied
    rw [← Except.ok.inj applied]
    exact moved_effect (requireStatus_ok allows) (by decide) (by decide) (by decide)
  | resumeAfterTriage instruction =>
    obtain ⟨_, allows, applied⟩ := bind_ok applied
    rw [← Except.ok.inj applied]
    exact moved_effect (requireStatus_ok allows) (by decide) (by decide) (by decide)
  | handOffAfterTriage =>
    obtain ⟨_, allows, applied⟩ := bind_ok applied
    have failed := List.mem_singleton.mp (requireStatus_ok allows)
    rw [← Except.ok.inj applied]
    exact ⟨.moved .validating rfl (by rw [failed]; rfl) (by decide) (fun _ => rfl) (Or.inr rfl), rfl⟩
  | workspaceClosed closedAt =>
    obtain ⟨_, _, applied⟩ := bind_ok applied
    obtain ⟨_, _, applied⟩ := bind_ok applied
    rw [← Except.ok.inj applied]
    exact same_effect rfl rfl rfl
  | recordClosedWorkspace workspaceId closedAt => exact recordClosedWorkspace_effect applied
  | recordCloseFailure message =>
    obtain ⟨_, _, applied⟩ := bind_ok applied
    rw [← Except.ok.inj applied]
    exact same_effect rfl rfl rfl
  | recordCleanupFailure message =>
    rw [← Except.ok.inj applied]
    exact same_effect rfl rfl rfl

theorem execute_moved {command : Command} (applied : run.execute command = .ok after) :
    Moved run after := by
  by_cases claimed : command.setsWorker = false
  · exact (execute_effect claimed applied).1
  · cases command with
    | requesting worker =>
      rw [← Except.ok.inj applied]
      exact .same rfl rfl
    | runningOn worker =>
      rw [← Except.ok.inj applied]
      exact .same rfl rfl
    | _ => exact absurd rfl claimed

/-! ### What every run keeps -/

/-- What the fields of a run agree on: a landed run names its commit, and a run that names one has
been judged. -/
structure Consistent (run : TaskRun) : Prop where
  landed : run.status = .integrated → run.resultCommit.isSome = true
  judged : run.resultCommit.isSome = true → run.status.isJudged = true

theorem Consistent.moved (consistent : Consistent run) (moves : Moved run after) :
    Consistent after := by
  cases moves with
  | same status commit =>
    refine ⟨fun integrated => ?_, fun named => ?_⟩
    · rw [commit]
      exact consistent.landed (status.symm.trans integrated)
    · rw [commit] at named
      rw [status]
      exact consistent.judged named
  | moved target reaches unended other onward commit =>
    refine ⟨fun integrated => absurd (reaches.symm.trans integrated) other.1, fun named => ?_⟩
    rw [reaches]
    rcases commit with kept | cleared
    · rw [kept] at named
      exact onward (consistent.judged named)
    · rw [cleared] at named
      cases named
  | judged target reaches unended other isJudged =>
    refine ⟨fun integrated => absurd (reaches.symm.trans integrated) other, fun _ => ?_⟩
    rw [reaches]
    exact isJudged
  | landed landing target commit =>
    refine ⟨fun _ => commit, fun _ => ?_⟩
    rw [target]
    rfl
  | satisfied validating target commit =>
    refine ⟨fun integrated => (by rw [target] at integrated; cases integrated), fun named => ?_⟩
    rw [commit] at named
    cases named

/-- A status that is never left is kept by every command that is taken. -/
theorem Moved.final (moves : Moved run after) (final : run.status.isFinal = true) :
    after.status = run.status := by
  cases moves with
  | same status commit => exact status
  | moved target reaches unended other onward commit =>
    rw [final] at unended
    cases unended
  | judged target reaches unended other isJudged =>
    rw [final] at unended
    cases unended
  | landed landing target commit =>
    rw [landing] at final
    cases final
  | satisfied validating target commit =>
    rw [validating] at final
    cases final

/-- A step is a command that is taken, or leaves the run as it is. -/
theorem Step.cases {before after : TaskRun} (next : Step before after) :
    after = before ∨ Moved before after := by
  obtain ⟨command, rfl⟩ := next
  unfold perform
  cases result : before.execute command with
  | error error => exact Or.inl rfl
  | ok made => exact Or.inr (execute_moved result)

theorem Consistent.step {before after : TaskRun} (consistent : Consistent before)
    (next : Step before after) : Consistent after := by
  rcases next.cases with rfl | moves
  · exact consistent
  · exact consistent.moved moves

variable {id : String} {task : ClaimedTask} {baseCommit : CommitSha} {claimedAt : String}
  {first : TaskRun}

/-- What a claim starts is consistent. -/
theorem new_consistent (started : new id task baseCommit claimedAt = .ok first) :
    Consistent first := by
  obtain ⟨_, _, started⟩ := bind_ok started
  obtain ⟨_, _, started⟩ := bind_ok started
  rw [← Except.ok.inj started]
  exact ⟨fun integrated => (by cases integrated), fun named => (by cases named)⟩

theorem consistent_of_reached (started : new id task baseCommit claimedAt = .ok first)
    (reached : Reachable first Step run) : Consistent run :=
  reached.invariant Consistent (new_consistent started)
    fun _ _ _ consistent next => consistent.step next

/-- Whatever commands a run is given: a refused one leaves it as it was; landed, succeeded or
replaced it stays so; landed it names its commit, and it names one only once it is judged; and it
is restored from its record, and read back from its row, as it is. -/
theorem runs_consistent (started : new id task baseCommit claimedAt = .ok first)
    (reached : Reachable first Step run) :
    (∀ command error, (run.perform command).2 = some error → (run.perform command).1 = run) ∧
    (run.status.isFinal = true →
      ∀ later, Relation.ReflTransGen Step run later → later.status = run.status) ∧
    (run.status = .integrated → run.resultCommit.isSome = true) ∧
    (run.resultCommit.isSome = true → run.status.isJudged = true) ∧
    restore run.record = .ok run ∧ storedRunRow run.row = .ok run := by
  have consistent := consistent_of_reached started reached
  have restored := restore_record run consistent.landed
  refine ⟨fun command error refused => ?_, fun final later path => ?_, consistent.landed,
    consistent.judged, restored, (storedRunRow_row run).trans restored⟩
  · unfold perform at refused ⊢
    cases result : run.execute command with
    | error refusal => rfl
    | ok made =>
      rw [result] at refused
      cases refused
  · refine path_invariant path (fun state => state.status = run.status) rfl ?_
    intro before after same next
    rcases next.cases with rfl | moves
    · exact same
    · exact (moves.final (by rw [same]; exact final)).trans same

/-- The run after the commands, one after the other. -/
def performAll (run : TaskRun) (commands : List Command) : TaskRun :=
  commands.foldl (fun run command => (run.perform command).1) run

theorem reached_performAll (reached : Reachable first Step run) (commands : List Command) :
    Reachable first Step (run.performAll commands) := by
  induction commands generalizing run with
  | nil => exact reached
  | cons command rest inductionHypothesis =>
    exact inductionHypothesis (reached.step ⟨command, rfl⟩)

/-! ### Stored runs -/

/-- The rows a command saved, a refused one saving nothing. -/
def RowStep (before after : RunRow) : Prop :=
  ∃ command, command.setsWorker = false ∧
    (applyCommand before command = .ok after ∨
      ∃ error, applyCommand before command = .error error ∧ after = before)

/-- The row of a run saved after a command is the row of what the command made of it. -/
theorem applyCommand_row {command : Command} (claimed : command.setsWorker = false)
    (restored : storedRunRow run.row = .ok run) :
    applyCommand run.row command = (run.execute command).map row := by
  unfold applyCommand
  rw [restored]
  show (do
    let after ← run.execute command
    Except.ok (saveRunRow run.row after)) = _
  cases result : run.execute command with
  | error error => rfl
  | ok after => exact congrArg Except.ok (execute_effect claimed result).2

/-- Every row the claim and the commands of a run leave is the row of a run they make, and is read
back as that run. -/
theorem rows_read_back {stored : RunRow} (started : new id task baseCommit claimedAt = .ok first)
    (reached : Reachable first.row RowStep stored) :
    ∃ run, Reachable first Step run ∧ stored = run.row ∧ storedRunRow stored = .ok run := by
  refine reached.invariant
    (fun stored => ∃ run, Reachable first Step run ∧ stored = run.row ∧
      storedRunRow stored = .ok run) ?_ ?_
  · have consistent := new_consistent started
    exact ⟨first, .start, rfl, (storedRunRow_row first).trans (restore_record first consistent.landed)⟩
  · rintro before after _ ⟨run, runReached, rfl, restored⟩ ⟨command, claimed, applied⟩
    rcases applied with saved | ⟨error, refused, rfl⟩
    · rw [applyCommand_row claimed restored] at saved
      obtain ⟨made, executed, isRow⟩ := map_ok saved
      have next : Step run made := ⟨command, by unfold perform; rw [executed]⟩
      have madeReached := runReached.step next
      have consistent := consistent_of_reached started madeReached
      refine ⟨made, madeReached, isRow.symm, ?_⟩
      rw [← isRow, storedRunRow_row]
      exact restore_record made consistent.landed
    · exact ⟨run, runReached, rfl, restored⟩

/-- The row a claim inserts has every column of the run it starts. -/
theorem claimedRow_new (started : new id task baseCommit claimedAt = .ok first)
    (requested actual : Worker) :
    ((first.requesting requested).runningOn actual).claimedRow =
      ((first.requesting requested).runningOn actual).row := by
  obtain ⟨_, _, started⟩ := bind_ok started
  obtain ⟨_, _, started⟩ := bind_ok started
  rw [← Except.ok.inj started]
  rfl

/-! ### A run accepted and landed -/

def sampleCommit : CommitSha where
  text := "0123456789abcdef0123456789abcdef01234567"
  full := by decide +kernel

def sampleTask : ClaimedTask := ⟨7, .inProgress, ⟨.claude, .headless⟩⟩

/-- The run the claim of the task starts. -/
def claimedSample : TaskRun where
  id := "run"
  taskId := 7
  status := .claimed
  requestedProvider := .claude
  actualProvider := .claude
  workerMode := .headless
  baseCommit := sampleCommit
  branch := none
  worktreePath := none
  workspaceId := none
  receiptPath := none
  logPath := none
  resultCommit := none
  repoPath := none
  runDir := none
  lastError := none
  workspaceClosedAt := none
  createdAt := "2026-01-01T00:00:00Z"

theorem new_claimedSample :
    new "run" sampleTask sampleCommit "2026-01-01T00:00:00Z" = .ok claimedSample := by
  decide +kernel

/-- Provisioned, run and validated, its receipt accepted. -/
def acceptedSample : TaskRun :=
  claimedSample.performAll
    [.startProvisioning ⟨"/repo", "/q/runs/run", "dagq/run", "/q/worktrees/run",
      "/q/runs/run/receipt.json", "/q/runs/run/log"⟩, .markRunning, .finishSession none true,
      .accept sampleCommit]

/-- An accepted run names its commit and has not landed. -/
theorem accepted_not_integrated :
    ¬ ∀ (id : String) (task : ClaimedTask) (baseCommit : CommitSha) (claimedAt : String)
      (first run : TaskRun), new id task baseCommit claimedAt = .ok first →
      Reachable first Step run → run.resultCommit.isSome = true → run.status = .integrated := by
  intro integrated
  have landed := integrated "run" sampleTask sampleCommit "2026-01-01T00:00:00Z" claimedSample
    acceptedSample new_claimedSample (reached_performAll .start _) rfl
  exact absurd landed (by decide)

/-- Landed, and then refused a park. -/
def landedSample : TaskRun :=
  acceptedSample.performAll [.beginIntegration, .finishIntegration sampleCommit,
    .parkForReplan "again"]

theorem reached_landedSample : Reachable claimedSample Step landedSample := by
  have accepted : Reachable claimedSample Step acceptedSample := reached_performAll .start _
  exact reached_performAll accepted _

theorem runs_consistent_landed :
    landedSample.status = .integrated ∧ landedSample.resultCommit.isSome = true ∧
      restore landedSample.record = .ok landedSample := by
  have landed := runs_consistent new_claimedSample reached_landedSample
  exact ⟨by decide, landed.2.2.1 (by decide), landed.2.2.2.2.1⟩

end TaskRun

end Dagq.Runs
