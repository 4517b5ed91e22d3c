/-
This file models what an apply of a replacement is checked for right before it: the operation,
its latest plan and the plan's approval, the task with its parked run, the children and the
tasks that wait for the task. Every problem is named with what it calls for, and a refusal for
several goes by the gravest.
-/

import Dagq.Replan.CheckPlan
import Dagq.Replan.ClosesLoop
import Dagq.Runs.Row

namespace Dagq.Replan

open Dagq.Lib Dagq.Queue Dagq.Runs

/-! ### Names -/

def PlanProblemCode.asStr : PlanProblemCode → String
  | operationMismatch => "operation_mismatch"
  | notWithPlanner => "not_with_planner"
  | versionStale => "version_stale"
  | blankRationale => "blank_rationale"
  | noChildren => "no_children"
  | childUnknown => "child_unknown"
  | childNotMember => "child_not_member"
  | childNotPending => "child_not_pending"
  | memberNotChild => "member_not_child"
  | originalAsChild => "original_as_child"
  | goalMismatch => "goal_mismatch"
  | itemUnmapped => "item_unmapped"
  | itemUnknown => "item_unknown"
  | itemRepeated => "item_repeated"
  | childItemMissing => "child_item_missing"
  | deletionUnauthorized => "deletion_unauthorized"
  | landedUnproven => "landed_unproven"
  | childHoldsNothing => "child_holds_nothing"
  | verificationWeakened => "verification_weakened"
  | evidenceDropped => "evidence_dropped"
  | pathsMissing => "paths_missing"
  | carryUnclear => "carry_unclear"
  | predecessorDropped => "predecessor_dropped"
  | dependencyCycle => "dependency_cycle"
  | successorUnmapped => "successor_unmapped"
  | successorUnknown => "successor_unknown"
  | successorNeedsUnclear => "successor_needs_unclear"
  | successorStarted => "successor_started"

inductive ProposalStatus where
  | submitted
  | revising
  | accepted
  | canceled
  deriving DecidableEq, Repr

def ProposalStatus.asStr : ProposalStatus → String
  | submitted => "submitted"
  | revising => "revising"
  | accepted => "accepted"
  | canceled => "canceled"

/-! ### What the apply reads -/

/-- A plan an operation was submitted with, and when plan review approved it. -/
structure PlanRevision where
  revision : Int
  proposalId : Nat
  plan : ReplacementPlan
  hash : String
  approvedAt : Option Int

structure ApplyState where
  operation : ReplanOperation
  /-- The generation the operation was read under. -/
  generation : Int
  plan : Option PlanRevision
  /-- The status of the proposal the plan went with. -/
  proposal : Option ProposalStatus
  task : TaskStatus
  run : RunStatus
  runLeased : Bool
  children : Ordered Nat TaskStatus
  /-- The versions of the children's conditions. -/
  childVersions : Ordered Nat String
  /-- The versions plan review approved, none where none were recorded. -/
  approvedChildren : Option (Ordered Nat String)
  /-- The tasks that wait for the task and have not ended. -/
  successors : Ordered Nat TaskStatus
  planProblems : List PlanProblem

/-- What becomes of a refused apply: it is checked again, a planner makes a new plan, or a person
decides. -/
inductive ApplyRecovery where
  | retry
  | replan
  | person
  deriving DecidableEq, Repr

structure ApplyProblem where
  recovery : ApplyRecovery
  reason : String
  deriving DecidableEq, Repr

def ApplyRecovery.gravity : ApplyRecovery → Nat
  | retry => 0
  | replan => 1
  | person => 2

/-- The graver of what was called for so far and what a problem calls for. -/
def graver (first : Option ApplyRecovery) (second : ApplyRecovery) : Option ApplyRecovery :=
  match first with
  | some first => if second.gravity < first.gravity then some first else some second
  | none => some second

def recoveryOf (problems : List ApplyProblem) : Option ApplyRecovery :=
  (problems.map ApplyProblem.recovery).foldl graver none

/-! ### The problems -/

def applyIf (found : Bool) (recovery : ApplyRecovery) (reason : String) : List ApplyProblem :=
  if found then [⟨recovery, reason⟩] else []

@[simp]
theorem applyIf_eq_nil {found : Bool} {recovery : ApplyRecovery} {reason : String} :
    applyIf found recovery reason = [] ↔ found = false := by
  unfold applyIf
  cases found <;> simp

/-- The operation waits for its apply under the generation it was read with. -/
def operationProblems (state : ApplyState) : List ApplyProblem :=
  let op := state.operation
  let waiting := op.status == .reviewing || op.status == .applying ||
    (op.status == .blocked && op.returnPhase == some .applying)
  applyIf (op.generation != state.generation) .retry
      s!"replan operation {op.id} is at generation {op.generation}, read at {state.generation}" ++
    applyIf (!waiting) .retry
      s!"replan operation {op.id} is {op.status.asStr}, not waiting for its apply"

def debugProposal (proposal : Nat) : String := s!"ProposalId({proposal})"

/-- The latest plan was approved, with the operation's proposal, which is accepted. -/
def revisionProblems (state : ApplyState) : List ApplyProblem :=
  let op := state.operation
  match state.plan with
  | none => [⟨.replan, s!"replan operation {op.id} has no plan"⟩]
  | some plan =>
    let named := ((state.proposal.map ProposalStatus.asStr).getD "missing")
    applyIf plan.approvedAt.isNone .replan
        s!"plan revision {plan.revision} of replan operation {op.id} was not approved by plan review" ++
      applyIf (op.proposalId != some plan.proposalId) .replan
        s!"plan revision {plan.revision} goes with proposal {plan.proposalId}, the operation names {debugOption debugProposal op.proposalId}" ++
      applyIf (state.proposal != some .accepted) .replan
        s!"proposal {plan.proposalId} is {named}, not accepted"

/-- What the check of the plan finds, but that it left its planner. -/
def checkProblems (state : ApplyState) : List ApplyProblem :=
  (state.planProblems.filter (·.code != .notWithPlanner)).map fun problem =>
    ⟨.replan, s!"{problem.code.asStr}: {problem.reason}"⟩

/-- The task is in progress, its parked run at rest. -/
def taskProblems (state : ApplyState) : List ApplyProblem :=
  let op := state.operation
  let leased := if state.runLeased then " and leased" else ""
  applyIf (state.task != .inProgress) .retry
      s!"task {op.taskId} is {state.task.asStr}, not in progress" ++
    applyIf (state.run != .needsSession || state.runLeased) .retry
      s!"run {op.runId} is {state.run.asStr}{leased}, not parked at rest"

/-- No child has started. -/
def childProblems (state : ApplyState) : List ApplyProblem :=
  state.children.entries.flatMap fun child =>
    applyIf (child.2 != .submitted) .replan s!"child task {child.1} is {child.2.asStr}, not submitted"

/-- No child has changed since the plan was approved. -/
def versionProblems (state : ApplyState) : List ApplyProblem :=
  if state.plan.any (·.approvedAt.isSome) then
    match state.approvedChildren with
    | none => [⟨.replan, "plan review's approval recorded no version of the children"⟩]
    | some approved => state.childVersions.entries.flatMap fun child =>
      let before := (approved.get? child.1).getD "(none)"
      applyIf (approved.get? child.1 != some child.2) .replan
        s!"child task {child.1} changed since plan review approved the plan (its conditions were at version {before}, they are at {child.2})"
  else []

/-- No task that waits for the task has started. -/
def successorProblems (state : ApplyState) : List ApplyProblem :=
  state.successors.entries.flatMap fun successor =>
    applyIf (!successor.2.dependenciesEditable) .replan
      s!"task {successor.1} waits for task {state.operation.taskId} and is {successor.2.asStr} already"

/-- Why the apply cannot go now; with none it applies. -/
def applyProblems (state : ApplyState) : List ApplyProblem :=
  operationProblems state ++ revisionProblems state ++ checkProblems state ++ taskProblems state ++
    childProblems state ++ versionProblems state ++ successorProblems state

/-! ### Whom the successors wait for -/

/-- Which children each task that waits for the task waits for in its place: those the plan names
for one it lists, every child for one it does not. -/
def successorEdges (plan : ReplacementPlan) (successors : List Nat) : List (Nat × List Nat) :=
  successors.map fun successor =>
    (successor, ((plan.successors.find? fun listed => listed.taskId == successor).map
      PlanSuccessor.needs).getD plan.childIds)

end Dagq.Replan
