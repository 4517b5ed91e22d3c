/-
This file models the statuses of a task and what moves it between them by hand
or by plan review. A claim alone marks a task in progress, its run alone
completes it, and an applied replacement alone replaces it.
-/

import Mathlib.Tactic

namespace Dagq.Queue

inductive TaskStatus where
  | draft
  | submitted
  | ready
  | inProgress
  | completed
  | canceled
  | replaced
  deriving DecidableEq, Repr

/-- What moves a task by hand or by plan review. -/
inductive TaskAction where
  | ready
  | draft
  | cancel
  | submit
  | approve
  | bypassReview
  | reopen
  deriving DecidableEq, Repr

/-- Why a task is not moved. -/
inductive TransitionError where
  | readyNeedsPlanReview (status : TaskStatus)
  | taskHasUnfinishedRun (action : TaskAction)
  | transitionNotAllowed (status : TaskStatus) (action : TaskAction)
  deriving DecidableEq, Repr

namespace TaskStatus

def asStr : TaskStatus → String
  | draft => "draft"
  | submitted => "submitted"
  | ready => "ready"
  | inProgress => "in_progress"
  | completed => "completed"
  | canceled => "canceled"
  | replaced => "replaced"

/-- The status an action moves a task to, which still owns a run that goes on when
`unfinishedRun`. -/
def transition (status : TaskStatus) (action : TaskAction) (unfinishedRun : Bool) :
    Except TransitionError TaskStatus :=
  match status, action with
  | draft, .submit => .ok submitted
  | ready, .reopen => .ok submitted
  | submitted, .approve | draft, .bypassReview | submitted, .bypassReview => .ok ready
  | draft, .ready | submitted, .ready => .error (.readyNeedsPlanReview status)
  | ready, .draft | submitted, .draft => .ok draft
  | draft, .cancel | submitted, .cancel | ready, .cancel => .ok canceled
  | inProgress, action =>
    if unfinishedRun then .error (.taskHasUnfinishedRun action)
    else match action with
      | .ready => .ok ready
      | .draft => .ok draft
      | .cancel => .ok canceled
      | _ => .error (.transitionNotAllowed status action)
  | _, _ => .error (.transitionNotAllowed status action)

/-- Whether the task's dependencies, goal and paths may change: before it is claimed. -/
def dependenciesEditable : TaskStatus → Bool
  | draft | submitted | ready => true
  | _ => false

/-- Whether the priority of its own may change: until the task has ended. -/
def priorityEditable (status : TaskStatus) : Bool :=
  status.dependenciesEditable || status == inProgress

/-- Whether the task's content may be edited. -/
def contentEditable : TaskStatus → Bool
  | draft | submitted => true
  | _ => false

/-- Whether the task has ended. -/
def isTerminal : TaskStatus → Bool
  | completed | canceled | replaced => true
  | _ => false

end TaskStatus

end Dagq.Queue
