/-
This file models where a replanning operation is: its statuses, what each says
of the operation, and the table of the moves from one to another.
-/

import Mathlib.Data.Fintype.Basic
import Mathlib.Tactic

namespace Dagq.Replan

inductive ReplanStatus where
  | candidate
  | diagnosing
  | continuing
  | pauseRequested
  | quiescing
  | snapshotting
  | parked
  | planning
  | reviewing
  | awaitingAnswer
  | applying
  | applied
  | continuingAfterPark
  | withdrawn
  | blocked
  deriving DecidableEq, Repr

namespace ReplanStatus

def asStr : ReplanStatus → String
  | candidate => "candidate"
  | diagnosing => "diagnosing"
  | continuing => "continuing"
  | pauseRequested => "pause_requested"
  | quiescing => "quiescing"
  | snapshotting => "snapshotting"
  | parked => "parked"
  | planning => "planning"
  | reviewing => "reviewing"
  | awaitingAnswer => "awaiting_answer"
  | applying => "applying"
  | applied => "applied"
  | continuingAfterPark => "continuing_after_park"
  | withdrawn => "withdrawn"
  | blocked => "blocked"

def all : List ReplanStatus :=
  [candidate, diagnosing, continuing, pauseRequested, quiescing, snapshotting, parked, planning,
    reviewing, awaitingAnswer, applying, applied, continuingAfterPark, withdrawn, blocked]

instance : Fintype ReplanStatus where
  elems := all.toFinset
  complete status := by cases status <;> decide

/-- Whether the operation has ended. -/
def isClosed : ReplanStatus → Bool
  | continuing | applied | continuingAfterPark | withdrawn => true
  | _ => false

/-- Whether the operation guards its task: from the pause's fence until it ends. -/
def guards (status : ReplanStatus) : Bool :=
  !status.isClosed && status != candidate && status != diagnosing

/-- Whether the operation holds a complete snapshot from here on. -/
def needsSnapshot : ReplanStatus → Bool
  | parked | planning | reviewing | awaitingAnswer | applying | applied => true
  | _ => false

/-- Whether a move here ends the operation's planning request undecided. -/
def endsRequestUndecided (status : ReplanStatus) (plannerOpen : Bool) : Bool :=
  status.isClosed && !plannerOpen

/-- Whether the operation is with the planner. -/
def handsToPlanner : ReplanStatus → Bool
  | parked | planning | reviewing | awaitingAnswer => true
  | _ => false

/-- Whether a move to `target` records a new request in place of one declined at a close. -/
def renewsRequest (status target : ReplanStatus) (declinedAtClose : Bool) : Bool :=
  !status.handsToPlanner && target.handsToPlanner && declinedAtClose

/-- Whether the operation, closed, is moved again: its saved work could not be restored. -/
def reopens : ReplanStatus → Bool
  | continuingAfterPark | withdrawn => true
  | _ => false

/-- The statuses the runtime moves an operation in this one to. -/
def next : ReplanStatus → List ReplanStatus
  | candidate => [diagnosing, continuing, pauseRequested]
  | diagnosing => [diagnosing, continuing, pauseRequested, blocked]
  | pauseRequested => [quiescing, snapshotting, continuing, blocked]
  | quiescing => [snapshotting, continuing, blocked]
  | snapshotting => [parked, continuing, blocked]
  | parked => [planning, continuingAfterPark, blocked]
  | planning => [reviewing, continuingAfterPark, withdrawn, blocked]
  | reviewing | awaitingAnswer =>
    [planning, reviewing, awaitingAnswer, applying, continuingAfterPark, withdrawn, blocked]
  | applying => [applied, blocked]
  | blocked =>
    [quiescing, snapshotting, parked, planning, reviewing, applying, continuingAfterPark, withdrawn]
  | continuingAfterPark | withdrawn => [blocked]
  | continuing | applied => []

def canMoveTo (status target : ReplanStatus) : Bool := status.next.contains target

/-- Whether the operation was fenced, or has ended: past `candidate` and `diagnosing`. -/
def settled (status : ReplanStatus) : Bool := status.guards || status.isClosed

/-! ### What the table of moves keeps -/

theorem not_guards_of_closed {status : ReplanStatus} (closed : status.isClosed = true) :
    status.guards = false := by
  rw [guards, closed]
  rfl

/-- No move leads back to `candidate` or `diagnosing` once past them. -/
theorem settled_of_canMoveTo : ∀ {status target : ReplanStatus}, status.settled = true →
    status.canMoveTo target = true → target.settled = true := by
  decide

theorem closed_of_reopens : ∀ {status : ReplanStatus}, status.reopens = true →
    status.isClosed = true := by
  decide

/-- An operation closed in a continuation or a withdrawal is left for `blocked` only, which keeps
its generation. -/
theorem blocked_of_reopens : ∀ {status target : ReplanStatus}, status.reopens = true →
    status.canMoveTo target = true → target = blocked := by
  decide

theorem not_closed_of_handsToPlanner : ∀ {status : ReplanStatus}, status.handsToPlanner = true →
    status.isClosed = false := by
  decide

end ReplanStatus

end Dagq.Replan
