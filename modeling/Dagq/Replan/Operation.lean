/-
This file models one replanning operation as a value: what is recorded of it,
whether it takes a move under the generation it was read at, the generation a
move leaves it at, which of a task's operations is kept at a new run, and where
a person's resolution moves it.
-/

import Dagq.Lib.Checks
import Dagq.Lib.Text
import Dagq.Queue.TaskStatus
import Dagq.Replan.Status

namespace Dagq.Replan

open Dagq.Lib Dagq.Queue

/-! ### What is recorded -/

inductive ReplanOrigin where
  | manual
  | worker
  | runtime
  deriving DecidableEq, Repr

/-- What a decision on a diagnosis read, checked again by the move that applies it. -/
structure DiagnosisPremise where
  runStatus : String
  readUntil : Option Nat := none
  head : Option String := none
  manual : Option Bool := none
  maxAutoParks : Option Nat := none
  deriving DecidableEq, Repr

structure Diagnosis where
  evidence : List Nat := []
  summary : Option String := none
  premise : Option DiagnosisPremise := none
  deriving DecidableEq, Repr

structure ReplanOperation where
  id : Nat
  taskId : Nat
  runId : String
  goalId : Option Nat
  origin : ReplanOrigin
  status : ReplanStatus
  statusReason : Option String
  /-- Raised at the pause's fence and at each adoption: a write under an older one is refused. -/
  generation : Int
  /-- The step a `blocked` operation goes back to. -/
  returnPhase : Option ReplanStatus
  reason : String
  diagnosis : Diagnosis
  snapshotId : Option String
  requestId : Option Nat
  proposalId : Option Nat
  requestedBy : String
  requestedById : String
  updatedAt : Int
  closedAt : Option Int
  deriving DecidableEq, Repr

/-- A move of an operation by the runtime. -/
structure ReplanMove where
  target : ReplanStatus
  reason : String
  snapshotId : Option String := none
  diagnosis : Option Diagnosis := none
  deriving DecidableEq, Repr

/-- A request or a proposal of an operation on a run. -/
structure NewReplan where
  run : String
  reason : String
  evidence : List Nat
  deriving DecidableEq, Repr

/-- Why a write of the operations is refused. -/
inductive ReplanError where
  | replanGenerationStale (operation : Nat) (expected actual : Int)
  | replanMoveNotAllowed (operation : Nat) (source target : ReplanStatus)
  | replanApplyUnavailable (operation : Nat)
  | replanNeedsSnapshot (operation : Nat) (target : ReplanStatus)
  | replanNotResolvable (operation : Nat) (reason : String)
  | replanDiagnosisHeld (operation taskId hold : Nat)
  | blank (field : String)
  | refused (reason : String)
  deriving DecidableEq, Repr

def require (holds : Bool) (error : ReplanError) : Except ReplanError Unit :=
  if holds then .ok () else .error error

def NewReplan.validate (new : NewReplan) : Except ReplanError Unit :=
  require (!isBlank new.reason) (.blank "reason")

/-! ### A move -/

/-- Whether the operation, read under `generation`, moves as `step` says; into `applying` and
`applied` only by the runtime's apply. -/
def checkMoveAs (op : ReplanOperation) (generation : Int) (step : ReplanMove) (apply : Bool) :
    Except ReplanError Unit := do
  require (op.generation = generation)
    (.replanGenerationStale op.id generation op.generation)
  require (op.status.canMoveTo step.target) (.replanMoveNotAllowed op.id op.status step.target)
  require (apply || (step.target != .applying && step.target != .applied))
    (.replanApplyUnavailable op.id)
  require (!step.target.needsSnapshot || step.snapshotId.isSome || op.snapshotId.isSome)
    (.replanNeedsSnapshot op.id step.target)
  require (!isBlank step.reason) (.blank "reason")

/-- The generation after a move: one more at the pause's fence and at each claim for a
diagnosis. -/
def generationAfter (source target : ReplanStatus) (generation : Int) : Int :=
  if (target = .pauseRequested && !source.guards) || target = .diagnosing then generation + 1
  else generation

/-- Whether the move needs the operation to be its task's only open one. -/
def needsTaskAlone (source target : ReplanStatus) : Bool := !target.isClosed && !source.guards

/-! ### One operation of a task -/

/-- The one of a task's open operations that is the task's: the one that guards it, else the
newest. -/
def current (opened : List ReplanOperation) : Option ReplanOperation :=
  (opened.find? fun op => op.status.guards).or opened.getLast?

/-- What becomes of the operations open on a task at its latest run. -/
structure Carry where
  kept : Option Nat
  moved : Option (Nat × Int)
  superseded : List Nat
  deriving DecidableEq, Repr

def carry (opened : List ReplanOperation) (latest : String) : Carry :=
  match current opened with
  | none => ⟨none, none, []⟩
  | some kept =>
    { kept := some kept.id
      moved := if !kept.status.guards && kept.runId ≠ latest then some (kept.id, kept.generation + 1)
        else none
      superseded := (opened.filter fun op => op.id ≠ kept.id && !op.status.guards).map
        ReplanOperation.id }

/-- What a request on a run does with the task's operation. -/
inductive Request where
  | join (operation : Nat)
  | refuse (operation : Nat)
  | open_
  deriving DecidableEq, Repr

def requestOn (kept : Option ReplanOperation) (run : String) : Request :=
  match kept with
  | some op => if op.runId = run || op.status.guards then .join op.id else .refuse op.id
  | none => .open_

/-! ### A person's resolution -/

inductive ReplanResolution where
  | continue
  | withdraw
  | replan
  deriving DecidableEq, Repr

/-- What a person makes of a blocked operation. -/
structure ResolveReplan where
  operation : Nat
  generation : Int
  resolution : ReplanResolution
  reason : String
  deriving DecidableEq, Repr

def ReplanResolution.describe : ReplanResolution → String
  | .continue => "continue the run on its saved work"
  | .withdraw => "withdraw the plan and continue the run on its saved work"
  | .replan => "plan it again"

/-- What a resolution is read against: the operation, the generation the person read, the tasks of
the replacement proposal, and why the snapshot is not as saved. -/
structure ResolveState where
  operation : ReplanOperation
  generation : Int
  resolution : ReplanResolution
  children : List (Nat × TaskStatus)
  snapshotProblem : Option String

/-- Where a resolution moves the operation, or why it does not take one. -/
def resolveTo (state : ResolveState) : Except ReplanError ReplanStatus :=
  let op := state.operation
  let refuse := fun reason => Except.error (ReplanError.replanNotResolvable op.id reason)
  if op.status.isClosed then
    refuse (s!"it is closed as {op.status.asStr}, so there is nothing to resolve")
  else if op.status ≠ .blocked then
    refuse (s!"it is {op.status.asStr}, not blocked: the runtime moves it on")
  else if op.generation ≠ state.generation then
    refuse (s!"it is at generation {op.generation}, not {state.generation}: read it again " ++
      s!"(`replans {op.id}`) and decide on what it is now")
  else if op.returnPhase = some .applying then
    refuse ("it was held at its apply, which the runtime's planner pass checks again and sends " ++
      "back to a planner itself; a snapshot that does not match is not resolved here")
  else match state.snapshotProblem with
    | some problem =>
      refuse (s!"its snapshot is not as the park saved it, and no choice overwrites it: {problem}")
    | none => match state.children.find? fun child =>
        child.2 ≠ .draft && child.2 ≠ .submitted && child.2 ≠ .canceled with
      | some (task, status) =>
        refuse (s!"task {task} of its replacement proposal is {status.asStr}: a child that may " ++
          "be claimed is not released")
      | none => match state.resolution with
        | .continue => .ok .continuingAfterPark
        | .withdraw => .ok .withdrawn
        | .replan =>
          if op.snapshotId.isSome then .ok .parked
          else if op.returnPhase = some .snapshotting then .ok .snapshotting
          else .ok .quiescing

/-! ### What the checks say -/

theorem require_ok {holds : Bool} {error : ReplanError} {checked : Unit}
    (passed : require holds error = .ok checked) : holds = true := by
  unfold require at passed
  split at passed
  · assumption
  · cases passed

/-- A move is taken under the operation's own generation, along the table. -/
theorem checkMoveAs_ok {op : ReplanOperation} {generation : Int} {step : ReplanMove}
    {apply : Bool} {checked : Unit}
    (passed : checkMoveAs op generation step apply = .ok checked) :
    op.generation = generation ∧ op.status.canMoveTo step.target = true := by
  obtain ⟨_, sameGeneration, passed⟩ := bind_ok passed
  obtain ⟨_, moves, _⟩ := bind_ok passed
  exact ⟨of_decide_eq_true (require_ok sameGeneration), require_ok moves⟩

theorem le_generationAfter (source target : ReplanStatus) (generation : Int) :
    generation ≤ generationAfter source target generation := by
  unfold generationAfter
  split
  · exact Int.le_of_lt (Int.lt_succ generation)
  · exact le_rfl

/-- Only a blocked operation at the generation the person read takes a resolution, and only to a
status the table moves it to. -/
theorem resolveTo_ok {state : ResolveState} {target : ReplanStatus}
    (passed : resolveTo state = .ok target) :
    state.operation.status = .blocked ∧ state.operation.generation = state.generation := by
  unfold resolveTo at passed
  simp only at passed
  split at passed
  · cases passed
  · split at passed
    · cases passed
    · rename_i blocked
      split at passed
      · cases passed
      · rename_i sameGeneration
        exact ⟨not_not.mp blocked, not_not.mp sameGeneration⟩

end Dagq.Replan
