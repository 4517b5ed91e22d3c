/-
This file models the restore of a parked run's clone as two parties that share
files: the control side, which hands a request, makes a clone again and records
the answer, and the executor, which fills a clone and answers. Each stops between
any two of its own writes and reads everything again; the worker changes the
clone, and the clone goes, at any time.

Beside the files, the system watches for which attempt a clone was made, for
which it was answered to be restored, and how many failures were recorded of the
restore when a request was handed.
-/

import Dagq.Clone.Work
import Dagq.Lib.Transition

namespace Dagq.Clone

open Dagq.Ledger Dagq.Lib

/-! ### The state -/

/-- A snapshot of a parked run's work, under the operation that parked it. -/
structure Saved where
  operation : Int
  generation : Int
  id : String
  base : String
  branch : String
  head : String
  /-- The head's bundle on top of the base. -/
  bundle : Part
  /-- The staged and the unstaged diff and the untracked files. -/
  files : List Part
  fits : checked operation = some operation

/-- The run's clone as its executor reads it: no state when its work cannot be read whole. -/
structure RunClone where
  state : Option WorktreeState
  gitOperation : Option String
  /-- Watched: the attempt the control side made it for. -/
  madeFor : Option Key
  /-- Watched: the attempt it was answered to be restored at. -/
  restoredFor : Option Key

/-- What the control side is to write. -/
inductive Control where
  | idle
  /-- The request, and then the clone when `remake`. -/
  | handing (request : RestoreRequest) (remake : Bool)
  | making (request : RestoreRequest)

/-- What the executor is to write, to a request handed after so many failures. -/
inductive Executor where
  | idle
  | answering (result : RestoreResult) (handedAt : Nat)

structure System where
  saved : Saved
  /-- The payloads of the failures recorded of the run's restores. -/
  failures : List Value
  /-- The request in the run directory: none of it when it does not read back. -/
  request : Option (Option RestoreRequest)
  answer : Option RestoreResult
  clone : Option RunClone
  control : Control
  executor : Executor
  /-- Watched: the snapshots saved before. -/
  past : List String
  /-- Watched: the failures recorded of its snapshot's restore when the request was handed. -/
  handedAt : Nat
  /-- Watched: the failures recorded when the request was handed that was answered last. -/
  answeredAt : Nat

/-- A run parked with a snapshot, its clone as the park left it. -/
def parked (saved : Saved) (clone : Option (Option WorktreeState × Option String)) : System where
  saved := saved
  failures := []
  request := none
  answer := none
  clone := clone.map fun found => ⟨found.1, found.2, none, none⟩
  control := .idle
  executor := .idle
  past := []
  handedAt := 0
  answeredAt := 0

namespace System

variable (system : System)

/-! ### The control side -/

/-- The failures recorded of the restore under way. -/
def failed : Nat := failuresOf system.failures system.saved.operation system.saved.id

def attempt : Nat := restoreAttempt system.failures system.saved.operation system.saved.id

/-- The attempt under way. -/
def current : Key := (system.saved.id, system.attempt)

def handed : Option Handed :=
  system.request.map fun request =>
    request.map fun request => (request.snapshotId, request.attempt, request.remade)

/-- The step the control side takes, reading the run directory. -/
def controlStep (resuming : Bool) : CloneRestore :=
  cloneRestore system.saved.id system.attempt system.clone.isSome system.handed system.answer
    resuming

def restoreRequest (remade : Bool) : RestoreRequest where
  snapshotId := system.saved.id
  attempt := system.attempt
  base := system.saved.base
  branch := system.saved.branch
  head := system.saved.head
  remade := remade
  parts :=
    (if remade = true ∧ system.saved.head ≠ system.saved.base then [system.saved.bundle] else []) ++
      system.saved.files

/-- The payload of a failure recorded of the restore under way. -/
def failurePayload (why : String) : Value :=
  .object [("operation_id", .int system.saved.operation),
    ("generation", .int system.saved.generation), ("snapshot_id", .text system.saved.id),
    ("reason", .text why)]

def recordFailure (why : String) : System :=
  { system with failures := system.failures ++ [system.failurePayload why] }

/-- What a record of the answer leaves: a restore that was done, or a failure. -/
def recordOutcome : Except String String → System
  | .ok _ => system
  | .error why => system.recordFailure why

/-- What the control side reads from the resume's slot: an answer to the attempt under way. -/
def collected : Option (Except String String) :=
  (system.answer.filter fun answer => answer.answers system.saved.id system.attempt).map
    RestoreResult.outcome

def writeRequest (request : RestoreRequest) (remake : Bool) : System :=
  { system with
    request := some (some request)
    control := if remake then .making request else .idle
    handedAt := system.failed }

/-- A clone at the base of a request, with nothing uncommitted. -/
def madeClone (request : RestoreRequest) : RunClone where
  state := some
    { head := request.base, index := emptySha, worktree := emptySha, untracked := [] }
  gitOperation := none
  madeFor := some request.key
  restoredFor := none

def makeClone (request : RestoreRequest) : System :=
  { system with clone := some (madeClone request), control := .idle }

/-! ### The executor -/

/-- What the executor comes to at a turn's start. -/
inductive Taken where
  /-- No restore is handed: the turn goes on. -/
  | nothing
  /-- A request that cannot be read or is of another branch: no agent runs. -/
  | unread
  /-- The clone cannot be compared with the snapshot. -/
  | unreadable (request : RestoreRequest)
  | took (request : RestoreRequest) (step : ExecutorRestore)

/-- The executor of a run on `branch` takes the request in the run directory. -/
def executorStep (branch : String) : Taken :=
  match system.request with
  | none => .nothing
  | some none => .unread
  | some (some request) =>
    if request.branch ≠ branch then .unread
    -- Answered before: the turns since changed the clone, which is not read.
    else if (system.answer.any fun answer =>
        answer.answers request.snapshotId request.attempt && answer.restored) = true then
      .took request .done
    else
      match system.clone.bind fun clone => clone.state.map fun state => (clone, state) with
      | none => .unreadable request
      | some (clone, state) =>
        .took request (executorRestore request system.answer state clone.gitOperation)

def answerTo (request : RestoreRequest) : Except String String → RestoreResult
  | .ok action => ⟨request.snapshotId, request.attempt, some action, none⟩
  | .error why => ⟨request.snapshotId, request.attempt, none, some why⟩

/-- The executor is to answer `request`. -/
def answering (request : RestoreRequest) (outcome : Except String String) : System :=
  { system with executor := .answering (answerTo request outcome) system.handedAt }

/-- The clone with the contents a write left in it. -/
def changed (state : Option WorktreeState) (gitOperation : Option String) : System :=
  { system with
    clone := system.clone.map fun clone =>
      { clone with state := state, gitOperation := gitOperation } }

/-- The executor's answer, with the clone marked that it says is restored. -/
def writeAnswer (result : RestoreResult) (handedAt : Nat) : System :=
  { system with
    answer := some result
    clone := system.clone.map fun clone =>
      if result.restored then { clone with restoredFor := some result.key } else clone
    executor := .idle
    answeredAt := handedAt }

/-- A refusal that is to be answered: not one answered before. -/
def refusedAnew (request : RestoreRequest) : Bool :=
  system.answer.all fun answer => !answer.answers request.snapshotId request.attempt

end System

/-! ### The steps -/

/-- One step of the control side, the executor, the worker or what takes the clone away. -/
inductive Step : System → System → Prop
  /-- The control side reads the run directory and is to hand the restore. -/
  | hand {system : System} {resuming remake remade : Bool} (idle : system.control = .idle)
      (step : system.controlStep resuming = .hand remake remade) :
      Step system { system with control := .handing (system.restoreRequest remade) remake }
  | writeRequest {system : System} {request : RestoreRequest} {remake : Bool}
      (handing : system.control = .handing request remake) :
      Step system (system.writeRequest request remake)
  | makeClone {system : System} {request : RestoreRequest}
      (making : system.control = .making request) (gone : system.clone = none) :
      Step system (system.makeClone request)
  | record {system : System} {resuming : Bool} {outcome : Except String String}
      (idle : system.control = .idle) (step : system.controlStep resuming = .record outcome) :
      Step system (system.recordOutcome outcome)
  /-- The answer is recorded from the resume's slot. -/
  | collect {system : System} {outcome : Except String String} (idle : system.control = .idle)
      (found : system.collected = some outcome) : Step system (system.recordOutcome outcome)
  | fail {system : System} {resuming : Bool} {why : String} (idle : system.control = .idle)
      (step : system.controlStep resuming = .fail why) : Step system (system.recordFailure why)
  /-- The restore fails otherwise: what it needs cannot be read, or no session starts. -/
  | failOtherwise {system : System} (why : String) (idle : system.control = .idle) :
      Step system (system.recordFailure why)
  /-- The run is parked again, with a snapshot of another name. -/
  | park {system : System} (saved : Saved) (idle : system.control = .idle)
      (named : saved.id ∉ system.saved.id :: system.past) :
      Step system { system with saved := saved, past := system.saved.id :: system.past }
  | restartControl {system : System} : Step system { system with control := .idle }
  /-- The executor compares the clone and is to say that it is as saved. -/
  | intact {system : System} {branch : String} {request : RestoreRequest}
      (idle : system.executor = .idle)
      (step : system.executorStep branch = .took request .intact) :
      Step system (system.answering request (.ok "intact"))
  /-- The executor fills the clone, which then is as saved. -/
  | fill {system : System} {branch : String} {request : RestoreRequest}
      (idle : system.executor = .idle) (step : system.executorStep branch = .took request .fill)
      (filled : WorktreeState) (gitOperation : Option String)
      (asSaved : compare request.state filled = .intact) :
      Step system ((system.changed (some filled) gitOperation).answering request (.ok "recreated"))
  /-- The executor could not fill the clone, and is to say why. -/
  | fillFailed {system : System} {branch : String} {request : RestoreRequest}
      (idle : system.executor = .idle) (step : system.executorStep branch = .took request .fill)
      (left : Option WorktreeState) (gitOperation : Option String) (why : String) :
      Step system ((system.changed left gitOperation).answering request (.error why))
  /-- The executor stops while it fills the clone. -/
  | fillStopped {system : System} {branch : String} {request : RestoreRequest}
      (idle : system.executor = .idle) (step : system.executorStep branch = .took request .fill)
      (left : Option WorktreeState) (gitOperation : Option String) :
      Step system (system.changed left gitOperation)
  | refuse {system : System} {branch : String} {request : RestoreRequest} {why : String}
      (idle : system.executor = .idle)
      (step : system.executorStep branch = .took request (.refuse why))
      (anew : system.refusedAnew request = true) : Step system (system.answering request (.error why))
  | unreadable {system : System} {branch : String} {request : RestoreRequest} (why : String)
      (idle : system.executor = .idle) (step : system.executorStep branch = .unreadable request) :
      Step system (system.answering request (.error why))
  | writeAnswer {system : System} {result : RestoreResult} {handedAt : Nat}
      (answering : system.executor = .answering result handedAt) :
      Step system (system.writeAnswer result handedAt)
  | restartExecutor {system : System} : Step system { system with executor := .idle }
  /-- The worker changes the clone. -/
  | work {system : System} (state : Option WorktreeState) (gitOperation : Option String) :
      Step system (system.changed state gitOperation)
  | removed {system : System} : Step system { system with clone := none }
  /-- The clone is removed with the request, and then with the answer. -/
  | cleaned {system : System} (all : Bool) :
      Step system
        { system with
          clone := none
          request := none
          answer := if all then none else system.answer }
  /-- The request does not read back. -/
  | spoiled {system : System} : Step system { system with request := some none }

end Dagq.Clone
