/-
This file models what is checked and decided of the restore of a run's work in
its clone: how a clone is compared with the snapshot, the step of the executor
before a turn's agent runs, and the step of the control side that reads the run
directory again each time.
-/

import Dagq.Ledger.Event
import Mathlib.Data.List.Sort

namespace Dagq.Clone

open Dagq.Ledger

/-! ### The state of a worktree -/

/-- The SHA-256 of nothing. -/
def emptySha : String := "e3b0c44298fc1c149afbf4c8996fb92427ae41e4649b934ca495991b7852b855"

structure UntrackedFile where
  path : String
  sha256 : String
  executable : Bool
  deriving DecidableEq, Repr

/-- The order of the path, then of the hash, then of the execute bit. -/
def UntrackedFile.before (one other : UntrackedFile) : Prop :=
  one.path < other.path ∨ (one.path = other.path ∧
    (one.sha256 < other.sha256 ∨ (one.sha256 = other.sha256 ∧
      (one.executable = false ∨ other.executable = true))))

instance : DecidableRel UntrackedFile.before := fun _ _ => inferInstanceAs (Decidable (_ ∨ _))

/-- A worktree as a snapshot compares it: its head, its staged and unstaged diffs and its
untracked files. -/
structure WorktreeState where
  head : String
  index : String
  worktree : String
  untracked : List UntrackedFile
  deriving DecidableEq, Repr

/-- Whether the worktree holds work that is not committed. -/
def WorktreeState.dirty (state : WorktreeState) : Bool :=
  state.index != emptySha || state.worktree != emptySha || !state.untracked.isEmpty

inductive RestoreCheck where
  | intact
  | missing
  | diverged (why : String)
  deriving DecidableEq, Repr

/-- Compare a worktree as it is now with the one saved. -/
def compare (saved current : WorktreeState) : RestoreCheck :=
  if current.head ≠ saved.head then
    .diverged ("its head is " ++ current.head ++ ", the snapshot's " ++ saved.head)
  else if current.index ≠ saved.index ∨ current.worktree ≠ saved.worktree then
    .diverged "its uncommitted changes differ from the snapshot's"
  else if current.untracked ≠ saved.untracked then
    .diverged "its untracked files differ from the snapshot's"
  else .intact

/-! ### The request and the answer -/

inductive PartKind where
  | index
  | worktree
  | untracked
  | bundle
  deriving DecidableEq, Repr

/-- One part of a packed file. -/
structure Part where
  kind : PartKind
  path : Option String := none
  executable : Bool := false
  sha256 : String
  deriving DecidableEq, Repr

/-- The worktree state of a head and parts. -/
def stateOf (head : String) (parts : List Part) : WorktreeState where
  head := head
  index := ((parts.find? fun part => part.kind = .index).map (·.sha256)).getD emptySha
  worktree := ((parts.find? fun part => part.kind = .worktree).map (·.sha256)).getD emptySha
  untracked :=
    ((parts.filter fun part => part.kind = .untracked).map fun part =>
      { path := part.path.getD "", sha256 := part.sha256,
        executable := part.executable : UntrackedFile }).insertionSort UntrackedFile.before

/-- The attempt at the restore of a snapshot. -/
abbrev Key := String × Nat

/-- What a continuation's restore hands the executor before the turn that resumes the run. -/
structure RestoreRequest where
  snapshotId : String
  attempt : Nat
  base : String
  branch : String
  head : String
  /-- Whether the control side made the clone again. -/
  remade : Bool
  parts : List Part
  deriving DecidableEq, Repr

def RestoreRequest.key (request : RestoreRequest) : Key := (request.snapshotId, request.attempt)

/-- The clone as the snapshot saved it. -/
def RestoreRequest.state (request : RestoreRequest) : WorktreeState :=
  stateOf request.head request.parts

/-- The executor's answer to a restore: what it did, or why it did not. -/
structure RestoreResult where
  snapshotId : String
  attempt : Nat
  action : Option String
  failed : Option String
  deriving DecidableEq, Repr

namespace RestoreResult

variable (result : RestoreResult)

def key : Key := (result.snapshotId, result.attempt)

/-- Whether this answers the restore of `snapshot` at `attempt`. -/
def answers (snapshot : String) (attempt : Nat) : Bool :=
  result.snapshotId = snapshot ∧ result.attempt = attempt

/-- The result for the control side to record. -/
def outcome : Except String String :=
  match result.failed, result.action with
  | some why, _ => .error why
  | none, some action => .ok action
  | none, none => .error "the executor's result names no action"

/-- Whether this says that the restore was done. -/
def restored : Bool := result.outcome.toBool

theorem answers_iff (snapshot : String) (attempt : Nat) :
    result.answers snapshot attempt = true ↔ result.key = (snapshot, attempt) := by
  simp [answers, key]

end RestoreResult

/-! ### The executor's step -/

inductive ExecutorRestore where
  /-- It answered this restore before, and the clone was restored. -/
  | done
  /-- The clone is as the snapshot saved it. -/
  | intact
  /-- The clone is the one the control side made again, still at the base. -/
  | fill
  /-- The clone is neither: nothing in it is touched, and no agent runs. -/
  | refuse (why : String)
  deriving DecidableEq, Repr

/-- Whether the clone is as the control side makes one: at the base, nothing uncommitted. -/
def fresh (request : RestoreRequest) (current : WorktreeState) : Bool :=
  current.head = request.base ∧ current.dirty = false

/-- What the executor does for the clone as it reads it, given its earlier answer. -/
def executorRestore (request : RestoreRequest) (answered : Option RestoreResult)
    (current : WorktreeState) (gitOperation : Option String) : ExecutorRestore :=
  match answered.filter fun answer => answer.answers request.snapshotId request.attempt with
  | some answer =>
    match answer.outcome with
    | .ok _ => .done
    | .error why => .refuse why
  | none =>
    match gitOperation with
    | some operation => .refuse ("a " ++ operation ++ " is in progress in the clone")
    | none =>
      match compare request.state current with
      | .intact => .intact
      | .diverged why =>
        if request.remade = true ∧ fresh request current = true then .fill
        else .refuse ("the clone changed since the park (" ++ why ++ ")")
      | .missing => .refuse "the clone is gone"

/-! ### The control side's step -/

inductive CloneRestore where
  /-- The executor answered this attempt. -/
  | record (outcome : Except String String)
  /-- Hand the restore to the executor, making the clone again after when `remake`. -/
  | hand (remake remade : Bool)
  /-- The run is handed on without a resume: the restore fails. -/
  | fail (why : String)

/-- A restore handed before, as it is read back: none for one that does not read back. -/
abbrev Handed := Option (String × Nat × Bool)

/-- The greatest number of 32 bits. -/
def u32Max : Nat := 4294967295

/-- The failures recorded of the restore of `snapshot` for `operation`. -/
def failuresOf (failures : List Value) (operation : Int) (snapshot : String) : Nat :=
  (failures.filter fun payload =>
    (payload.get "operation_id").bind Value.asI64 = some operation ∧
      (payload.get "snapshot_id").bind Value.asStr = some snapshot).length

/-- The attempt at a restore that failed so many times: one past its failures, while that is a
number of 32 bits. -/
def attemptAfter (failed : Nat) : Nat := min (failed + 1) u32Max

def restoreAttempt (failures : List Value) (operation : Int) (snapshot : String) : Nat :=
  attemptAfter (failuresOf failures operation snapshot)

def resumesUsedUp : String :=
  "the run's resumes are used up, so no turn of its clone follows, in which alone its executor " ++
    "compares the clone as it is with the snapshot"

/-- The step of an attempt at the restore of `snapshot`, read from what is there. -/
def cloneRestore (snapshot : String) (attempt : Nat) (clonePresent : Bool)
    (handed : Option Handed) (answered : Option RestoreResult) (resuming : Bool) : CloneRestore :=
  match answered.filter fun answer => answer.answers snapshot attempt with
  | some answer => .record answer.outcome
  | none =>
    let handed := handed.map fun handed => handed.getD (snapshot, attempt, false)
    let ours := handed.filter fun handed => handed.1 = snapshot ∧ handed.2.1 = attempt
    if resuming then
      .hand (!clonePresent) (!clonePresent || ours.any fun handed => handed.2.2)
    else .fail resumesUsedUp

theorem attemptAfter_mono {fewer more : Nat} (order : fewer ≤ more) :
    attemptAfter fewer ≤ attemptAfter more := by
  unfold attemptAfter
  omega

/-- Attempts have numbers of their own while the last of them is not one too many. -/
theorem attemptAfter_inj {fewer more : Nat} (order : fewer ≤ more) (fits : more < u32Max)
    (same : attemptAfter fewer = attemptAfter more) : fewer = more := by
  unfold attemptAfter at same
  omega

end Dagq.Clone
