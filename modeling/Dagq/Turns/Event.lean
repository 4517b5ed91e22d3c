/-
This file models the turns of a headless session as they are recorded: how a
turn ended, why it failed, and the events of the run that the session's two
sides read to decide what comes next.

A recorded event keeps a payload of JSON, read key by key; a key that is missing
or of another type reads as absent. The payload here has the keys that the
decisions read, each absent or of its type.
-/

import Mathlib.Tactic

namespace Dagq.Turns

/-! ### How a turn ended -/

inductive TurnOutcome where
  | succeeded
  | failed
  | silent
  | timedOut
  | launchMismatch
  | stopped
  deriving DecidableEq, Repr

def TurnOutcome.asStr : TurnOutcome → String
  | succeeded => "succeeded"
  | failed => "failed"
  | silent => "silent"
  | timedOut => "timed_out"
  | launchMismatch => "launch_mismatch"
  | stopped => "stopped"

inductive TurnFailure where
  | authentication
  | usageLimit
  | model
  | sandbox
  | launch
  | other
  deriving DecidableEq, Repr

namespace TurnFailure

def asStr : TurnFailure → String
  | authentication => "authentication"
  | usageLimit => "usage_limit"
  | model => "model"
  | sandbox => "sandbox"
  | launch => "launch"
  | other => "other"

def all : List TurnFailure := [authentication, usageLimit, model, sandbox, launch, other]

def parse (text : String) : Option TurnFailure :=
  all.find? fun failure => failure.asStr == text

/-- What a failure is recorded as reads back as that failure. -/
theorem parse_asStr (failure : TurnFailure) : parse failure.asStr = some failure := by
  cases failure <;> decide

/-- Whether a turn that failed so met the wall of its provider: its login, its usage limit, an
agent that did not start. -/
def atProviderWall : TurnFailure → Bool
  | authentication | usageLimit | launch => true
  | model | sandbox | other => false

end TurnFailure

/-- Whether the session goes on to its next request after a turn that ended so. -/
def TurnOutcome.goesOn (outcome : TurnOutcome) (failure : Option TurnFailure) : Bool :=
  match outcome with
  | .succeeded => true
  | .failed => failure.any TurnFailure.atProviderWall
  | .silent | .timedOut | .launchMismatch | .stopped => false

/-! ### What is recorded -/

inductive EventKind where
  | turnRequested
  | turnStarted
  | turnFinished
  | turnSessionIdentified
  | providerSwitched
  | providerWaiting
  | sessionRenewed
  | other
  deriving DecidableEq, Repr

structure Payload where
  turn : Option Nat := none
  request : Option Nat := none
  seq : Option Nat := none
  what : Option String := none
  outcome : Option String := none
  failure : Option String := none
  message : Option String := none
  deriving DecidableEq, Repr

structure RunEvent where
  kind : EventKind
  payload : Payload
  deriving DecidableEq, Repr

namespace RunEvent

def turnRequested (seq : Nat) (what : String) : RunEvent :=
  ⟨.turnRequested, { seq := some seq, what := some what }⟩

/-- A turn started from `request`, or from the task's prompt. -/
def turnStarted (turn : Nat) (request : Option Nat) (what : String) : RunEvent :=
  ⟨.turnStarted, { turn := some turn, request := request, what := some what }⟩

def turnFinished (turn : Nat) (outcome : TurnOutcome) (failure : Option TurnFailure)
    (message : Option String) : RunEvent :=
  ⟨.turnFinished,
    { turn := some turn
      outcome := some outcome.asStr
      failure := failure.map TurnFailure.asStr
      message := message }⟩

def isStarted (event : RunEvent) : Bool := event.kind == .turnStarted

def isFinished (event : RunEvent) : Bool := event.kind == .turnFinished

end RunEvent

/-- Whether a turn that ended with `outcome` and `failure`, as recorded, met the wall of its
provider. -/
def walled (outcome failure : Option String) : Bool :=
  outcome == some TurnOutcome.failed.asStr &&
    (failure.bind TurnFailure.parse).any TurnFailure.atProviderWall

/-- Whether a recorded end of a turn is at the wall of its provider. -/
def RunEvent.atWall (event : RunEvent) : Bool :=
  walled event.payload.outcome event.payload.failure

/-- Whether a turn that ended so met the wall of its provider, as the session keeps it. -/
def TurnOutcome.atWall (outcome : TurnOutcome) (failure : Option TurnFailure) : Bool :=
  outcome == .failed && failure.any TurnFailure.atProviderWall

theorem TurnOutcome.asStr_eq_failed (outcome : TurnOutcome) :
    outcome.asStr = TurnOutcome.failed.asStr ↔ outcome = .failed := by
  cases outcome <;> decide

/-- The record of a turn's end says what its end was. -/
theorem RunEvent.turnFinished_atWall (turn : Nat) (outcome : TurnOutcome)
    (failure : Option TurnFailure) (message : Option String) :
    (turnFinished turn outcome failure message).atWall = outcome.atWall failure := by
  have named : (some outcome.asStr == some TurnOutcome.failed.asStr) = (outcome == .failed) := by
    rw [Bool.eq_iff_iff]
    simpa using outcome.asStr_eq_failed
  have read : (failure.map TurnFailure.asStr).bind TurnFailure.parse = failure := by
    cases failure with
    | none => rfl
    | some failure => exact TurnFailure.parse_asStr failure
  show (some outcome.asStr == some TurnOutcome.failed.asStr &&
    ((failure.map TurnFailure.asStr).bind TurnFailure.parse).any TurnFailure.atProviderWall) = _
  rw [named, read]
  rfl

end Dagq.Turns
