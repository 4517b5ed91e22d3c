/-
This file models what the events of a run say about why it waits for a session:
whether its landing was approved or its latest review passed, what parked it
last, and what the resume in progress showed of its provider.

A recorded event keeps a payload of JSON, read key by key; a key that is missing
or of another type reads as absent. The payload here has the keys read.
-/

import Dagq.Lib.Text
import Dagq.Turns.Event

namespace Dagq.Resume

open Dagq.Lib Dagq.Turns

/-! ### Events -/

inductive EventKind where
  | integrationApproved
  | reviewFinished
  | reviseLimitJudged
  | integrationDeferred
  | integrationError
  | evidenceMissing
  | scopeViolation
  | landingDecided
  | triageFinished
  | triageDecided
  | sessionGoneParked
  | runE2eFailed
  | replanParked
  | holdParked
  | landingRecheckFailed
  | resumeStarted
  | resumeFinished
  | resumeRequestSent
  | conflictPrecheck
  | turnFinished
  | supervisionFinished
  | validationFinished
  | integrationFailed
  | integrationHeld
  | runtimeError
  | runRecovered
  | cleanupFailed
  | recoveryRequested
  | other
  deriving DecidableEq, Repr

structure Payload where
  code : Option String := none
  status : Option String := none
  action : Option String := none
  by_ : Option String := none
  verdict : Option String := none
  recommendation : Option String := none
  confidence : Option String := none
  reasonCategory : Option String := none
  /-- `destination` of `route`. -/
  destination : Option String := none
  converged : Option Bool := none
  outcome : Option String := none
  failure : Option String := none
  head : Option String := none
  receiptRewritten : Option Bool := none
  requested : Option Bool := none
  unsent : Option Bool := none
  deriving DecidableEq, Repr

structure RunEvent where
  kind : EventKind
  payload : Payload := {}
  deriving DecidableEq, Repr

/-! ### A review that lets its run land -/

/-- A field of a verdict, trimmed; a blank one is missing. -/
def knownText (value : Option String) : Option String := (value.map trim).filter (· ≠ "")

/-- Whether a `concern` with this recommendation, confidence and reason is landed. -/
def concernLands (recommendation confidence reasonCategory : Option String) : Bool :=
  knownText recommendation == some "land" && (knownText reasonCategory).isNone &&
    knownText confidence == some "high"

/-- Whether the review lets the run land without a person. -/
def letsLand (review : Payload) : Bool :=
  match review.destination with
  | some destination => destination == "land"
  | none => match review.verdict with
    | some "pass" => true
    | some "concern" =>
      concernLands review.recommendation review.confidence review.reasonCategory
    | _ => false

/-! ### What parked the run -/

/-- The events that park a run for a session, or decide what it resumes with. -/
def parking : List EventKind :=
  [.integrationDeferred, .integrationError, .evidenceMissing, .scopeViolation, .landingDecided,
    .triageFinished, .triageDecided, .sessionGoneParked, .runE2eFailed, .replanParked, .holdParked]

/-- Whether a landing recheck parked the run. -/
def recheckParks (event : RunEvent) : Bool :=
  event.kind = .landingRecheckFailed && event.payload.action == some "resumed"

/-- Whether an event parked its run for a session. -/
def parks (event : RunEvent) : Bool := parking.contains event.kind || recheckParks event

/-- Whether an event set the run's `last_error` or interrupted it. -/
def explainsLastError (event : RunEvent) : Bool :=
  match event.kind with
  | .supervisionFinished | .validationFinished | .integrationDeferred | .integrationFailed
  | .integrationError | .integrationHeld | .runtimeError | .landingDecided | .sessionGoneParked
  | .replanParked | .holdParked | .runE2eFailed => true
  | .runRecovered => event.payload.status == some "interrupted"
  | .cleanupFailed => event.payload.by_ != some "triage" && event.payload.by_ != some "supervisor"
  | .triageFinished | .triageDecided | .recoveryRequested => event.payload.code.isSome
  | .resumeFinished => event.payload.status == some "failed"
  | _ => false

/-- What the events so far say about the run. -/
structure History where
  approved : Bool := false
  passed : Bool := false
  conflict : Bool := false
  rechecked : Bool := false
  killed : Bool := false
  sentBack : Bool := false
  held : Bool := false
  /-- The code of the run's `last_error`. -/
  error : Option String := none
  deriving DecidableEq, Repr

namespace History

/-- What a parking event says of why the run is parked. -/
def park (history : History) (event : RunEvent) : History :=
  { history with
    conflict := (event.kind = .integrationDeferred || event.kind = .landingRecheckFailed) &&
      event.payload.code == some "rebase_conflict"
    rechecked := event.kind = .landingRecheckFailed
    killed := (event.kind = .triageFinished || event.kind = .triageDecided) &&
      event.payload.code == some "triage_resume" && history.error == some "session_killed"
    sentBack := event.kind = .landingDecided && event.payload.code == some "sent_back"
    held := event.kind = .holdParked }

/-- What an event says but of the error. -/
def seeKind (history : History) (event : RunEvent) : History :=
  if event.kind = .integrationApproved then { history with approved := true }
  else if event.kind = .reviewFinished then { history with passed := letsLand event.payload }
  else if event.kind = .reviseLimitJudged && event.payload.converged == some true then
    { history with passed := true }
  else if parks event then history.park event
  else if event.kind = .resumeStarted then
    { history with killed := false, sentBack := false, held := false }
  else history

def see (history : History) (event : RunEvent) : History :=
  let seen := history.seeKind event
  if explainsLastError event then { seen with error := event.payload.code } else seen

/-- The run waits only because a signal ended its session. -/
def killOnly (history : History) : Bool := history.killed

/-- The run waits only because a hold of its task parked it. -/
def holdOnly (history : History) : Bool := history.held

/-- The run waits only because it conflicts with main. -/
def conflictOnly (history : History) : Bool :=
  history.conflict && (history.approved || history.passed || history.rechecked)

end History

/-! ### The resume in progress -/

/-- What the events show of the resume in progress since it started. -/
structure Resuming where
  walled : Bool := false
  worked : Bool := false
  /-- The head its request was sent at, missing or not. -/
  requestHead : Option (Option String) := none
  deriving DecidableEq, Repr

namespace Resuming

def see (resuming : Resuming) (event : RunEvent) : Resuming :=
  match event.kind with
  | .turnFinished =>
    let failure := event.payload.failure.bind TurnFailure.parse
    if event.payload.outcome == some "failed" && failure.any TurnFailure.atProviderWall then
      { resuming with walled := true }
    else if event.payload.outcome != some "stopped" then { resuming with worked := true }
    else resuming
  | .resumeRequestSent => { resuming with requestHead := some event.payload.head }
  | _ => resuming

/-- Whether the resume that finished so ended only at its provider's wall. -/
def providerOnly (resuming : Resuming) (finished : Payload) : Bool :=
  resuming.walled && !resuming.worked && finished.outcome == some "unresolved" &&
    finished.receiptRewritten == some false && finished.head.isSome &&
    resuming.requestHead == some finished.head

end Resuming

end Dagq.Resume
