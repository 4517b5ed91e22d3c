/-
This file models the requests of a headless planner: which one its wrapper takes
next, whether the wall its last turn met is answered, which call a retry makes
again, and whether a request was read; and the steps of the supervisor and the
wrapper, in any order.

A request is recorded only once it is written, so its turn may have started, and
ended, before the record. A look that comes before the record finds no retry: it
writes another, unless the stamp left before the write still shows the planner at
work. A planner whose retries are `Settled` has no such look.
-/

import Dagq.Lib.Transition
import Dagq.Turns.ProviderSwitch
import Dagq.Turns.Request

namespace Dagq.Turns

/-- What a request that makes a call failed at its provider's wall again is called. -/
def providerRetry : String := "provider retry"

/-! ### What the events and the requests say -/

/-- The request a planner's wrapper takes next of the pending ones: after a turn that met the wall,
none but a provider retry. -/
def requestToTake (pending : List (Nat × String)) (afterWall : Bool) : Option Nat :=
  (pending.find? fun request => !afterWall || request.2 == providerRetry).map Prod.fst

/-- Whether the wall the turn that ended at `finishedAt` met is answered: a provider retry other
than the request the turn took is recorded after it. -/
def wallAnswered (events : List RunEvent) (finishedAt : Nat) : Bool :=
  let turn := (events[finishedAt]?).bind fun event => event.payload.turn
  let taken := ((events.take finishedAt).reverse.find? fun event =>
    event.isStarted && event.payload.turn == turn).bind fun event => event.payload.request
  (events.drop finishedAt).any fun event =>
    requestedPast event taken && event.payload.what == some providerRetry

/-- The turn whose call a retry makes again: the last that is no retry itself. -/
def turnToRetry (events : List RunEvent) : Option RunEvent :=
  (events.reverse.filter RunEvent.isStarted).find? fun event =>
    event.payload.what != some providerRetry

/-- The request of the call a retry makes again, none for the initial prompt. -/
def requestToRetry (events : List RunEvent) : Option Nat :=
  (turnToRetry events).bind fun event => event.payload.request

mutual

/-- Whether turn `turn`, started before these events, got to its request: it ended otherwise than
at the wall, or the retry that came next did. -/
def readFrom (turn : Option Nat) : List RunEvent → Bool
  | [] => false
  | event :: rest =>
    if event.isFinished && event.payload.turn == turn then !event.atWall || retriedFrom rest
    else readFrom turn rest

/-- Whether the next turn is a retry that got to its request. -/
def retriedFrom : List RunEvent → Bool
  | [] => false
  | event :: rest =>
    if event.isStarted then
      event.payload.what == some providerRetry && readFrom event.payload.turn rest
    else retriedFrom rest

end

/-- Whether the planner read request `seq`. -/
def requestRead (events : List RunEvent) (seq : Nat) : Bool :=
  match events.dropWhile fun event => !(event.isStarted && event.payload.request == some seq) with
  | [] => false
  | started :: rest => readFrom started.payload.turn rest

/-! ### The planner -/

/-- Where the planner's wrapper is. -/
inductive PlannerWrapper where
  | waiting (afterWall : Bool)
  | toStart (request : Option TurnRequest)
  | running (turn : Nat) (request : Option TurnRequest)
  | closed

structure Planner where
  directory : Directory
  events : List RunEvent
  /-- The requests written and not recorded yet, each with what it is. -/
  unrecorded : List (Nat × String)
  wrapper : PlannerWrapper
  /-- The request whose prompt a request carries: its own, or that of the call it makes again, none
  for the initial prompt. -/
  call : Nat → Option Nat

namespace Planner

/-- A planner opened: its wrapper starts with the initial prompt. -/
def new : Planner := ⟨Directory.empty, [], [], .toStart none, some⟩

/-- The call a turn makes that starts from `request`. -/
def callOf (planner : Planner) (request : Option Nat) : Option Nat := request.bind planner.call

/-- The requests that wait, oldest first, each with what it is. -/
def waiting (planner : Planner) : List (Nat × String) :=
  (pending planner.directory.names).filterMap fun seq =>
    (planner.directory.files.find? fun file => file.request.seq == seq).map fun file =>
      (seq, file.request.what)

/-- Whether a look makes the call of the last turn again: the turn met the wall, it is not
answered, the wait for it is recorded, and its provider is not held. -/
def retryDue (planner : Planner) (held : Bool) : Bool :=
  match lastFinished planner.events with
  | none => false
  | some (finishedAt, finished) =>
    finished.atWall && !wallAnswered planner.events finishedAt &&
      waitingOn planner.events (finished.payload.turn.getD 0) && !held

/-- The turn that took request `seq` ended. -/
def TurnEnded (planner : Planner) (seq : Nat) : Prop :=
  ∃ started ∈ planner.events, started.isStarted = true ∧ started.payload.request = some seq ∧
    ∃ finished ∈ planner.events, finished.isFinished = true ∧
      finished.payload.turn = started.payload.turn

/-- No retry waits for its record while its turn has not ended: the pass that wrote it went on to
its record, or its stamp shows the planner at work until that turn's end. -/
def Settled (planner : Planner) : Prop :=
  ∀ seq, (seq, providerRetry) ∈ planner.unrecorded → planner.TurnEnded seq

/-- A request written, for the call `call`. -/
def send (planner : Planner) (what prompt : String) (call : Option Nat) : Planner :=
  let seq := nextSeq planner.directory.names
  { planner with
    directory := planner.directory.write what prompt
    unrecorded := planner.unrecorded ++ [(seq, what)]
    call := Function.update planner.call seq call }

def turns (planner : Planner) : Nat := (planner.events.filter RunEvent.isStarted).length

def note (planner : Planner) (event : RunEvent) : Planner :=
  { planner with events := planner.events ++ [event] }

end Planner

/-- A step of the supervisor or of the wrapper. -/
inductive PlannerStep : Planner → Planner → Prop where
  /-- A request for the planner: a revise, an answer, a request of its own. -/
  | send (planner : Planner) (what prompt : String) (another : what ≠ providerRetry) :
      PlannerStep planner
        (planner.send what prompt (some (nextSeq planner.directory.names)))
  /-- The provider can be used again: the call of the last turn is made again. -/
  | retry (planner : Planner) (prompt : String) (due : planner.retryDue false = true) :
      PlannerStep planner (planner.send providerRetry prompt (requestToRetry planner.events))
  | record (planner : Planner) (seq : Nat) (what : String)
      (written : (seq, what) ∈ planner.unrecorded) :
      PlannerStep planner { planner.note (.turnRequested seq what) with
        unrecorded := planner.unrecorded.erase (seq, what) }
  | take (planner : Planner) (afterWall : Bool) (file : ListedRequest)
      (waiting : planner.wrapper = .waiting afterWall)
      (next : requestToTake planner.waiting afterWall = some file.request.seq)
      (listed : file ∈ planner.directory.files) :
      PlannerStep planner { planner with
        directory := planner.directory.rename file.request.seq .taken
        wrapper := .toStart (some file.request) }
  | start (planner : Planner) (request : Option TurnRequest)
      (ready : planner.wrapper = .toStart request) :
      PlannerStep planner
        { planner.note (.turnStarted (planner.turns + 1) (request.map TurnRequest.seq)
            (request.elim "the task's prompt" TurnRequest.what)) with
          wrapper := .running (planner.turns + 1) request }
  | finish (planner : Planner) (turn : Nat) (request : Option TurnRequest) (outcome : TurnOutcome)
      (failure : Option TurnFailure) (message : Option String)
      (running : planner.wrapper = .running turn request) :
      PlannerStep planner
        { planner.note (.turnFinished turn outcome failure message) with
          wrapper := if outcome.goesOn failure then .waiting (outcome.atWall failure)
            else .closed }
  /-- The wrapper ends between turns. -/
  | close (planner : Planner) (between : ∀ turn request, planner.wrapper ≠ .running turn request) :
      PlannerStep planner { planner with wrapper := .closed }
  /-- Anything else is recorded, a wait for the provider say. -/
  | note (planner : Planner) (event : RunEvent) (started : event.isStarted = false)
      (finished : event.isFinished = false) :
      PlannerStep planner (planner.note event)

/-- A step that writes no retry before the others are settled. -/
def SettledStep (planner after : Planner) : Prop :=
  PlannerStep planner after ∧
    ∀ prompt call, after = planner.send providerRetry prompt call → planner.Settled

namespace Planner

/-- The planners some order of steps leads to. -/
def Reached (planner : Planner) : Prop := Lib.Reachable new PlannerStep planner

/-- The planners some order of settled steps leads to. -/
def SettledReached (planner : Planner) : Prop := Lib.Reachable new SettledStep planner

end Planner

end Dagq.Turns
