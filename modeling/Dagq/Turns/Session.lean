/-
This file models a headless session as its two sides drive it: the supervisor
that writes requests, the wrapper that takes them in order and runs each as a
turn, and the three things the supervisor reads back at one moment, the listing
of the requests, the recorded events and the idle marker of the last turn that
ended.

A turn counts as running from its record until its idle marker is written; its
end is recorded before that.
-/

import Dagq.Lib.Transition
import Dagq.Turns.Request

namespace Dagq.Turns

/-! ### The idle marker and what it is read for -/

/-- What an idle marker says of the turn that wrote it. -/
structure TurnMark where
  turn : Nat
  outcome : TurnOutcome
  failure : Option TurnFailure
  permissionDenials : Nat
  deriving DecidableEq, Repr

/-- Whether a turn the session was sent has not ended yet: a turn started after the one the marker
names, or a request not dropped is numbered past every request a turn started from. -/
def turnAwaited (listed : List ListedRequest) (events : List RunEvent) (mark : Option TurnMark) :
    Bool :=
  let started := events.filter RunEvent.isStarted
  let lastTurn := (started.filterMap fun event => event.payload.turn).max?
  if (mark.bind fun mark => lastTurn.map fun last => (mark, last)).any
      fun pair => pair.1.turn < pair.2 then true
  else
    let lastRequest := (started.filterMap fun event => event.payload.request).max?
    (listed.filter fun file => file.state != .dropped).any fun file =>
      lastRequest.all fun started => file.request.seq > started

/-- No turn of the events started from request `seq` or a later one. -/
def NoneFrom (events : List RunEvent) (seq : Nat) : Prop :=
  ∀ event ∈ events, event.isStarted = true → ∀ request, event.payload.request = some request →
    request < seq

/-! ### The two sides -/

/-- Where the wrapper of a session is, with the turns it counted. -/
inductive Wrapper where
  | closed
  | waiting (turns : Nat)
  /-- It has what its next turn runs: a request it took, or the task's prompt. -/
  | toStart (turns : Nat) (request : Option TurnRequest)
  | running (turn : Nat) (request : Option TurnRequest)
  /-- The end of its turn is recorded, and its idle marker not written yet. -/
  | ending (mark : TurnMark) (request : Option TurnRequest)

structure Session where
  directory : Directory
  events : List RunEvent
  mark : Option TurnMark
  wrapper : Wrapper

namespace Session

def new : Session := ⟨Directory.empty, [], none, .closed⟩

/-- The turns the run's events say started. -/
def turns (session : Session) : Nat := (session.events.filter RunEvent.isStarted).length

/-- Whether a turn runs. -/
def turnRuns (session : Session) : Prop :=
  match session.wrapper with
  | .running _ _ | .ending _ _ => True
  | .closed | .waiting _ | .toStart _ _ => False

/-- What the supervisor reads at one moment. -/
def awaited (session : Session) : Bool :=
  turnAwaited session.directory.listedRequests session.events session.mark

end Session

/-- What a turn started from is recorded as. -/
def whatOf (request : Option TurnRequest) : String :=
  request.elim "the task's prompt" TurnRequest.what

/-- Where the wrapper goes once a turn's marker is written: it runs the turn again when the agent
had no such session, waits for its next request, or ends. -/
def afterTurn (mark : TurnMark) (request : Option TurnRequest) (missing : Bool) : Wrapper :=
  if missing then .toStart mark.turn request
  else if mark.outcome.goesOn mark.failure then .waiting mark.turn
  else .closed

/-- A step of either side. -/
inductive SessionStep : Session → Session → Prop where
  /-- The supervisor writes a request. -/
  | write (session : Session) (what prompt : String) :
      SessionStep session { session with directory := session.directory.write what prompt }
  /-- Before a later session starts, the requests an earlier one left are dropped. -/
  | prepare (session : Session) (closed : session.wrapper = .closed) :
      SessionStep session { session with directory := session.directory.dropPending }
  /-- A wrapper starts: with the task's prompt, or waiting for a request. -/
  | launch (session : Session) (resume : Bool) (closed : session.wrapper = .closed) :
      SessionStep session { session with
        wrapper := if resume then .waiting session.turns else .toStart session.turns none }
  /-- The wrapper takes the oldest request that waits. -/
  | take (session : Session) (turns : Nat) (file : ListedRequest) (later : List Nat)
      (waiting : session.wrapper = .waiting turns)
      (oldest : pending session.directory.names = file.request.seq :: later)
      (listed : file ∈ session.directory.files) :
      SessionStep session { session with
        directory := session.directory.rename file.request.seq .taken
        wrapper := .toStart turns (some file.request) }
  | start (session : Session) (turns : Nat) (request : Option TurnRequest)
      (ready : session.wrapper = .toStart turns request) :
      SessionStep session { session with
        events := session.events ++
          [.turnStarted (turns + 1) (request.map TurnRequest.seq) (whatOf request)]
        wrapper := .running (turns + 1) request }
  /-- The turn's end is recorded. -/
  | finish (session : Session) (mark : TurnMark) (request : Option TurnRequest)
      (message : Option String) (running : session.wrapper = .running mark.turn request) :
      SessionStep session { session with
        events := session.events ++ [.turnFinished mark.turn mark.outcome mark.failure message]
        wrapper := .ending mark request }
  /-- The turn's idle marker is written. -/
  | idle (session : Session) (mark : TurnMark) (request : Option TurnRequest) (missing : Bool)
      (ending : session.wrapper = .ending mark request) :
      SessionStep session { session with
        mark := some mark
        wrapper := afterTurn mark request missing }
  /-- The wrapper stops between turns, with a request it took or without. -/
  | stop (session : Session) (between : ¬ session.turnRuns) :
      SessionStep session { session with wrapper := .closed }
  /-- Anything else is recorded. -/
  | note (session : Session) (event : RunEvent) (unrelated : event.kind ≠ .turnStarted) :
      SessionStep session { session with events := session.events ++ [event] }

/-- The sessions some order of steps leads to. -/
def Session.Reached (session : Session) : Prop := Lib.Reachable Session.new SessionStep session

end Dagq.Turns
