/-
This file models a headless run at the wall of its provider: its turns, the
requests written for it and their records, and the supervisor's looks at the
last turn, in any order.

A look reads nothing but what is recorded and the idle marker of the last turn
that ended, so a supervisor started anew looks as the one before did. It records
what it decides before it looks again; a request it wrote may only be recorded
after the turn that took it ended, and the session is not idle until then. What
each look did is kept in a log that no step reads.
-/

import Dagq.Turns.Session
import Dagq.Turns.Planner

namespace Dagq.Turns

/-- What a request that moves a run to the other provider is called. -/
def providerSwitch : String := "provider switch"

/-- What a look found besides the events: whether the fallback is on, the other provider usable,
the run's own held, and the run held by a person's hold. -/
structure Surroundings where
  fallback : Bool
  otherUsable : Bool
  ownHeld : Bool
  holdUnclosed : Bool

/-- A look at a turn at the wall: whether it held the provider, what it decided and the number of
the request it wrote. -/
structure Look where
  turn : Nat
  held : Bool
  move : WallMove
  request : Option Nat
  deriving DecidableEq

/-- Whether a look answered its turn. -/
def Look.answers (look : Look) : Bool := look.move == .switch || look.move == .retry

def Look.waits (look : Look) : Bool := look.move == .wait true

structure HeadlessRun where
  directory : Directory
  events : List RunEvent
  /-- The requests a look wrote that are not recorded yet. -/
  unrecorded : List Nat
  provider : Provider
  mark : Option TurnMark
  running : Option Nat
  looks : List Look

namespace HeadlessRun

/-- A run claimed: on the provider it asked for, or moved to the other one at the claim. -/
def claimed (provider : Provider) (moved : Bool) : HeadlessRun :=
  ⟨Directory.empty, if moved then [⟨.providerSwitched, {}⟩] else [], [], provider, none, none, []⟩

def turns (run : HeadlessRun) : Nat := (run.events.filter RunEvent.isStarted).length

def note (run : HeadlessRun) (event : RunEvent) : HeadlessRun :=
  { run with events := run.events ++ [event] }

/-- A turn of request `seq` or of a later one ended. -/
def EndedFrom (run : HeadlessRun) (seq : Nat) : Prop :=
  ∃ started ∈ run.events, started.isStarted = true ∧
    (∃ request, started.payload.request = some request ∧ seq ≤ request) ∧
    ∃ finished ∈ run.events, finished.isFinished = true ∧
      finished.payload.turn = started.payload.turn

/-- No request of a look waits for its record while its turn has not ended. -/
def Settled (run : HeadlessRun) : Prop := ∀ seq ∈ run.unrecorded, run.EndedFrom seq

/-- Write a request for the look `look`. -/
def call (run : HeadlessRun) (look : Look) (what prompt : String) : HeadlessRun :=
  let seq := nextSeq run.directory.names
  { run with
    directory := run.directory.write what prompt
    unrecorded := run.unrecorded ++ [seq]
    looks := run.looks ++ [{ look with request := some seq }] }

/-- What a look does with a turn at the wall. -/
def act (run : HeadlessRun) (turn : WallTurn) (move : WallMove) (prompt : String) : HeadlessRun :=
  let look : Look := ⟨turn.turn, turn.holdsProvider, move, none⟩
  match move with
  | .switch =>
    call { run.note ⟨.providerSwitched, { turn := some turn.turn, message := some turn.message }⟩ with
      provider := run.provider.other } look providerSwitch prompt
  | .retry => run.call look providerRetry prompt
  | .wait record =>
    { run with
      events := if record then run.events ++ [⟨.providerWaiting, { turn := some turn.turn }⟩]
        else run.events
      looks := run.looks ++ [look] }

/-- A look at the last turn, which its marker says failed with `failure`. -/
def look (run : HeadlessRun) (failure : TurnFailure) (found : Surroundings) (prompt : String) :
    HeadlessRun :=
  match wallLook run.events failure run.provider with
  | .noTurn | .answered _ | .notAWall => run
  | .atWall turn =>
    run.act turn (turn.next found.fallback found.otherUsable found.ownHeld found.holdUnclosed) prompt

end HeadlessRun

/-- A step of the session, of its supervisor or of another who writes requests. -/
inductive RunStep : HeadlessRun → HeadlessRun → Prop where
  | write (run : HeadlessRun) (what prompt : String) :
      RunStep run { run with directory := run.directory.write what prompt }
  /-- A request written is recorded, however late. -/
  | record (run : HeadlessRun) (file : ListedRequest) (listed : file ∈ run.directory.files) :
      RunStep run { run.note (.turnRequested file.request.seq file.request.what) with
        unrecorded := run.unrecorded.erase file.request.seq }
  /-- A turn starts from the task's prompt, or takes a request past every one taken before. -/
  | start (run : HeadlessRun) (file : Option ListedRequest) (idle : run.running = none)
      (listed : ∀ own, file = some own → own ∈ run.directory.files ∧
        NoneFrom run.events own.request.seq) :
      RunStep run { run.note (.turnStarted (run.turns + 1) (file.map fun own => own.request.seq)
          (whatOf (file.map ListedRequest.request))) with
        directory := file.elim run.directory fun own => run.directory.rename own.request.seq .taken
        running := some (run.turns + 1) }
  /-- The turn ends: recorded, and its idle marker written. -/
  | finish (run : HeadlessRun) (mark : TurnMark) (message : Option String)
      (running : run.running = some mark.turn) :
      RunStep run { run.note (.turnFinished mark.turn mark.outcome mark.failure message) with
        mark := some mark
        running := none }
  | look (run : HeadlessRun) (mark : TurnMark) (failure : TurnFailure) (found : Surroundings)
      (prompt : String) (idle : run.mark = some mark) (failed : mark.outcome = .failed)
      (atWall : mark.failure = some failure ∧ failure.atProviderWall = true)
      (settled : run.Settled) :
      RunStep run (run.look failure found prompt)
  /-- Anything else is recorded: a session renewed, a wait of the run's resume. -/
  | note (run : HeadlessRun) (event : RunEvent)
      (unrelated : event.kind ≠ .turnStarted ∧ event.kind ≠ .turnFinished ∧
        event.kind ≠ .turnRequested ∧ event.kind ≠ .providerSwitched)
      (unturned : event.kind = .providerWaiting → event.payload.turn = none) :
      RunStep run (run.note event)

/-- The runs some order of steps leads to. -/
def HeadlessRun.Reached (run : HeadlessRun) : Prop :=
  ∃ provider moved, Lib.Reachable (HeadlessRun.claimed provider moved) RunStep run

end Dagq.Turns
