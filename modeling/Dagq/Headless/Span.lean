/-
This file models the turns of a headless session's span, as they are read from the
events recorded since it opened: those that finished, the start of one still running,
and the tokens that the finished ones used. A reading records the turns beyond those
recorded before; the last cuts the turn still running at the end of the span.
-/

import Dagq.Ledger.Event
import Dagq.Tokens.Span

namespace Dagq.Headless

open Dagq.Ledger Dagq.Tokens

/-- One turn, in unix milliseconds. -/
structure Turn where
  start : Int
  end_ : Int
  deriving DecidableEq, Repr

/-- The kinds of the events that a span's turns are read from. -/
def turnStarted : EventKind := .other "turn_started"

def turnFinished : EventKind := .other "turn_finished"

/-- The turns of a headless session's span, and the tokens of its finished turns. -/
structure HeadlessSpan (Cost : Type) where
  finished : List Turn := []
  running : Option Int := none
  tokens : Option (TokenUsage Cost) := none

namespace HeadlessSpan

variable {Cost : Type}

/-! ### The loop over the events -/

/-- What the loop holds: the span, and the tokens and costs summed so far. -/
structure Reading (Cost : Type) where
  span : HeadlessSpan Cost := {}
  tokens : TokenUsage Cost := {}
  costs : Option Cost

section Read

variable [Costs Cost] (asF64 : Value → Option Cost)

/-- Add the tokens that a turn recorded, where it recorded an object of them. -/
def Reading.count (reading : Reading Cost) (used : Value) : Reading Cost :=
  match used with
  | .object _ =>
    let field (key : String) : Int := ((used.get key).bind Value.asI64).getD 0
    let counts := reading.tokens.counts
    { reading with
      tokens :=
        { reading.tokens with
          counts := fun
            | .input => wrapped (counts .input + field "input")
            | .output => wrapped (counts .output + field "output")
            | .cacheRead => wrapped (counts .cacheRead + field "cache_read")
            | .cacheCreation => wrapped (counts .cacheCreation + field "cache_creation")
          messages := reading.tokens.messages + 1 }
      costs := reading.costs.bind fun total =>
        ((used.get "cost_usd").bind asF64).map (Costs.add total) }
  | _ => reading

/-- Take one event in: one of another kind, or whose time cannot be read, is skipped. -/
def Reading.take (start : Int) (reading : Reading Cost) (event : RunEvent) : Reading Cost :=
  match event.millis with
  | none => reading
  | some at_ =>
    if event.kind = turnStarted then
      { reading with span := { reading.span with running := some (max at_ start) } }
    else if event.kind = turnFinished then
      -- A turn that no start was seen of is counted from the span's start.
      let begun := reading.span.running.getD start
      let finished := reading.span.finished ++ [⟨begun, max at_ begun⟩]
      let reading :=
        { reading with span := { reading.span with running := none, finished := finished } }
      reading.count asF64 ((event.payload.get "tokens").getD .null)
    else reading

/-- The turns of a span that opened at `start`, from the events recorded since. -/
def of (events : List RunEvent) (start : Int) : HeadlessSpan Cost :=
  let reading := events.foldl (Reading.take asF64 start) { costs := some Costs.zero }
  { reading.span with
    tokens :=
      if reading.tokens.messages > 0 then some { reading.tokens with costUsd := reading.costs }
      else none }

end Read

/-! ### What is new -/

/-- The turn still running, cut at `now`. -/
def cut (span : HeadlessSpan Cost) (now : Option Int) : Option Turn :=
  span.running.bind fun start => now.map fun now => ⟨start, max now start⟩

/-- The turns not recorded yet: the finished ones, and the one running cut at `now`. -/
def newTurns (span : HeadlessSpan Cost) (recorded : List Turn) (now : Option Int) : List Turn :=
  let through := (recorded.map (·.end_)).max?
  (span.finished ++ (span.cut now).toList).filter fun turn =>
    turn ∉ recorded && through.all fun through => turn.start ≥ through

variable [Costs Cost] (asF64 : Value → Option Cost)

/-- The turns recorded when the events are read in stretches that each end further on, and whole at
the last with the running turn cut at `now`. -/
def recordedBy (start : Int) (events : List RunEvent) (stretches : List Nat) (now : Option Int) :
    List Turn :=
  let before := stretches.foldl
    (fun recorded length =>
      recorded ++ (of asF64 (events.take length) start : HeadlessSpan Cost).newTurns recorded none)
    []
  before ++ (of asF64 events start : HeadlessSpan Cost).newTurns before now

end HeadlessSpan

end Dagq.Headless
