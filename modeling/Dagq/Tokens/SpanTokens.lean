/-
This file models the tokens and models of a span prepared for every cut: the assistant
records are taken once, by their times, with what is counted so far kept up to date,
and a step is written at each of their times. A record earlier in the transcript may
come later by its time, so a message's pair is replaced when a record before the one
it was taken from names a model, and its cost when a record after the one it was
taken from has one. A cut picks the last step before it.
-/

import Mathlib.Data.Finset.Lattice.Fold
import Mathlib.Data.Finset.Max
import Dagq.Tokens.Span

namespace Dagq.Tokens

open Lib Ledger

variable {Cost : Type}

/-- A message's counts, and the place and cost of its last record with a cost. -/
structure Kept (Cost : Type) where
  counts : Counts := 0
  cost : Option (Nat × Cost) := none

/-- What a cut gives. -/
abbrev Cut (Cost : Type) := Except String (TokenUsage Cost) × List ModelUse

/-- What the loop over the records by their times holds: the steps written, and of the records read
the messages with the totals of their counts and how many of them have no cost, the place and the
pair each message is named at, and the places of the messages of each pair. -/
structure Prepared (Cost : Type) where
  steps : List (Int × Cut Cost) := []
  unsupported : Bool := false
  messages : Ordered String (Kept Cost) := .empty
  totals : Counts := 0
  withoutCost : Nat := 0
  named : Ordered String (Nat × ModelPair) := .empty
  pairs : Ordered ModelPair (Finset Nat) := .empty

namespace Prepared

def readUsage (state : Prepared Cost) (record : TranscriptRecord Cost) (at_ : Nat) :
    Prepared Cost :=
  match record.usage with
  | none => state
  | some usage =>
    match readCounts usage with
    | none => { state with unsupported := true }
    | some counts =>
      let key := record.key at_
      let found := state.messages.get? key
      let message := found.getD {}
      let withoutCost := if found.isNone then state.withoutCost + 1 else state.withoutCost
      let totals : Counts := fun kind =>
        if message.counts kind < counts kind then
          wrapped (state.totals kind + (counts kind - message.counts kind))
        else state.totals kind
      let kept : Counts := fun kind =>
        if message.counts kind < counts kind then counts kind else message.counts kind
      if record.costUsd.isSome && message.cost.all fun last => decide (last.1 < at_) then
        { state with
          messages := state.messages.insert key ⟨kept, record.costUsd.map fun cost => (at_, cost)⟩
          totals := totals
          withoutCost := if message.cost.isNone then withoutCost - 1 else withoutCost }
      else
        { state with
          messages := state.messages.insert key ⟨kept, message.cost⟩
          totals := totals
          withoutCost := withoutCost }

/-- The pairs without the place a message was named at. -/
def dropPlace (pairs : Ordered ModelPair (Finset Nat)) (old : ModelPair) (first : Nat) :
    Ordered ModelPair (Finset Nat) :=
  match pairs.get? old with
  | none => pairs
  | some positions =>
    if positions.erase first = ∅ then pairs.erase old else pairs.insert old (positions.erase first)

def addPlace (pairs : Ordered ModelPair (Finset Nat)) (pair : ModelPair) (at_ : Nat) :
    Ordered ModelPair (Finset Nat) :=
  pairs.insert pair (Insert.insert at_ ((pairs.get? pair).getD ∅))

def readModel (state : Prepared Cost) (record : TranscriptRecord Cost) (at_ : Nat) :
    Prepared Cost :=
  if record.sidechain then state
  else
    match record.named with
    | none => state
    | some model =>
      let pair : ModelPair := toLex (model, record.effort)
      let key := record.key at_
      match state.named.get? key with
      | some (first, old) =>
        if first < at_ then state
        else
          { state with
            pairs := addPlace (dropPlace state.pairs old first) pair at_
            named := state.named.insert key (at_, pair) }
      | none =>
        { state with
          pairs := addPlace state.pairs pair at_
          named := state.named.insert key (at_, pair) }

def read (state : Prepared Cost) (item : TranscriptRecord Cost × Nat) : Prepared Cost :=
  (state.readUsage item.1 item.2).readModel item.1 item.2

/-- What a cut just past the records read gives. -/
def cut [Costs Cost] (state : Prepared Cost) : Cut Cost :=
  let messages := state.messages.values
  (if state.unsupported || messages.isEmpty then .error usageUnsupported
    else .ok {
      counts := state.totals
      messages := messages.length
      costUsd :=
        if state.withoutCost = 0 then
          some ((messages.map fun message => message.cost.elim Costs.zero Prod.snd).foldl Costs.add
            Costs.zero)
        else none },
    mostFirst (state.pairs.entries.map fun entry =>
      ({ model := (ofLex entry.1).1, effort := (ofLex entry.1).2, messages := entry.2.card },
        entry.2.sup id)))

/-- A step is written once the last record of a time is read. -/
def take [Costs Cost] (state : Prepared Cost) : List (TranscriptRecord Cost × Nat) → Prepared Cost
  | [] => state
  | item :: rest =>
    let next := state.read item
    if rest.head?.any fun later => later.1.at_ == item.1.at_ then next.take rest
    else take { next with steps := next.steps ++ [(item.1.at_, next.cut)] } rest

end Prepared

/-- The tokens and models of a span to every cut of it. -/
structure SpanTokens (Cost : Type) where
  steps : List (Int × Cut Cost)

namespace SpanTokens

/-- The records of a span by their times, those of one time in the transcript's order. -/
def order (records : List (TranscriptRecord Cost)) (start end_ : Int) :
    List (TranscriptRecord Cost × Nat) :=
  (records.zipIdx.filter fun item => item.1.inSpan start end_).mergeSort fun first second =>
    decide (first.1.at_ < second.1.at_ ∨ (first.1.at_ = second.1.at_ ∧ first.2 ≤ second.2))

def new [Costs Cost] (records : List (TranscriptRecord Cost)) (start end_ : Int) :
    SpanTokens Cost :=
  ⟨(Prepared.take {} (order records start end_)).steps⟩

/-- What a cut gives: that of the last step before it. -/
def at_ (tokens : SpanTokens Cost) (cut : Int) : Cut Cost :=
  match (tokens.steps.takeWhile fun step => decide (step.1 < cut)).getLast? with
  | none => (.ok {}, [])
  | some step => step.2

end SpanTokens

end Dagq.Tokens
