/-
This file models the totals of an interactive session's span to a cut of its transcript,
all of them and per model, and what the totals of one cut add to those of the cut
before: each count less the earlier one and never below 0.
-/

import Dagq.Tokens.Execution
import Dagq.Tokens.Prepared

namespace Dagq.Tokens

open Lib Ledger

variable {Cost : Type}

/-- The model of the messages no record of which names one. -/
def modelUnknown : String := "unknown"

/-- The tokens of a span from its start to a cut, and the same per model. -/
structure SpanTotals (Cost : Type) where
  tokens : TokenUsage Cost
  byModel : List (ModelTokens Cost)

namespace SpanTotals

/-! ### The totals to a cut -/

/-- A message, and the model that its first record naming one names. -/
structure Named (Cost : Type) where
  message : Message Cost := {}
  model : Option String := none

/-- The counts of a usage, 0 where a number is missing. -/
def countsOf (usage : Value) : Counts :=
  let number (key : String) : Int := ((usage.get key).bind Value.asI64).getD 0
  fun
    | .input => number "input_tokens"
    | .output => number "output_tokens"
    | .cacheRead => number "cache_read_input_tokens"
    | .cacheCreation => number "cache_creation_input_tokens"

/-- Read one record into the messages. A record without a usage can name the model of a message read
before. -/
def readMessage (start end_ : Int) (messages : Ordered String (Named Cost))
    (item : TranscriptRecord Cost × Nat) : Ordered String (Named Cost) :=
  let (record, at_) := item
  if !record.inSpan start end_ then messages
  else
    let key := record.key at_
    match record.usage, messages.get? key with
    | none, none => messages
    | none, some held => messages.insert key { held with model := held.model.or record.named }
    | some usage, found =>
      let held := found.getD {}
      messages.insert key
        { message :=
            { counts := fun kind => max (held.message.counts kind) (countsOf usage kind)
              cost := record.costUsd.or held.message.cost }
          model := held.model.or record.named }

section Costs

variable [Costs Cost]

/-- Add a message to its model; the cost of a model only while every message of it has one. -/
def addMessage (models : Ordered String (Counts × Option Cost)) (named : Named Cost) :
    Ordered String (Counts × Option Cost) :=
  let model := named.model.getD modelUnknown
  let (counts, cost) := (models.get? model).getD (0, some Costs.zero)
  models.insert model
    (fun kind => wrapped (counts kind + named.message.counts kind),
      cost.bind fun total => named.message.cost.map (Costs.add total))

/-- The totals of the records from `start` and before `end_`, where their usage can be read. -/
def of (records : List (TranscriptRecord Cost)) (start end_ : Int) :
    Except String (SpanTotals Cost) := do
  let tokens ← spanUsage records start end_
  let messages := records.zipIdx.foldl (readMessage start end_) .empty
  let models := messages.values.foldl addMessage .empty
  .ok
    { tokens := tokens
      byModel := models.entries.map fun (model, counts, cost) => ⟨model, counts, cost⟩ }

/-! ### What a cut adds -/

/-- A count less an earlier one, never below 0. -/
def less (now then_ : Int) : Int := max 0 (wrapped (now - then_))

/-- A cost less an earlier one, where both are known. -/
def lessCost (now then_ : Option Cost) : Option Cost :=
  match now, then_ with
  | some now, some then_ => some (Costs.less now then_)
  | _, _ => none

/-- What a model's total adds to the earlier totals, left out where it is nothing. -/
def modelSince (earlier : List (ModelTokens Cost)) (total : ModelTokens Cost) :
    Option (ModelTokens Cost) :=
  match earlier.find? fun before => before.model = total.model with
  | none => some total
  | some before =>
    let own : ModelTokens Cost :=
      { model := total.model
        counts := fun kind => less (total.counts kind) (before.counts kind)
        costUsd := lessCost total.costUsd before.costUsd }
    if [TokenKind.input, .output, .cacheRead, .cacheCreation].any fun kind => own.counts kind > 0
    then some own
    else none

/-- The tokens of the cut these totals are to, after the cut before. -/
def since (totals : SpanTotals Cost) (earlier : Option (SpanTotals Cost)) : ExecutionTokens Cost :=
  match earlier with
  | none =>
    { tokens := some totals.tokens, byModel := totals.byModel, source := some .transcript }
  | some earlier =>
    { tokens := some
        { counts := fun kind => less (totals.tokens.counts kind) (earlier.tokens.counts kind)
          messages := less totals.tokens.messages earlier.tokens.messages
          costUsd := lessCost totals.tokens.costUsd earlier.tokens.costUsd }
      byModel := totals.byModel.filterMap (modelSince earlier.byModel)
      source := some .transcript }

/-- The own tokens of cuts with these totals, each after the cut before. -/
def ownOf (earlier : Option (SpanTotals Cost)) :
    List (SpanTotals Cost) → List (ExecutionTokens Cost)
  | [] => []
  | totals :: rest => totals.since earlier :: ownOf (some totals) rest

end Costs

end SpanTotals

end Dagq.Tokens
