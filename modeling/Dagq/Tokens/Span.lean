/-
This file models what a session's transcript says of its tokens and models: the
assistant records of a span are taken in the transcript's order, a message counts with
the largest counts of its records and the cost of the last that has one, and once
with the model and effort of the first that names a model. Sums are of 64 bits. A cost
is a number of any kind that is added up, in the order of the messages' ids.
-/

import Mathlib.Data.Prod.Lex
import Mathlib.Data.String.Basic
import Mathlib.Order.WithBot
import Dagq.Ledger.Event
import Dagq.Lib.Ordered

namespace Dagq.Tokens

open Lib Ledger

/-- What costs are added with, and what one is more than another: the difference rounded to a
millionth and never below zero. -/
class Costs (Cost : Type) where
  zero : Cost
  add : Cost → Cost → Cost
  less : Cost → Cost → Cost

/-- Whole numbers of millionths as costs. -/
instance : Costs Int where
  zero := 0
  add := (· + ·)
  less first second := max 0 (first - second)

/-- The kinds of token. -/
inductive TokenKind where
  | input
  | output
  | cacheRead
  | cacheCreation
  deriving DecidableEq, Repr

/-- A count of each kind of token. -/
abbrev Counts := TokenKind → Int

/-- The tokens of a span, the messages they came from and what these cost. -/
structure TokenUsage (Cost : Type) where
  counts : Counts := 0
  messages : Int := 0
  costUsd : Option Cost := none

/-- The usage of a record cannot be read. -/
def usageUnsupported : String := "usage_unsupported"

/-- The model named for a message that no model wrote. -/
def syntheticModel : String := "<synthetic>"

/-- What the tokens of a span are read from a transcript's record. -/
structure TranscriptRecord (Cost : Type) where
  at_ : Int
  assistant : Bool := true
  sidechain : Bool := false
  usage : Option Value := none
  messageId : Option String := none
  costUsd : Option Cost := none
  model : Option String := none
  effort : Option String := none

variable {Cost : Type}

/-! ### One record -/

/-- Whether a record is an assistant's from `start` and before `end_`. -/
def TranscriptRecord.inSpan (record : TranscriptRecord Cost) (start end_ : Int) : Bool :=
  record.assistant && decide (start ≤ record.at_) && decide (record.at_ < end_)

/-- A field of a usage, and the number it is. -/
def count (usage : Value) (key : String) : Option (Option Int) := (usage.get key).map Value.asI64

/-- The counts of a usage; none without a number of input and output tokens. -/
def readCounts (usage : Value) : Option Counts :=
  match count usage "input_tokens", count usage "output_tokens" with
  | some (some input), some (some output) =>
    let cache (key : String) := (count usage key).join.getD 0
    some fun
      | .input => input
      | .output => output
      | .cacheRead => cache "cache_read_input_tokens"
      | .cacheCreation => cache "cache_creation_input_tokens"
  | _, _ => none

/-- The message of a record: one without an id is a message of its own. -/
def TranscriptRecord.key (record : TranscriptRecord Cost) (at_ : Nat) : String :=
  record.messageId.getD ("#" ++ toString at_)

/-- The model that a record names. -/
def TranscriptRecord.named (record : TranscriptRecord Cost) : Option String :=
  record.model.filter fun model => model != syntheticModel

/-! ### The tokens of a span -/

/-- A message's counts and cost. -/
structure Message (Cost : Type) where
  counts : Counts := 0
  cost : Option Cost := none

/-- What the loop over the records holds. -/
structure UsageScan (Cost : Type) where
  messages : Ordered String (Message Cost) := .empty
  assistants : Nat := 0

def UsageScan.read (start end_ : Int) (scan : UsageScan Cost) (item : TranscriptRecord Cost × Nat) :
    Except String (UsageScan Cost) :=
  let (record, at_) := item
  if !record.inSpan start end_ then .ok scan
  else
    let scan := { scan with assistants := scan.assistants + 1 }
    match record.usage with
    | none => .ok scan
    | some usage =>
      match readCounts usage with
      | none => .error usageUnsupported
      | some counts =>
        let key := record.key at_
        let message := (scan.messages.get? key).getD {}
        .ok { scan with
          messages := scan.messages.insert key
            { counts := fun kind => max (message.counts kind) (counts kind)
              cost := record.costUsd.or message.cost } }

/-- The sum of costs, when there are all of them. -/
def sumCosts [Costs Cost] (costs : List (Option Cost)) : Option Cost :=
  costs.foldlM (fun total cost => cost.map (Costs.add total)) Costs.zero

/-- A sum of 64 bits. -/
def sumCounts (counts : List Int) : Int := counts.foldl (fun total count => wrapped (total + count)) 0

/-- The tokens of the assistant records from `start` and before `end_`. -/
def spanUsage [Costs Cost] (records : List (TranscriptRecord Cost)) (start end_ : Int) :
    Except String (TokenUsage Cost) := do
  let scan ← records.zipIdx.foldlM (UsageScan.read start end_) {}
  let messages := scan.messages.values
  if scan.assistants > 0 && messages.isEmpty then .error usageUnsupported
  else .ok {
    counts := fun kind => sumCounts (messages.map (·.counts kind))
    messages := messages.length
    costUsd := if messages.isEmpty then none else sumCosts (messages.map (·.cost)) }

/-! ### The models of a span -/

/-- A model and an effort, by model and an absent effort first. -/
abbrev ModelPair := String ×ₗ WithBot String

/-- A model and effort, and how many messages they wrote. -/
structure ModelUse where
  model : String
  effort : Option String
  messages : Int
  deriving DecidableEq, Repr

/-- The uses with the place of the last message of each: the one with the most messages first, the
later one where two have as many. -/
def mostFirst (uses : List (ModelUse × Nat)) : List ModelUse :=
  (uses.mergeSort fun first second =>
    decide (second.1.messages < first.1.messages ∨
      (first.1.messages = second.1.messages ∧ second.2 ≤ first.2))).map Prod.fst

/-- What the loop over the records holds: the messages seen, and each pair with its messages and the
place of the last. -/
structure ModelScan where
  seen : List String := []
  pairs : Ordered ModelPair (Int × Nat) := .empty

def ModelScan.read (start end_ : Int) (scan : ModelScan) (item : TranscriptRecord Cost × Nat) :
    ModelScan :=
  let (record, at_) := item
  if !record.inSpan start end_ || record.sidechain then scan
  else
    match record.named with
    | none => scan
    | some model =>
      let key := record.key at_
      if key ∈ scan.seen then scan
      else
        let pair : ModelPair := toLex (model, record.effort)
        let messages := ((scan.pairs.get? pair).getD (0, 0)).1
        { seen := key :: scan.seen, pairs := scan.pairs.insert pair (messages + 1, at_) }

/-- The models and efforts of the session's own messages from `start` and before `end_`. -/
def spanModels (records : List (TranscriptRecord Cost)) (start end_ : Int) : List ModelUse :=
  let scan := records.zipIdx.foldl (ModelScan.read start end_) {}
  mostFirst (scan.pairs.entries.map fun entry =>
    ({ model := (ofLex entry.1).1, effort := (ofLex entry.1).2, messages := entry.2.1 }, entry.2.2))

end Dagq.Tokens
