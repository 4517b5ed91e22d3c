/-
This file models the tokens of one Execution as its record carries them: all of them and
those of each model, what they were counted from, and how large its context grew.
-/

import Dagq.Tokens.Span

namespace Dagq.Tokens

/-- Where the tokens of an Execution were counted from. -/
inductive TokenSource where
  | modelUsage
  | resultUsage
  | threadUsage
  | transcript
  | usageRecord
  deriving DecidableEq, Repr

/-- One model's tokens in an Execution, and what they cost when the provider says. -/
structure ModelTokens (Cost : Type) where
  model : String
  counts : Counts := 0
  costUsd : Option Cost := none

/-- The input of an Execution's largest call, the model's window and how often it was compacted. -/
structure ExecutionContext where
  peak : Option Int
  window : Option Int
  compactions : Option Int
  reason : Option String
  deriving DecidableEq, Repr

namespace ExecutionContext

/-- An Execution made no call of the model whose input could be read. -/
def noCall : String := "no_call"

/-- The provider's reader does not read the context. -/
def contextNotRead : String := "context_not_read"

/-- Nothing measured. -/
def unmeasured (reason : String) : ExecutionContext := ⟨none, none, none, some reason⟩

/-- The context of calls whose largest input was `peak`. -/
def measured (peak window : Option Int) (compactions : Int) : ExecutionContext where
  peak := peak
  window := window
  compactions := some compactions
  reason := if peak.isNone then some noCall else none

end ExecutionContext

/-- The tokens of one Execution. -/
structure ExecutionTokens (Cost : Type) where
  tokens : Option (TokenUsage Cost) := none
  byModel : List (ModelTokens Cost) := []
  source : Option TokenSource := none
  reason : Option String := none
  children : Option Int := none
  turns : List String := []
  context : ExecutionContext := .unmeasured ExecutionContext.contextNotRead

/-- The count of a kind, none counted as 0. -/
def ExecutionTokens.counted {Cost : Type} (own : ExecutionTokens Cost) (kind : TokenKind) : Int :=
  own.tokens.elim 0 (·.counts kind)

end Dagq.Tokens
