/-
This file models the own tokens of a headless turn. Claude says the running totals of a
session per model, and a turn that resumed it used what they are above those the session's
turn before recorded. Codex's rollouts say what each root turn of a thread used, and a turn
counts those that no turn before it did; where they cannot be counted, it used what the
thread's running total is above what the turns before recorded.
-/

import Mathlib.Data.List.Dedup
import Dagq.Lib.Last
import Dagq.Tokens.Execution

namespace Dagq.Tokens

open Lib Ledger

variable {Cost : Type}

/-! ### Tokens after earlier ones -/

/-- What was used after an earlier running total: each count less the earlier one and never below
0. -/
def TokenUsage.since (total earlier : TokenUsage Cost) : TokenUsage Cost where
  counts := fun kind => max 0 (wrapped (total.counts kind - earlier.counts kind))
  messages := 1

namespace ModelTokens

/-- The tokens of the models together. -/
def total (models : List (ModelTokens Cost)) (costUsd : Option Cost) : TokenUsage Cost where
  counts := fun kind => sumCounts (models.map (·.counts kind))
  messages := 1
  costUsd := costUsd

section Since

variable [Costs Cost]

/-- A running cost less an earlier one. -/
def costSince (now then_ : Option Cost) : Option Cost :=
  match now, then_ with
  | some now, some then_ => some (Costs.less now then_)
  | now, none => now
  | none, some _ => none

/-- Add to the own tokens what one model's total is above its earlier one; none where a count
fell. -/
def addSince (earlier own : List (ModelTokens Cost)) (total : ModelTokens Cost) :
    Option (List (ModelTokens Cost)) :=
  match earlier.find? fun before => before.model = total.model with
  | none => some (own ++ [total])
  | some before =>
    let counts : Counts := fun kind => wrapped (total.counts kind - before.counts kind)
    let kinds := [TokenKind.input, .output, .cacheRead, .cacheCreation]
    if kinds.any fun kind => counts kind < 0 then none
    else if kinds.all fun kind => counts kind = 0 then some own
    else some (own ++ [⟨total.model, counts, costSince total.costUsd before.costUsd⟩])

/-- What was used after earlier totals; none where they are not of one session. -/
def since (totals earlier : List (ModelTokens Cost)) : Option (List (ModelTokens Cost)) :=
  if earlier.any fun before => !totals.any fun total => total.model = before.model then none
  else totals.foldlM (addSince earlier) []

end Since

end ModelTokens

/-! ### Rollouts -/

/-- The tokens of one response of a thread. -/
structure UsageRecord (Cost : Type) where
  threadId : String
  rootTurnId : String
  responseId : Option String := none
  model : Option String := none
  tokens : TokenUsage Cost

/-- What a root thread's rollout says of the context of one turn. -/
structure TurnContext where
  peak : Option Int := none
  window : Option Int := none
  compactions : Int := 0

/-- What the rollouts say of an Execution: the root turns listed and the records of the session. -/
structure RolloutUsage (Cost : Type) where
  threadId : String
  turns : List String
  records : List (UsageRecord Cost)
  contexts : Ordered String TurnContext := .empty

/-- The records of some root turns, each response of a thread once. -/
def oncePerResponse (turns : List String) (seen : List (String × String)) :
    List (UsageRecord Cost) → List (UsageRecord Cost)
  | [] => []
  | record :: rest =>
    if record.rootTurnId ∉ turns then oncePerResponse turns seen rest
    else
      match record.responseId with
      | none => record :: oncePerResponse turns seen rest
      | some response =>
        if (record.threadId, response) ∈ seen then oncePerResponse turns seen rest
        else record :: oncePerResponse turns ((record.threadId, response) :: seen) rest

/-- Add a record to its model, where it names one. -/
def addToModel (byModel : List (ModelTokens Cost)) (record : UsageRecord Cost) :
    List (ModelTokens Cost) :=
  match record.model with
  | none => byModel
  | some model =>
    let add (entry : ModelTokens Cost) : ModelTokens Cost :=
      { entry with counts := fun kind => wrapped (entry.counts kind + record.tokens.counts kind) }
    match byModel.findIdx? fun entry => entry.model = model with
    | some at_ => byModel.modify at_ add
    | none => byModel ++ [add { model := model }]

/-- The context of some root turns: the largest peak, the last window and the compactions together. -/
def contextOf (contexts : List TurnContext) : ExecutionContext :=
  .measured (contexts.foldl (fun peak context => max peak context.peak) none)
    (contexts.foldl (fun window context => context.window.or window) none)
    (sumCounts (contexts.map (·.compactions)))

/-- The tokens of an Execution: those of the records of its turns that were not counted before. -/
def RolloutUsage.tokens (rollout : RolloutUsage Cost) (counted : List String) :
    ExecutionTokens Cost :=
  let turns := rollout.turns.filter fun turn => turn ∉ counted
  let records := oncePerResponse turns [] rollout.records
  { tokens := some
      { counts := fun kind => sumCounts (records.map (·.tokens.counts kind)), messages := 1 }
    byModel := records.foldl addToModel []
    source := some .usageRecord
    children := some
      ((records.map (·.threadId)).filter fun thread => thread ≠ rollout.threadId).dedup.length
    turns := turns
    context := contextOf (turns.filterMap rollout.contexts.get?) }

/-! ### What the events of a run's turns say -/

/-- What the end of a turn recorded of its tokens. -/
structure TurnFinished (Cost : Type) where
  turn : Nat
  sessionId : Option String
  tokens : Option (TokenUsage Cost) := none
  tokensTotal : Option (TokenUsage Cost) := none
  tokensTotalByModel : Option (List (ModelTokens Cost)) := none
  tokensTurns : List String := []

/-- The events of a run's turns; `other` is any other event of the run. -/
inductive TurnEvent (Cost : Type) where
  | started (turn : Option Nat) (resume : Bool)
  | finished (turn : TurnFinished Cost)
  | other

namespace TurnEvent

/-- Whether an event is the start of a turn. -/
def starts (turn : Nat) : TurnEvent Cost → Bool
  | started started_ _ => started_ = some turn
  | _ => false

/-- Whether a turn resumed its session, as its start says. -/
def resumes : TurnEvent Cost → Bool
  | started _ resume => resume
  | _ => false

/-- The end of a turn of a session. -/
def finishedIn (session : String) : TurnEvent Cost → Option (TurnFinished Cost)
  | finished turn => if turn.sessionId = some session then some turn else none
  | _ => none

end TurnEvent

/-- The ends of a session's turns, the last one first. -/
def lastFirst (events : List (TurnEvent Cost)) (session : String) : List (TurnFinished Cost) :=
  events.reverse.filterMap (·.finishedIn session)

/-- Whether a turn resumed its session. -/
def resumed (events : List (TurnEvent Cost)) (turn : Nat) : Bool :=
  (lastMatch (·.starts turn) events).any (·.resumes)

/-- The totals that the session's last turn with them recorded. -/
def earlierTotals (events : List (TurnEvent Cost)) (session : String) :
    Option (List (ModelTokens Cost)) :=
  (lastFirst events session).findSome? (·.tokensTotalByModel)

/-- The own tokens per model of a turn whose agent gave the session's running totals. -/
def turnOwnModels [Costs Cost] (events : List (TurnEvent Cost)) (turn : Nat) (session : String)
    (totals : List (ModelTokens Cost)) : List (ModelTokens Cost) :=
  if !resumed events turn then totals
  else ((earlierTotals events session).bind (ModelTokens.since totals)).getD totals

/-- The root turns of a thread that the session's turns counted. -/
def countedRolloutTurns (events : List (TurnEvent Cost)) (session : String) : List String :=
  (events.filterMap (·.finishedIn session)).flatMap (·.tokensTurns)

/-- The last total recorded, and the tokens of the turns after it, of turns the last one first. -/
def recordedAfter (after : TokenUsage Cost) :
    List (TurnFinished Cost) → Option (TokenUsage Cost) × TokenUsage Cost
  | [] => (none, after)
  | turn :: earlier =>
    match turn.tokensTotal, turn.tokens with
    | some recorded, _ => (some recorded, after)
    | none, some own =>
      recordedAfter
        { counts := fun kind => wrapped (after.counts kind + own.counts kind)
          messages := after.messages + 1 } earlier
    | none, none => recordedAfter after earlier

/-- The own tokens of a turn whose rollouts could not be counted, from the thread's running total. -/
def threadTotalOwn (events : List (TurnEvent Cost)) (session : String) (total : TokenUsage Cost) :
    TokenUsage Cost :=
  let (earlier, after) := recordedAfter {} (lastFirst events session)
  if earlier.isNone ∧ after.messages = 0 then { total with messages := 1 }
  else
    let earlier := earlier.getD {}
    total.since { counts := fun kind => wrapped (earlier.counts kind + after.counts kind) }

/-! ### The record of a turn -/

/-- What a turn's output said of its tokens. -/
structure TurnResult (Cost : Type) where
  sessionId : Option String := none
  tokens : Option (TokenUsage Cost) := none
  tokensCumulative : Bool := false
  tokensByModel : List (ModelTokens Cost) := []
  tokensSource : Option TokenSource := none
  tokensReason : Option String := none
  children : Option Int := none
  context : ExecutionContext := .unmeasured ExecutionContext.contextNotRead
  rollout : Option (RolloutUsage Cost) := none

/-- A turn's own tokens, and the running totals of its session, together and per model, when its
provider gives those. -/
def turnTokens [Costs Cost] (events : List (TurnEvent Cost)) (turn : Nat) (result : TurnResult Cost)
    (cost sessionCost : Option Cost) :
    ExecutionTokens Cost × Option (TokenUsage Cost) × List (ModelTokens Cost) :=
  let own : ExecutionTokens Cost :=
    { tokens := result.tokens, byModel := result.tokensByModel, source := result.tokensSource
      reason := result.tokensReason, children := result.children, context := result.context }
  match result.rollout with
  | some rollout =>
    let counted := result.sessionId.elim [] (countedRolloutTurns events)
    (rollout.tokens counted, result.tokens, [])
  | none =>
    match result.tokens.filter fun _ => result.tokensCumulative with
    | none =>
      let tokens := own.tokens.map fun tokens =>
        if sessionCost.isSome then { tokens with costUsd := cost } else tokens
      ({ own with tokens := tokens }, none, [])
    | some total =>
      if result.tokensSource = some .modelUsage then
        let models := result.sessionId.elim result.tokensByModel fun session =>
          turnOwnModels events turn session result.tokensByModel
        ({ own with tokens := some (ModelTokens.total models cost), byModel := models },
          some { total with costUsd := sessionCost.or total.costUsd }, result.tokensByModel)
      else
        let tokens := result.sessionId.elim { total with messages := 1 } fun session =>
          threadTotalOwn events session total
        ({ own with tokens := some tokens }, some total, [])

/-- The end of a turn as its event records it. -/
def turnFinished [Costs Cost] (events : List (TurnEvent Cost)) (turn : Nat)
    (result : TurnResult Cost) (cost sessionCost : Option Cost) : TurnEvent Cost :=
  let (own, total, byModel) := turnTokens events turn result cost sessionCost
  .finished
    { turn := turn
      sessionId := result.sessionId
      tokens := own.tokens
      tokensTotal := total
      tokensTotalByModel := if byModel.isEmpty then none else some byModel
      tokensTurns := own.turns }

/-- What Codex's output said of a turn of a thread: its running total, where `turn.completed` was
read, and the rollouts or why they cannot be counted. -/
def codexResult (thread : String) (total : Option (TokenUsage Cost))
    (rollout : Except String (RolloutUsage Cost)) : TurnResult Cost where
  sessionId := some thread
  tokens := total
  tokensCumulative := true
  tokensSource :=
    match rollout, total with
    | .ok _, _ => some .usageRecord
    | .error _, some _ => some .threadUsage
    | .error _, none => none
  tokensReason :=
    match rollout with
    | .ok _ => none
    | .error why => some why
  context :=
    match rollout with
    | .ok rollout => (rollout.tokens []).context
    | .error why => .unmeasured why
  rollout := rollout.toOption

end Dagq.Tokens
