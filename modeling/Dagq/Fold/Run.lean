/-
This file models how the events of a run are folded into intervals: from its
claim, each record of a phase lasts to the next one, and the last one to its end,
to the push that closes it, or to now. Nothing else moves a boundary.
-/

import Dagq.Ledger.Event

namespace Dagq.Fold

open Dagq.Ledger

/-! ### Phases and tags -/

/-- The phase name of time no record accounts for. -/
def unattributed : String := "unattributed"

def ended : String := "ended"

/-- The phase a run whose push failed waits in. -/
def pushPending : String := "push_pending"

/-- The cause of an end by a push. -/
def pushed : String := "pushed"

/-- A value of an enumeration without fields: its name, or an object that holds only it. -/
def unitVariant : Value → Option String
  | .text name => some name
  | .object [(name, .null)] => some name
  | _ => none

/-- What decides when the run moves on. -/
inductive Blocker where
  | queue
  | ai
  | compute
  | human
  | runtime
  | external
  | infra
  deriving DecidableEq, Repr

def Blocker.of : String → Option Blocker
  | "queue" => some queue
  | "ai" => some ai
  | "compute" => some compute
  | "human" => some human
  | "runtime" => some runtime
  | "external" => some external
  | "infra" => some infra
  | _ => none

/-- The slot the run holds meanwhile. -/
inductive Holds where
  | workerSlot
  | landingSlot
  | none
  deriving DecidableEq, Repr

def Holds.of : String → Option Holds
  | "worker_slot" => some workerSlot
  | "landing_slot" => some landingSlot
  | "none" => some none
  | _ => Option.none

inductive AttemptKind where
  | first
  | revise
  | conflict
  | resume
  deriving DecidableEq, Repr

def AttemptKind.of : String → Option AttemptKind
  | "first" => some first
  | "revise" => some revise
  | "conflict" => some conflict
  | "resume" => some resume
  | _ => none

/-- The run's attempt: its kind, and which of that kind. -/
structure Attempt where
  kind : AttemptKind
  n : Nat
  deriving DecidableEq, Repr

/-- A count of 64 bits. -/
def asUsize : Value → Option Nat
  | .int number => if 0 ≤ number ∧ number < 2 ^ 64 then some number.toNat else none
  | _ => none

def Attempt.of (value : Value) : Option Attempt :=
  match value with
  | .object _ => do
    let kind ← (value.get "kind").bind unitVariant
    let n ← (value.get "n").bind asUsize
    return ⟨← AttemptKind.of kind, n⟩
  | .list [kind, n] => do
    let kind ← unitVariant kind
    return ⟨← AttemptKind.of kind, ← asUsize n⟩
  | _ => none

/-! ### Intervals -/

/-- One interval of a life: its phase and tags, its start and end, and what moved the run
into it. -/
structure Interval where
  phase : String
  blocker : Option Blocker
  holds : Option Holds
  attempt : Option Attempt := none
  start : Int
  end_ : Int
  cause : Option String := none
  blockedBy : Option String := none
  runId : Option String := none
  deriving DecidableEq, Repr

namespace Interval

def tagged (phase : String) (blocker : Blocker) (holds : Holds) (start end_ : Int) : Interval where
  phase := phase
  blocker := some blocker
  holds := some holds
  start := start
  end_ := end_

def unattributed (start end_ : Int) : Interval :=
  { tagged Fold.unattributed .runtime .none start end_ with blocker := none, holds := none }

def millis (interval : Interval) : Int := interval.end_ - interval.start

end Interval

/-! ### Milestones -/

/-- When a run first reached each point its events name. -/
structure Milestones where
  claimed : Option Int := none
  agentStarted : Option Int := none
  firstCommit : Option Int := none
  receipt : Option Int := none
  validated : Option Int := none
  integrated : Option Int := none
  deriving DecidableEq, Repr

def Milestones.observe (milestones : Milestones) (event : RunEvent) (at_ : Int) : Milestones :=
  match event.kind with
  | .runClaimed => { milestones with claimed := milestones.claimed.or (some at_) }
  | .agentStarted => { milestones with agentStarted := milestones.agentStarted.or (some at_) }
  | .firstCommitObserved => { milestones with firstCommit := milestones.firstCommit.or (some at_) }
  | .receiptObserved => { milestones with receipt := milestones.receipt.or (some at_) }
  | .validationFinished => { milestones with validated := milestones.validated.or (some at_) }
  | .runIntegrated => { milestones with integrated := milestones.integrated.or (some at_) }
  | _ => milestones

def milestonesOf (events : List RunEvent) : Milestones :=
  events.foldl (fun milestones event =>
    match event.millis with
    | some at_ => milestones.observe event at_
    | none => milestones) {}

/-! ### Pushes -/

/-- The remote and the branch a push records, each absent when not recorded as text. -/
structure PushedTo where
  remote : Option String
  branch : Option String
  deriving DecidableEq, Repr

def PushedTo.of (event : RunEvent) : PushedTo :=
  match event.payload with
  | .list [] => ⟨none, none⟩
  | .list [remote] => ⟨remote.asStr, none⟩
  | .list [remote, branch] => ⟨remote.asStr, branch.asStr⟩
  | _ => ⟨event.text "remote", event.text "branch"⟩

/-- Whether `push` closes a `push_pending` whose failed push was to `failed`: of the remote and
the branch, each that one records is the same. -/
def PushedTo.closedBy (failed : PushedTo) (push : RunEvent) (after : Nat) : Bool :=
  push.kind = .pushFinished ∧ after < push.id ∧
    (failed.remote = none ∨ failed.remote = (PushedTo.of push).remote) ∧
    (failed.branch = none ∨ failed.branch = (PushedTo.of push).branch)

def closingPush (failed : Option RunEvent) (pushes : List RunEvent) (after : Nat) :
    Option RunEvent :=
  let failed := (failed.map PushedTo.of).getD ⟨none, none⟩
  pushes.find? fun push => failed.closedBy push after

/-- The first push after the event `after` to the remote and the branch of the run's last failed
push. -/
def laterPush (events pushes : List RunEvent) (after : Nat) : Option RunEvent :=
  closingPush (events.reverse.find? fun event => event.kind = .pushFailed ∧ event.id < after)
    pushes after

/-! ### A run -/

/-- One `run_phase_changed` as the fold reads it. -/
structure Record where
  event : RunEvent
  at_ : Int

namespace Record

variable (record : Record)

def phase : String := (record.event.text "phase").getD unattributed

def interval (start end_ : Int) : Interval :=
  let payload := record.event.payload
  match ((payload.get "blocker").bind unitVariant).bind Blocker.of,
    ((payload.get "holds").bind unitVariant).bind Holds.of with
  | some blocker, some holds =>
    { phase := record.phase
      blocker := some blocker
      holds := some holds
      attempt := (payload.get "attempt").bind Attempt.of
      start := start
      end_ := end_
      cause := record.event.text "cause"
      blockedBy := record.event.text "blocked_by" }
  -- A record without tags it can read accounts for nothing.
  | _, _ => { Interval.unattributed start end_ with cause := record.event.text "cause" }

end Record

def recordsOf (events : List RunEvent) : List Record :=
  events.filterMap fun event =>
    if event.kind = .runPhaseChanged then event.millis.map fun at_ => ⟨event, at_⟩ else none

/-- Whether the events say that the run finished. -/
def finished (events : List RunEvent) : Bool :=
  events.any fun event =>
    event.kind = .runIntegrated ∨
      ∃ status ∈ ["failed", "interrupted", "succeeded", "integrated"],
        event.text "status" = some status

/-- What the records of a run come to: its intervals, and its end when it is settled. -/
structure Walked where
  intervals : List Interval
  end_ : Option Int := none
  outcome : Option String := none
  closedBy : Option String := none
  closing : Option Nat := none
  deriving DecidableEq, Repr

section Walk

variable (events pushes : List RunEvent) (nowMs : Int)

/-- The last record, from its start on. -/
def lastRecord (record : Record) (start : Int) : Walked :=
  if record.phase = ended then
    { intervals := [], end_ := some start, outcome := record.event.text "cause" }
  else
    match if record.phase = pushPending then laterPush events pushes record.event.id else none with
    | some push =>
      let to_ := max (push.millis.getD start) start
      { intervals := [record.interval start to_]
        end_ := some to_
        outcome := some pushed
        closedBy := push.runId
        closing := some push.id }
    | none => { intervals := [record.interval start (max nowMs start)] }

def walk (cursor : Int) : List Record → Walked
  | [] => { intervals := [] }
  | [record] => lastRecord events pushes nowMs record (max record.at_ cursor)
  | record :: next :: rest =>
    let start := max record.at_ cursor
    let to_ := max next.at_ start
    let after := walk to_ (next :: rest)
    { after with intervals := record.interval start to_ :: after.intervals }

end Walk

/-- A run's life folded: from its claim, intervals up to its end, or up to now. -/
structure RunLife where
  start : Int
  intervals : List Interval
  end_ : Option Int
  outcome : Option String
  closedBy : Option String
  milestones : Milestones
  inputsThrough : Nat
  deriving DecidableEq, Repr

/-- The greatest id of events, or zero. -/
def lastId (events : List RunEvent) : Nat := ((events.map (·.id)).max?).getD 0

/-- Fold one run's events; none for a run that finished with no record of a phase. -/
def foldRun (events pushes : List RunEvent) (nowMs : Int) : Option RunLife :=
  let records := recordsOf events
  if records.isEmpty && finished events then none
  else
    let milestones := milestonesOf events
    let firstAt := (records.head?.map (·.at_)).getD nowMs
    let start := min
      ((milestones.claimed.or (events.head?.bind (·.millis))).getD firstAt) firstAt
    let walked := walk events pushes nowMs start records
    some
      { start := start
        intervals :=
          (if firstAt > start then [Interval.unattributed start firstAt] else []) ++
            walked.intervals
        end_ := walked.end_
        outcome := walked.outcome
        closedBy := walked.closedBy
        milestones := milestones
        inputsThrough := max (lastId events) (walked.closing.getD 0) }

end Dagq.Fold
