/-
This file models how the events of a task are folded into intervals: the folds of
its runs, each cut to the time the runs before it left and to the task's end, and
between them the task's statuses, its time ready split at the `ready_at` of the
next claim and its parts under a hold told apart. The waits before a claim are
laid over the time ready that is left.

A time that never comes, the end of the last status and of an open hold, is none.
-/

import Dagq.Fold.Run
import Dagq.PreClaim.Book
import Dagq.PreClaim.Spans
import Mathlib.Data.List.Sort

namespace Dagq.Fold

open Dagq.Ledger Dagq.PreClaim

/-- A task's time ready, after its prerequisites were done. -/
def ready : String := "ready"

/-- A task's time ready, before the last of its prerequisites was done. -/
def dependencyWait : String := "dependency_wait"

/-- A task's time submitted, waiting for or under plan review. -/
def planReview : String := "plan_review"

/-- A task's time as a draft. -/
def draft : String := "draft"

/-- A task's time ready under its hold. -/
def held : String := "held"

/-! ### Statuses -/

/-- An event that moves the task to another status. -/
def isMove (event : RunEvent) : Bool :=
  event.kind = .taskStatusChanged ∨ event.kind = .runClaimed

def movesOf (events : List RunEvent) : List (Int × RunEvent) :=
  events.filterMap fun event =>
    if isMove event then event.millis.map fun at_ => (at_, event) else none

/-- The statuses moved to, none of them earlier than the one before. -/
def movedTo (began : Int) : List (Int × RunEvent) → List (Int × String)
  | [] => []
  | (at_, event) :: rest =>
    match event.text "to" with
    | some to_ => (max began at_, to_) :: movedTo (max began at_) rest
    | none => movedTo began rest

/-- The task's statuses from `start`, each with when it began. -/
def statuses (events : List RunEvent) (start : Int) : List (Int × String) :=
  let moves := movesOf events
  (start, (moves.head?.bind fun move => move.2.text "from").getD unattributed) ::
    movedTo start moves

/-- The first event by which the task was ready. -/
def readyMoved (events : List RunEvent) : Option Nat :=
  (events.filter isMove).findSome? fun event =>
    if event.text "to" = some "ready" then some event.id
    else if event.text "from" = some "ready" then events.head?.map (·.id)
    else none

/-! ### Holds -/

/-- Whether the event closes a hold. -/
def endsHold (event : RunEvent) : Bool :=
  event.kind = .taskReleased ∨ event.kind = .taskHoldEnded

structure HoldSpan where
  id : Option Int
  start : Int
  end_ : Option Int
  deriving DecidableEq, Repr

/-- Close the first open hold with the id, or without one. -/
def closeHold (id : Option Int) (at_ : Int) : List HoldSpan → List HoldSpan
  | [] => []
  | span :: rest =>
    if span.end_ = none ∧ (span.id = none ∨ span.id = id) then
      { span with end_ := some (max at_ span.start) } :: rest
    else span :: closeHold id at_ rest

def holdId (event : RunEvent) : Option Int := (event.payload.get "hold_id").bind Value.asI64

/-- The holds of a task, none as the end of one still open. -/
def taskHoldSpans (events : List RunEvent) : List (Int × Option Int) :=
  let spans := events.foldl (fun spans event =>
    match event.millis with
    | none => spans
    | some at_ =>
      if event.kind = .taskHeld then spans ++ [⟨holdId event, at_, none⟩]
      else if endsHold event then closeHold (holdId event) at_ spans
      else spans) ([] : List HoldSpan)
  spans.map fun span => (span.start, span.end_)

/-! ### The composer -/

/-- Whether one pair of times is before another, or the same. -/
def pairBefore (one other : Int × Int) : Prop :=
  one.1 < other.1 ∨ (one.1 = other.1 ∧ one.2 ≤ other.2)

instance : DecidableRel pairBefore := fun _ _ => inferInstanceAs (Decidable (_ ∨ _))

/-- Lays a task's statuses into intervals between its runs. -/
structure Composer where
  statuses : List (Int × String)
  /-- The task's holds, an open one without an end. -/
  holds : List (Int × Option Int)
  /-- Each run's claim and the `ready_at` it recorded. -/
  claims : List (Int × Option Int)

namespace Composer

variable (composer : Composer)

/-- Time ready from `cursor` to `to_`, told apart by holds in order. -/
def readyParts (phase : String) (to_ : Int) : Int → List (Int × Int) → List Interval
  | cursor, [] => if to_ > cursor then [.tagged phase .queue .none cursor to_] else []
  | cursor, (start, end_) :: holds =>
    let start := max start cursor
    if end_ ≤ start then readyParts phase to_ cursor holds
    else
      (if start > cursor then [Interval.tagged phase .queue .none cursor start] else []) ++
        Interval.tagged held .human .none start end_ :: readyParts phase to_ end_ holds

/-- The time `phase` of a task ready from `start` to `to_`, its parts under a hold apart. -/
def pushReady (phase : String) (start to_ : Int) : List Interval :=
  let holds := composer.holds.map fun hold =>
    (max hold.1 start, (hold.2.map fun end_ => min end_ to_).getD to_)
  readyParts phase to_ start
    ((holds.filter fun hold => hold.1 < hold.2).insertionSort pairBefore)

def status (name : String) (start to_ : Int) : List Interval :=
  if name = "draft" then [.tagged draft .human .none start to_]
  else if name = "submitted" then [.tagged planReview .ai .none start to_]
  else if name = "ready" then
    -- Ready before the last prerequisite was done is a wait for the dependencies, as the
    -- next claim recorded it.
    let readyAt := ((composer.claims.find? fun claim => start ≤ claim.1).bind Prod.snd).map
      fun readyAt => max start (min readyAt to_)
    match readyAt.filter fun readyAt => start < readyAt with
    | some readyAt =>
      composer.pushReady dependencyWait start readyAt ++
        if to_ > readyAt then composer.pushReady ready readyAt to_ else []
    | none => composer.pushReady ready start to_
  -- In progress with no run on it, or a status the fold does not know.
  else [.unattributed start to_]

def statusesFrom (start to_ : Int) : List (Int × String) → List Interval
  | [] => []
  | (began, name) :: rest =>
    let a := max began start
    let b := (rest.head?.map fun next => min next.1 to_).getD to_
    (if b > a then composer.status name a b else []) ++ statusesFrom start to_ rest

def statusesBetween (start to_ : Int) : List Interval :=
  composer.statusesFrom start to_ composer.statuses

end Composer

/-! ### Overlays -/

/-- A wait of the supervisors laid over a task's time ready, cut to it. -/
structure Overlay where
  kind : String
  supervisor : Option String
  class_ : Option String
  reason : Option String
  start : Int
  end_ : Int
  deriving DecidableEq, Repr

/-- Of the waits that bear on a task's time ready: the greatest reach, whether one is open on a
time ready that ended, and those their supervisor's life ended. -/
structure Reach where
  waits : Option Nat := none
  open_ : Bool := false
  lifeEnded : List (Nat × Nat) := []
  deriving DecidableEq, Repr

/-- The first event by which the task was ready, and its time ready up to now. -/
structure Ready where
  moved : Option Nat
  open_ : Option (Int × Int)

/-- A wait's name in the overlays: of the task's own, or of any. -/
def overlayKind (task : Nat) (wait : PreClaimInterval) : Option String :=
  match wait.kind with
  | .slotsFull => some "slots_full"
  | .claimHold => some "claim_hold"
  | .claimDeferral => if wait.taskId = some task then some "claim_deferral" else none

section Overlays

variable (intervals : List Interval) (nowMs : Int) (ready_ : Ready)

def readyIntervals : List Interval := intervals.filter fun interval => interval.phase = ready

def overlayOf (kind : String) (wait : PreClaimInterval) (start : Int)
    (reach : Reach) : List Overlay × Reach :=
  let end_ := (wait.endedAt.bind timestampMillis).getD nowMs
  let lifeEnded : Bool := wait.end_ = some endedSupervisorGone
  -- A silence's end names no supervisor; a stop's names it.
  let silent := lifeEnded && wait.endedBy.isNone
  let onReady := (readyIntervals intervals).any fun interval =>
    start < interval.end_ && (end_ > interval.start || lifeEnded)
  let endedAfterReady := wait.endedAt.isSome && ready_.moved.any (fun moved => wait.reach > moved) &&
    (ready_.open_.any (fun span => start ≤ span.2 && end_ < span.1) ||
      (readyIntervals intervals).any fun interval =>
        start < interval.end_ && end_ ≤ interval.start)
  let bears := onReady || endedAfterReady ||
    ready_.open_.any fun span => start ≤ span.2 && (end_ ≥ span.1 || lifeEnded)
  -- Up to now, any end by then falls on it; on a time past, one before its end.
  let moves := lifeEnded &&
    (ready_.open_.any (fun span => start ≤ span.2 && (silent || end_ ≥ span.1)) ||
      (readyIntervals intervals).any fun interval =>
        start < interval.end_ &&
          (silent || (end_ ≥ interval.start && end_ < interval.end_)))
  ((readyIntervals intervals).filterMap fun interval =>
      if min end_ interval.end_ > max start interval.start then
        some ⟨kind, wait.supervisor, wait.class_.map SlotClass.asStr, wait.reason,
          max start interval.start, min end_ interval.end_⟩
      else none,
    { waits := if bears then some (max (reach.waits.getD 0) wait.reach) else reach.waits
      open_ := reach.open_ || (ready_.open_.isNone && onReady && wait.endedAt.isNone)
      lifeEnded := reach.lifeEnded ++ if moves then [(wait.id, wait.reach)] else [] })

/-- The waits that fall on the task's time ready, cut to it, and the reach of those that bear
on it. -/
def overlays (task : Nat) (preClaim : List PreClaimInterval) : List Overlay × Reach :=
  preClaim.foldl (fun laid wait =>
    match overlayKind task wait, timestampMillis wait.startedAt with
    | some kind, some start =>
      let (more, reach) := overlayOf intervals nowMs ready_ kind wait start laid.2
      (laid.1 ++ more, reach)
    | _, _ => laid) ([], {})

end Overlays

/-- The time spans in order cover together, past `reach`. -/
def mergedFrom (reach : Option Int) : List (Int × Int) → Int
  | [] => 0
  | (start, end_) :: rest =>
    let start := (reach.map (max start)).getD start
    (if end_ > start then end_ - start else 0) +
      mergedFrom (some ((reach.map (max end_)).getD end_)) rest

def mergedMillis (overlays : List Overlay) : Int :=
  mergedFrom none ((overlays.map fun overlay => (overlay.start, overlay.end_)).insertionSort
    pairBefore)

/-! ### A task -/

/-- A run of a task: its claim's `ready_at`, and its fold. -/
structure TaskRun where
  run : String
  readyAt : Option Int
  life : RunLife

/-- A task's life folded: from its creation to its end, or to now while it is not settled. -/
structure TaskLife where
  start : Int
  intervals : List Interval
  end_ : Option Int
  outcome : Option String
  readyAt : Option Int
  firstClaimed : Option Int
  runs : List String
  overlays : List Overlay
  /-- Per kind the time its overlays cover. -/
  overlayMillis : List (String × Int)
  inputsThrough : Nat
  lifeEnded : List (Nat × Nat)
  readySince : Option Int
  waitsOpen : Bool
  deriving DecidableEq, Repr

inductive TaskFold where
  | life (life : TaskLife)
  /-- A run of it has no record of a phase: the task is not folded either. -/
  | legacy (runs : List String)
  deriving DecidableEq, Repr

/-- Each claim's run with what it folds to. -/
def claimedRuns (events pushes : List RunEvent) (nowMs : Int) :
    List (String × Option Int × Option RunLife) :=
  (events.filter fun event => event.kind = .runClaimed).filterMap fun claim =>
    claim.runId.map fun run =>
      (run, (claim.text "ready_at").bind timestampMillis,
        foldRun (events.filter fun event => event.runId = some run) pushes nowMs)

/-- The runs between them laid one after another: the statuses up to a run, then the run cut to
the time left. -/
def layRuns (composer : Composer) (horizon : Int) : Int → List TaskRun → List Interval
  | cursor, [] => composer.statusesBetween cursor horizon
  | cursor, run :: rest =>
    let runStart := max cursor (min run.life.start horizon)
    let runEnd := (run.life.intervals.getLast?.map (·.end_)).getD run.life.start
    composer.statusesBetween cursor runStart ++
      run.life.intervals.filterMap (fun interval =>
        if min interval.end_ horizon > max interval.start runStart then
          some { interval with
            start := max interval.start runStart
            end_ := min interval.end_ horizon
            runId := some run.run }
        else none) ++
      layRuns composer horizon (max cursor (min runEnd horizon)) rest

/-- How the task ended, when it has: as its last status says, at the end of its landed run's
push. -/
def endOf (statuses : List (Int × String)) (runs : List TaskRun) : Option Int × Option String :=
  match statuses.getLast? with
  | some (at_, "canceled") => (some at_, some "canceled")
  | some (at_, "completed") =>
    match runs.reverse.find? fun run => run.life.milestones.integrated.isSome with
    | some run => (run.life.end_, run.life.end_.map fun _ => "completed")
    | none => (some at_, some "completed")
  | _ => (none, none)

def foldLives (task : Nat) (events : List RunEvent) (runs : List TaskRun)
    (preClaim : List PreClaimInterval) (nowMs : Int) : TaskLife :=
  let start := (((events.find? fun event => event.kind = .taskCreated).or events.head?).bind
    (·.millis)).getD nowMs
  let statuses := statuses events start
  let (end_, outcome) := endOf statuses runs
  let horizon := max (end_.getD nowMs) start
  let composer : Composer :=
    { statuses := statuses
      holds := taskHoldSpans events
      claims := runs.map fun run => (run.life.start, run.readyAt) }
  let intervals := layRuns composer horizon start runs
  let readySince := (statuses.getLast?.filter fun status => end_.isNone && status.2 = "ready").map
    fun status => max start (min status.1 horizon)
  let (overlays, reach) := overlays intervals nowMs
    { moved := readyMoved events, open_ := readySince.map fun since => (since, horizon) }
    task preClaim
  { start := start
    intervals := intervals
    end_ := end_
    outcome := outcome
    readyAt := runs.reverse.findSome? (·.readyAt)
    firstClaimed := runs.head?.map (·.life.start)
    runs := runs.map (·.run)
    overlays := overlays
    overlayMillis := ["slots_full", "claim_hold", "claim_deferral"].filterMap fun kind =>
      let covered := mergedMillis (overlays.filter fun overlay => overlay.kind = kind)
      if covered > 0 then some (kind, covered) else none
    inputsThrough :=
      max (max (lastId events) (((runs.map (·.life.inputsThrough)).max?).getD 0))
        (reach.waits.getD 0)
    lifeEnded := reach.lifeEnded
    readySince := readySince
    waitsOpen := reach.open_ }

/-- Fold one task's events, with the queue's pushes and the waits before a claim. -/
def foldTask (task : Nat) (events pushes : List RunEvent) (preClaim : List PreClaimInterval)
    (nowMs : Int) : TaskFold :=
  let runs := claimedRuns events pushes nowMs
  if runs.any fun run => run.2.2.isNone then .legacy (runs.map Prod.fst)
  else
    .life (foldLives task events
      (runs.filterMap fun run => run.2.2.map fun life => ⟨run.1, run.2.1, life⟩) preClaim nowMs)

end Dagq.Fold
