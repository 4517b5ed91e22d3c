/-
This file models the spans of a run's sessions: which of them an event of the
run closes and opens, what the runtime knows of the run by its events so far,
and the rows written with the event, a row for each span closed or opened. A
span is open while a row opened it and no row closed it. The id of a row is its
position: the rows of other runs between them only space the ids out.
-/

import Mathlib.Tactic

namespace Dagq.Sessions

/-! ### Spans -/

/-- The kinds of the spans of a run. -/
inductive SpanKind where
  | worker
  | resume
  | revise
  | review
  | triage
  deriving DecidableEq, Repr

open SpanKind

/-- The kinds of a run's own session. -/
def runSession : List SpanKind := [worker, resume, revise]

/-- Why a span was closed. -/
inductive CloseReason where
  | exited
  | jobFinished
  | nextSpan
  | inferred
  deriving DecidableEq, Repr

/-- The payload of a `session_opened`; its `launch` is the text of the object. -/
structure Opened where
  kind : SpanKind
  sessionId : Option String
  cwd : Option String
  attempt : Option Int
  workspaceId : Option String := none
  route : Option String := none
  provider : Option String := none
  launch : Option String := none
  deriving DecidableEq, Repr

structure OpenSpan where
  openedEventId : Nat
  payload : Opened
  deriving DecidableEq, Repr

def OpenSpan.kind (span : OpenSpan) : SpanKind := span.payload.kind

def OpenSpan.sessionId (span : OpenSpan) : Option String := span.payload.sessionId

/-- The events of a run that open or close spans or are counted for them, and any other. -/
inductive SessionEvent where
  | agentStarted
  | reviseRequested
  | reviseUnsent
  | sessionExited
  | workspaceClosed
  | runRecovered
  | reviewStarted
  | reviewFinished
  | reviewFailed
  | reviewRetried
  | triageStarted
  | triageFinished
  | triageFailed
  | resumeStarted
  | other
  deriving DecidableEq, Repr

/-- What is read of an event's payload. -/
structure EventPayload where
  sessionId : Option String := none
  attempt : Option Int := none
  workspaceId : Option String := none
  launch : Option String := none
  deriving DecidableEq, Repr

/-! ### The revise a withdrawal leaves standing -/

/-- A `revise_requested` or a `revise_unsent`, with its attempt. -/
inductive ReviseEvent where
  | requested (attempt : Option Int)
  | unsent (attempt : Option Int)
  deriving DecidableEq, Repr

/-- The last position of an item in a list. -/
def lastPosition (requests : List (Option Int)) (wanted : Option Int) : Option Nat :=
  ((requests.zipIdx.filter fun request => request.1 = wanted).map Prod.snd).getLast?

/-- Each withdrawal takes back the last request of its attempt still standing, or the last one
standing when it has no attempt or none standing has it. -/
def withdraw (requests : List (Option Int)) : ReviseEvent → List (Option Int)
  | .requested attempt => requests ++ [attempt]
  | .unsent attempt =>
    let named := attempt.bind fun _ => lastPosition requests attempt
    match named.or (if requests.length = 0 then none else some (requests.length - 1)) with
    | some index => requests.eraseIdx index
    | none => requests

/-- The attempt of the last request that was not withdrawn. -/
def reviseAttempt (events : List ReviseEvent) : Option Int :=
  (events.foldl withdraw []).getLast?.join

/-! ### What an event changes -/

/-- What the runtime knows of the run beyond the event. -/
structure SpanContext where
  worktree : Option String
  runDir : Option String
  workspaceId : Option String
  /-- The resumes the run has, this one's included. -/
  resumes : Int
  /-- The revises requested, this one's included, but those withdrawn. -/
  revises : Int
  reviseAttempt : Option Int
  route : Option String
  provider : Option String
  /-- The session the run's worker was renewed in. -/
  session : Option String
  deriving DecidableEq, Repr

/-- A span to write. -/
inductive SpanChange where
  | close (span : OpenSpan) (reason : CloseReason)
  | open_ (payload : Opened)
  deriving DecidableEq, Repr

/-- Close the open spans of some kinds. -/
def closing (spans : List OpenSpan) (kinds : List SpanKind) (reason : CloseReason) :
    List SpanChange :=
  (spans.filter fun span => kinds.contains span.kind).map fun span => .close span reason

/-- The span of a headless job. -/
def job (kind : SpanKind) (payload : EventPayload) (cwd : Option String) : SpanChange :=
  .open_
    { kind := kind
      sessionId := payload.sessionId
      cwd := cwd
      attempt := payload.attempt
      launch := payload.launch }

/-- The kind and the attempt of the session an agent starts. -/
def startedSpan (context : SpanContext) : SpanKind × Int :=
  if context.resumes > 0 then (resume, context.resumes) else (worker, 1)

/-- The kind and the attempt of the session that goes on after a withdrawn revise. -/
def reopenedSpan (context : SpanContext) : SpanKind × Int :=
  if context.revises > 0 then (revise, context.reviseAttempt.getD context.revises)
  else startedSpan context

/-- The spans an event closes and opens, of those open (oldest first). -/
def changes (kind : SessionEvent) (payload : EventPayload) (spans : List OpenSpan)
    (context : SpanContext) : List SpanChange :=
  match kind with
  | .agentStarted =>
    let (span, attempt) := startedSpan context
    closing spans runSession .inferred ++ [.open_
      { kind := span
        sessionId := context.session.or payload.sessionId
        cwd := context.worktree
        attempt := some attempt
        workspaceId := if span = worker then context.workspaceId else none
        route := context.route
        provider := context.provider }]
  | .reviseRequested =>
    let before := spans.reverse.find? fun span => runSession.contains span.kind
    closing spans runSession .nextSpan ++ [.open_
      { kind := revise
        sessionId := context.session.or (before.bind OpenSpan.sessionId)
        cwd := context.worktree
        attempt := some (payload.attempt.getD context.revises)
        workspaceId := payload.workspaceId
        route := context.route
        provider := context.provider }]
  | .reviseUnsent =>
    let reopened := spans.reverse.find? fun span => span.kind = revise
    let (span, attempt) := reopenedSpan context
    closing spans [revise] .nextSpan ++ [.open_
      { kind := span
        sessionId := context.session.or (reopened.bind OpenSpan.sessionId)
        cwd := context.worktree
        attempt := some attempt
        workspaceId := if span = worker then context.workspaceId else none
        route := context.route
        provider := context.provider }]
  | .sessionExited => closing spans runSession .exited
  | .workspaceClosed => closing spans runSession .inferred
  | .runRecovered => closing spans [worker, resume, revise, review] .inferred
  | .reviewStarted => closing spans [review] .inferred ++ [job review payload context.worktree]
  | .reviewFinished | .reviewFailed | .reviewRetried => closing spans [review] .jobFinished
  | .triageStarted =>
    closing spans [worker, resume, revise, review, triage] .inferred ++
      [job triage payload context.runDir]
  | .triageFinished | .triageFailed => closing spans [triage] .jobFinished
  | .resumeStarted | .other => []

/-! ### The rows of a run -/

inductive SpanRow where
  | event (kind : SessionEvent) (payload : EventPayload)
  | sessionOpened (payload : Opened)
  | sessionClosed (openedEventId : Nat) (kind : SpanKind) (sessionId : Option String)
      (reason : CloseReason)
  deriving DecidableEq, Repr

/-- Whether the row closes the span that the row of an id opened. -/
def SpanRow.closes (id : Nat) : SpanRow → Bool
  | .sessionClosed openedEventId _ _ _ => openedEventId = id
  | _ => false

/-- The span a row opened, unless another closed it. -/
def openedSpan (rows : List SpanRow) (row : SpanRow × Nat) : Option OpenSpan :=
  match row.1 with
  | .sessionOpened payload =>
    if rows.any (SpanRow.closes row.2) then none else some ⟨row.2, payload⟩
  | _ => none

/-- The open spans of the run, oldest first. -/
def openSpans (rows : List SpanRow) : List OpenSpan := rows.zipIdx.filterMap (openedSpan rows)

def countEvents (rows : List SpanRow) (kind : SessionEvent) : Int :=
  rows.countP fun row => match row with
    | .event recorded _ => recorded = kind
    | _ => false

/-- The revise requests and withdrawals of the run, in order. -/
def reviseEvents (rows : List SpanRow) : List ReviseEvent :=
  rows.filterMap fun row => match row with
    | .event .reviseRequested payload => some (.requested payload.attempt)
    | .event .reviseUnsent payload => some (.unsent payload.attempt)
    | _ => none

/-- What is read of the run's row, and of its last renewal. -/
structure RunFacts where
  worktree : Option String
  runDir : Option String
  workspaceId : Option String
  route : Option String
  provider : Option String
  session : Option String
  deriving DecidableEq, Repr

def runContext (rows : List SpanRow) (run : RunFacts) (kind : SessionEvent) : SpanContext where
  worktree := run.worktree
  runDir := run.runDir
  workspaceId := run.workspaceId
  resumes := countEvents rows .resumeStarted
  revises := countEvents rows .reviseRequested - countEvents rows .reviseUnsent
  reviseAttempt := if kind = .reviseUnsent then reviseAttempt (reviseEvents rows) else none
  route := run.route
  provider := run.provider
  session := run.session

/-- The row written for a change. -/
def SpanChange.row : SpanChange → SpanRow
  | .close span reason => .sessionClosed span.openedEventId span.kind span.sessionId reason
  | .open_ payload => .sessionOpened payload

/-- The rows with an event's and those of the spans it closes and opens. -/
def follow (rows : List SpanRow) (run : RunFacts) (kind : SessionEvent) (payload : EventPayload) :
    List SpanRow :=
  let rows := rows ++ [.event kind payload]
  rows ++ (changes kind payload (openSpans rows) (runContext rows run kind)).map SpanChange.row

/-- One event of the run; a revise is withdrawn only while a revise is open. -/
def SpanStep (before after : List SpanRow) : Prop :=
  ∃ run kind payload,
    (kind = .reviseUnsent → ∃ span ∈ openSpans before, span.kind = revise) ∧
    after = follow before run kind payload

end Dagq.Sessions
