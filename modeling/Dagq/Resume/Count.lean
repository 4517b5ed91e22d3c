/-
This file models how the resumes of a run are counted: by a fold over its events
that counts each resume where its park puts it, and takes one back out as it
finishes at its provider's wall. A resume starts while the run's resumes are not
used up.
-/

import Dagq.Resume.History

namespace Dagq.Resume

def maxResumeAttempts : Nat := 3

def killOnlyResumeLimit : Nat := 3

def providerOnlyResumeLimit : Nat := 3

structure ResumeConfig where
  conflictOnlyLimit : Nat := 5
  deriving DecidableEq, Repr

/-- The resumes of one run, split by what they count toward. -/
structure ResumeCount where
  counted : Nat := 0
  conflictOnly : Nat := 0
  killOnly : Nat := 0
  held : Nat := 0
  /-- The conflict precheck's requests, but those withdrawn. -/
  conflictRequests : Nat := 0
  parkedForConflict : Bool := false
  parkedForSendBack : Bool := false
  parkedForHold : Bool := false
  providerOnly : Nat := 0
  /-- The latest resume finished at its provider's wall, and none started since. -/
  afterProviderOnly : Bool := false
  deriving DecidableEq, Repr

/-- Where a resume was counted as it started. -/
inductive Started where
  | counted
  | conflictOnly
  | held
  | killOnly
  deriving DecidableEq, Repr

/-- The fold: the history, the counts, the requests withdrawn, and the resume in progress with
where it was counted, whether a `send_back` parked it, and what its session showed. -/
structure Counting where
  history : History := {}
  count : ResumeCount := {}
  withdrawn : Nat := 0
  resuming : Option (Started × Bool × Resuming) := none
  deriving DecidableEq, Repr

namespace Counting

/-- Count a resume that starts. -/
def start (state : Counting) (event : RunEvent) : Counting :=
  let (count, started) : ResumeCount × Started :=
    if state.history.conflictOnly then
      ({ state.count with conflictOnly := state.count.conflictOnly + 1 }, .conflictOnly)
    else if state.history.holdOnly then ({ state.count with held := state.count.held + 1 }, .held)
    else if state.history.killOnly then
      ({ state.count with killOnly := state.count.killOnly + 1 }, .killOnly)
    else ({ state.count with counted := state.count.counted + 1 }, .counted)
  { state with
    count := { count with afterProviderOnly := false }
    resuming := some (started, state.history.sentBack, {})
    history := state.history.see event }

/-- Take a resume that finished at its provider's wall out of where it was counted. -/
def takeOut (count : ResumeCount) : Started → ResumeCount
  | .counted =>
    { count with counted := count.counted - 1, providerOnly := count.providerOnly + 1 }
  | .conflictOnly =>
    { count with conflictOnly := count.conflictOnly - 1, providerOnly := count.providerOnly + 1 }
  | .held | .killOnly => count

def finish (state : Counting) (event : RunEvent) : Counting :=
  let ended := { state with resuming := none, history := state.history.see event }
  match state.resuming with
  | none => ended
  | some (started, sentBack, facts) =>
    if facts.providerOnly event.payload then
      let count := { state.count with afterProviderOnly := true }
      if started = .counted || started = .conflictOnly then
        -- the `send_back` that parked it is given back
        { ended with
          count := takeOut count started
          history := { ended.history with sentBack := sentBack } }
      else { ended with count := count }
    else ended

/-- Count a request of the conflict precheck, or its withdrawal. -/
def precheck (state : Counting) (event : RunEvent) : Counting :=
  let requests := state.count.conflictRequests + if event.payload.requested = some true then 1 else 0
  { state with
    count := { state.count with conflictRequests := requests }
    withdrawn := state.withdrawn + if event.payload.unsent = some true then 1 else 0
    history := state.history.see event }

/-- What the resume in progress shows by an event. -/
def show_ (state : Counting) (event : RunEvent) : Counting :=
  { state with
    resuming := state.resuming.map fun (started, sentBack, facts) =>
      (started, sentBack, facts.see event) }

def step (state : Counting) (event : RunEvent) : Counting :=
  let seen := state.show_ event
  match event.kind with
  | .resumeStarted => seen.start event
  | .resumeFinished => seen.finish event
  | .conflictPrecheck => seen.precheck event
  | _ => { seen with history := seen.history.see event }

/-- The count once every event is read. -/
def result (state : Counting) : ResumeCount :=
  { state.count with
    conflictRequests := state.count.conflictRequests - state.withdrawn
    parkedForConflict := state.history.conflictOnly
    parkedForSendBack := state.history.sentBack
    parkedForHold := state.history.holdOnly }

end Counting

namespace ResumeCount

def ofEvents (events : List RunEvent) : ResumeCount := (events.foldl Counting.step {}).result

def conflictAttempts (count : ResumeCount) : Nat := count.conflictOnly + count.conflictRequests

/-- Every resume started, counted or not. -/
def total (count : ResumeCount) : Nat :=
  count.counted + count.conflictOnly + count.killOnly + count.held + count.providerOnly

/-- No further resume starts. -/
def exhausted (count : ResumeCount) (config : ResumeConfig) : Bool :=
  !count.parkedForHold &&
    (count.counted ≥ maxResumeAttempts || count.killOnly ≥ killOnlyResumeLimit ||
      count.providerOnly ≥ providerOnlyResumeLimit ||
      (count.conflictOnly ≥ config.conflictOnlyLimit && !count.parkedForSendBack) ||
      (count.parkedForConflict && count.conflictAttempts ≥ config.conflictOnlyLimit))

end ResumeCount

end Dagq.Resume
