/-
This file models how the records of a hold and of a deferral pair up: a hold ends
at the next one, at its resumption, or at the stop of the supervisor that
recorded it; a task's deferral ends at its next one, at its end's record, or at
the task's claim. Both readings take the events in order and keep the spans that
ended beside what is open.
-/

import Dagq.Ledger.Event
import Dagq.Lib.Ordered

namespace Dagq.PreClaim

open Dagq.Lib Dagq.Ledger

/-! ### Spans -/

/-- How a span ended: the event that ended it, its time and why. -/
structure SpanEnd where
  event : RunEvent
  atMs : Option Int
  why : String

/-- A hold or a deferral: the event that started it, its time, and how it ended. -/
structure HoldSpan where
  start : RunEvent
  startMs : Option Int
  end_ : Option SpanEnd

def HoldSpan.of (event : RunEvent) : HoldSpan := ⟨event, event.millis, none⟩

def HoldSpan.endedBy (span : HoldSpan) (event : RunEvent) (why : String) : HoldSpan :=
  { span with end_ := some ⟨event, event.millis, why⟩ }

/-! ### Holds -/

/-- The kinds of event of one sort of hold. -/
structure HoldKinds where
  held : EventKind
  resumed : EventKind

/-- The holds on new claims. -/
def HoldKinds.claims : HoldKinds := ⟨.claimHeld, .claimResumed⟩

/-- The holds on the landings' verification. -/
def HoldKinds.landings : HoldKinds := ⟨.landingHeld, .landingResumed⟩

def endedReplaced : String := "replaced"
def endedResumed : String := "resumed"
def endedSupervisorGone : String := "supervisor_gone"

/-- Why an event ends the hold that is open, `opener` being the supervisor its start names. -/
def holdEnd (kinds : HoldKinds) (opener : Option (Option String)) (event : RunEvent) :
    Option String :=
  if event.kind = kinds.held then some endedReplaced
  else if event.kind = kinds.resumed then some endedResumed
  else if event.kind = .supervisorStopped ∧ opener = some (event.text "supervisor") then
    some endedSupervisorGone
  else none

/-- The spans that ended, in the order they did, and the one open. -/
structure Scan where
  spans : List HoldSpan := []
  current : Option HoldSpan := none

/-- The supervisor that recorded the start of the span open. -/
def Scan.opener (scan : Scan) : Option (Option String) :=
  scan.current.map fun held => held.start.text "supervisor"

def Scan.all (scan : Scan) : List HoldSpan := scan.spans ++ scan.current.toList

/-- An event that ends what is open, by `ending`, and starts the next one, by `starting`. -/
def Scan.read (ending : Option (Option String) → RunEvent → Option String)
    (starting : RunEvent → Bool) (scan : Scan) (event : RunEvent) : Scan :=
  match ending scan.opener event with
  | none => scan
  | some why =>
    { spans := scan.spans ++ (scan.current.map fun held => held.endedBy event why).toList
      current := if starting event then some (HoldSpan.of event) else none }

def holdScan (kinds : HoldKinds) (events : List RunEvent) : Scan :=
  events.foldl (Scan.read (holdEnd kinds) fun event => event.kind = kinds.held) {}

/-- The holds of `kinds`, in the order they started. -/
def holdSpans (kinds : HoldKinds) (events : List RunEvent) : List HoldSpan :=
  (holdScan kinds events).all

/-! ### Deferrals -/

def endedSuperseded : String := "superseded"
def endedClaimed : String := "claimed"

/-- The task whose open deferral an event ends, and why. -/
def deferralEnd (event : RunEvent) : Option (Nat × String) :=
  match event.taskId with
  | none => none
  | some task =>
    match event.kind with
    | .claimDeferred => some (task, endedSuperseded)
    | .claimDeferralEnded => some (task, (event.text "why").getD "unknown")
    | .runClaimed => some (task, endedClaimed)
    | _ => none

/-- The deferrals that ended, in the order they did, and each task's open one. -/
structure DeferralScan where
  spans : List HoldSpan := []
  current : Ordered Nat HoldSpan := Ordered.empty

def DeferralScan.read (scan : DeferralScan) (event : RunEvent) : DeferralScan :=
  match deferralEnd event with
  | none => scan
  | some (task, why) =>
    { spans := scan.spans ++
        ((scan.current.get? task).map fun held => held.endedBy event why).toList
      current :=
        if event.kind = .claimDeferred then
          (scan.current.erase task).insert task (HoldSpan.of event)
        else scan.current.erase task }

def deferralScan (events : List RunEvent) : DeferralScan := events.foldl DeferralScan.read {}

/-- The deferrals: those that ended, in the order they ended, then those still open, by task. -/
def deferralSpans (events : List RunEvent) : List HoldSpan :=
  (deferralScan events).spans ++ (deferralScan events).current.values

/-! ### The deferrals of one task -/

/-- Why an event ends the open deferral of a task. -/
def deferralEndOf (task : Nat) (event : RunEvent) : Option String :=
  match deferralEnd event with
  | none => none
  | some (other, why) => if other = task then some why else none

def deferralScanOf (task : Nat) (events : List RunEvent) : Scan :=
  events.foldl
    (Scan.read (fun _ event => deferralEndOf task event) fun event => event.kind = .claimDeferred) {}

theorem deferralEnd_task {event : RunEvent} {task : Nat} {why : String}
    (ends : deferralEnd event = some (task, why)) : event.taskId = some task := by
  unfold deferralEnd at ends
  split at ends
  · cases ends
  · rename_i other named
    split at ends
    all_goals first
      | (rw [named, (Prod.mk.inj (Option.some.inj ends)).1])
      | cases ends

section DeferralRead

variable {scan : DeferralScan} {event : RunEvent} {owner : Nat} {why : String}

/-- The open deferrals after an event that ends one: its task's is the event's own or none. -/
theorem DeferralScan.current_read (ends : deferralEnd event = some (owner, why)) (task : Nat) :
    (scan.read event).current.get? task =
      if task = owner then
        if event.kind = .claimDeferred then some (HoldSpan.of event) else none
      else scan.current.get? task := by
  rw [DeferralScan.read, ends]
  dsimp only
  by_cases same : task = owner
  · subst same
    by_cases starts : event.kind = .claimDeferred
    · simp only [starts, if_true, Ordered.get?_insert_self]
    · simp only [starts, if_false, if_true, Ordered.get?_erase_self]
  · rw [if_neg same]
    split
    · rw [Ordered.get?_insert_of_ne _ _ same, Ordered.get?_erase_of_ne _ same]
    · rw [Ordered.get?_erase_of_ne _ same]

theorem DeferralScan.spans_read (ends : deferralEnd event = some (owner, why)) :
    (scan.read event).spans = scan.spans ++
      ((scan.current.get? owner).map fun held => held.endedBy event why).toList := by
  rw [DeferralScan.read, ends]

/-- Every open deferral is its task's. -/
theorem DeferralScan.named_read
    (named : ∀ task span, scan.current.get? task = some span → span.start.taskId = some task)
    (task : Nat) (span : HoldSpan) (found : (scan.read event).current.get? task = some span) :
    span.start.taskId = some task := by
  cases ends : deferralEnd event with
  | none =>
    rw [DeferralScan.read, ends] at found
    exact named task span found
  | some key =>
    rw [DeferralScan.current_read ends] at found
    split at found
    · rename_i same
      split at found
      · rw [← Option.some.inj found, same]
        exact deferralEnd_task ends
      · cases found
    · exact named task span found

end DeferralRead

theorem deferralScan_concat (events : List RunEvent) (event : RunEvent) :
    deferralScan (events ++ [event]) = (deferralScan events).read event := by
  rw [deferralScan, List.foldl_append]
  rfl

/-- The spans of all tasks, read at one task, are the spans of that task. -/
theorem deferralScan_task (task : Nat) (events : List RunEvent) :
    (deferralScan events).spans.filter (fun span => span.start.taskId = some task) =
        (deferralScanOf task events).spans ∧
      (deferralScan events).current.get? task = (deferralScanOf task events).current ∧
      ∀ other span, (deferralScan events).current.get? other = some span →
        span.start.taskId = some other := by
  induction events using List.reverseRecOn with
  | nil => exact ⟨rfl, rfl, fun _ _ found => by cases found⟩
  | append_singleton events event inductionHypothesis =>
    obtain ⟨ended, current, named⟩ := inductionHypothesis
    have single : deferralScanOf task (events ++ [event]) =
        (deferralScanOf task events).read (fun _ event => deferralEndOf task event)
          (fun event => event.kind = .claimDeferred) event := by
      rw [deferralScanOf, List.foldl_append]
      rfl
    rw [deferralScan_concat, single]
    refine ⟨?_, ?_, DeferralScan.named_read named⟩
    · cases ends : deferralEnd event with
      | none =>
        rw [DeferralScan.read, Scan.read, deferralEndOf, ends]
        exact ended
      | some key =>
        have owned : ∀ span, (deferralScan events).current.get? key.1 = some span →
            span.start.taskId = some key.1 := named key.1
        rw [DeferralScan.spans_read ends, List.filter_append, ended, Scan.read, deferralEndOf, ends]
        by_cases same : key.1 = task
        · simp only [same, if_true, ← current]
          rw [same] at owned
          cases held : (deferralScan events).current.get? task with
          | none => rfl
          | some span => simp [HoldSpan.endedBy, owned span held]
        · simp only [same, if_false]
          cases held : (deferralScan events).current.get? key.1 with
          | none => simp
          | some span => simp [HoldSpan.endedBy, owned span held, same]
    · cases ends : deferralEnd event with
      | none =>
        rw [DeferralScan.read, Scan.read, deferralEndOf, ends]
        exact current
      | some key =>
        rw [DeferralScan.current_read ends, Scan.read, deferralEndOf, ends]
        by_cases same : key.1 = task
        · simp only [same, if_true, decide_eq_true_eq]
        · simp only [same, if_false, Ne.symm same]
          exact current

end Dagq.PreClaim
