/-
This file models what the events of a run say of its landing, and proves how far an
approval reaches. What lets a run land is read after its latest park at a turn's end,
so nothing from before the park does. What queues it is the latest approval of an ask,
recovery, or end of a resume, unless the run moved on from it; and a run so queued, but
for one parked since its approval, may land.
-/

import Mathlib.Data.List.DropRight
import Dagq.Lib.Last
import Dagq.Resume.History
import Dagq.Runs.Row

namespace Dagq.Runs

open Dagq.Lib

/-! ### Events -/

inductive EventKind where
  | integrationApproved
  | integrationStarted
  | integrationHandedOver
  | landingQueued
  | landingDecided
  | reviewStarted
  | reviewFinished
  | reviseLimitJudged
  | resumeStarted
  | resumeFinished
  | resumeSkipped
  | askOpened
  | runRecovered
  | replanParked
  | holdParked
  | other
  deriving DecidableEq, Repr

/-- The keys read of an event, a review's among them. -/
structure Payload extends Resume.Payload where
  /-- `ask_id` is there and not `null`. -/
  namesAsk : Bool := false
  kind : Option String := none
  previousStatus : Option String := none
  approved : Option Bool := none
  via : Option String := none
  deriving DecidableEq, Repr

structure RunEvent where
  id : Int
  kind : EventKind
  payload : Payload := {}
  deriving DecidableEq, Repr

namespace RunEvent

/-- The parks at a turn's end: what came before one was of the work before it. -/
def isFencePark (event : RunEvent) : Bool :=
  event.kind = .replanParked || event.kind = .holdParked

/-- An approval that an ask's answer gave. -/
def approvesAsk (event : RunEvent) : Bool :=
  event.kind = .integrationApproved && event.payload.namesAsk

def isReview (event : RunEvent) : Bool := event.kind = .reviewFinished

/-- A judgement, past the limit of revises, that the review converged. -/
def judgedConverged (event : RunEvent) : Bool :=
  event.kind = .reviseLimitJudged && event.payload.converged == some true

/-- A landing that was given up. -/
def recoversLanding (event : RunEvent) : Bool :=
  event.kind = .runRecovered && event.payload.previousStatus == some RunStatus.integrating.asStr

/-- The end of an approved run's resume that leaves it to land. -/
def resolvedToLand (event : RunEvent) : Bool :=
  let stays := event.payload.status == some RunStatus.needsSession.asStr
  match event.kind with
  | .resumeFinished => stays && event.payload.outcome == some "resolved"
  | .resumeSkipped => stays && event.payload.approved == some true
  | _ => false

end RunEvent

/-! ### The history of a run -/

/-- What becomes of a run whose landing was given up, with the event that says so. -/
inductive RecoveredLanding where
  | land (id : Int)
  | review (id : Int)
  deriving DecidableEq, Repr

/-- The events of a run, oldest first. -/
structure RunHistory where
  events : List RunEvent
  deriving DecidableEq, Repr

namespace RunHistory

/-- The events after the latest park at a turn's end, or all. -/
def sinceFencePark (history : RunHistory) : List RunEvent :=
  history.events.rtakeWhile fun event => !event.isFencePark

/-- Whether the run was approved to land since. -/
def approved (history : RunHistory) : Bool :=
  history.sinceFencePark.any fun event => event.kind = .integrationApproved

/-- Whether the landing that started was handed over: what ends it is a hand-over. -/
def handedOver (history : RunHistory) (started : Int) : Bool :=
  (history.events.find? fun event => decide (started < event.id) &&
    (event.kind = .integrationHandedOver || event.kind = .integrationStarted)).any
      fun event => event.kind = .integrationHandedOver

/-- Whether something after the event started a landing, a review or a resume, decided the
landing, or asked about it. -/
def movedOnAfter (history : RunHistory) (id : Int) : Bool :=
  history.events.any fun event => decide (id < event.id) &&
    (event.kind = .integrationStarted && !history.handedOver event.id ||
      (event.kind = .reviewStarted || event.kind = .resumeStarted ||
        event.kind = .landingDecided) ||
      event.kind = .askOpened && event.payload.kind == some "approve_landing")

/-- The latest event taken, if the run did not move on from it. -/
def current (history : RunHistory) (takes : RunEvent → Bool) : Option RunEvent :=
  (lastMatch takes history.events).filter fun event => !history.movedOnAfter event.id

/-- The approval of an ask's answer that queues the run to land. -/
def queuedApproval (history : RunHistory) : Option Int :=
  (history.current RunEvent.approvesAsk).map RunEvent.id

/-- Whether the latest review lets the run land, or was judged to have converged. -/
def reviewLetsLand (history : RunHistory) : Bool :=
  match lastMatch RunEvent.isReview history.sinceFencePark with
  | none => false
  | some review =>
    Resume.letsLand review.payload.toPayload ||
      (history.sinceFencePark.rtakeWhile fun event => !event.isReview).any RunEvent.judgedConverged

/-- Whether the run lands at a request. -/
def landable (history : RunHistory) : Bool := history.approved || history.reviewLetsLand

def recoveredLanding (history : RunHistory) : Option RecoveredLanding :=
  (history.current RunEvent.recoversLanding).map fun recovered =>
    if history.landable then .land recovered.id else .review recovered.id

/-- The event that queues the run to land without a person. -/
def queuedToLand (history : RunHistory) : Option Int :=
  history.queuedApproval.or
    (match history.recoveredLanding with
    | some (.land id) => some id
    | _ => none)

/-- The event that queues the run to land after its resume. -/
def queuedAfterResume (history : RunHistory) : Option Int :=
  match lastMatch (fun event => event.kind = .landingQueued || event.resolvedToLand)
    history.events with
  | none => none
  | some queued =>
    if (queued.kind ≠ .landingQueued || queued.payload.via == some "resume") &&
        !history.movedOnAfter queued.id then some queued.id else none

/-! ### What queues a run -/

variable {history : RunHistory} {takes : RunEvent → Bool} {event : RunEvent} {id : Int}

/-- The latest event taken stands, the run not moved on from it. -/
theorem current_eq_some_iff :
    history.current takes = some event ↔
      lastMatch takes history.events = some event ∧ history.movedOnAfter event.id = false := by
  rw [current, Option.filter_eq_some_iff, Bool.not_eq_true']

theorem queuedApproval_eq_some_iff :
    history.queuedApproval = some id ↔
      ∃ event, history.current RunEvent.approvesAsk = some event ∧ event.id = id :=
  Option.map_eq_some_iff

/-- A recovery queues the run to land exactly when it may land. -/
theorem recoveredLanding_eq_land_iff :
    history.recoveredLanding = some (.land id) ↔
      ∃ event, history.current RunEvent.recoversLanding = some event ∧ event.id = id ∧
        history.landable = true := by
  rw [recoveredLanding, Option.map_eq_some_iff]
  refine exists_congr fun event => and_congr_right fun _ => ?_
  cases history.landable <;> simp

/-- What queues a run to land is an approval or, where there is none, a recovery. -/
theorem queuedToLand_cases (queued : history.queuedToLand = some id) :
    (∃ event, history.current RunEvent.approvesAsk = some event ∧ event.id = id) ∨
      ∃ event, history.current RunEvent.recoversLanding = some event ∧ event.id = id ∧
        history.landable = true := by
  rw [queuedToLand, Option.or_eq_some_iff] at queued
  rcases queued with approval | ⟨_, recovery⟩
  · exact Or.inl (queuedApproval_eq_some_iff.mp approval)
  · refine Or.inr (recoveredLanding_eq_land_iff.mp ?_)
    cases found : history.recoveredLanding with
    | none => rw [found] at recovery; cases recovery
    | some recovered =>
      rw [found] at recovery
      cases recovered with
      | land other => exact congrArg _ (congrArg _ (Option.some.inj recovery))
      | review other => cases recovery

/-- The run has not moved on from what queues it. -/
theorem queuedToLand_current (queued : history.queuedToLand = some id) :
    history.movedOnAfter id = false := by
  rcases queuedToLand_cases queued with ⟨event, isCurrent, rfl⟩ | ⟨event, isCurrent, rfl, _⟩
  · exact (current_eq_some_iff.mp isCurrent).2
  · exact (current_eq_some_iff.mp isCurrent).2

theorem queuedAfterResume_current (queued : history.queuedAfterResume = some id) :
    history.movedOnAfter id = false := by
  unfold queuedAfterResume at queued
  split at queued
  · cases queued
  · split at queued
    next stands =>
      rw [← Option.some.inj queued]
      simpa using (Bool.and_eq_true_iff.mp stands).2
    next => cases queued

/-! ### What lets a run land -/

theorem sinceFencePark_append {before after : List RunEvent} {park : RunEvent}
    (isPark : park.isFencePark = true) :
    (RunHistory.mk (before ++ park :: after)).sinceFencePark =
      (RunHistory.mk after).sinceFencePark := by
  unfold sinceFencePark List.rtakeWhile
  dsimp only
  rw [List.reverse_append, List.reverse_cons, List.append_assoc, List.takeWhile_append]
  split
  next all =>
    rw [List.singleton_append, List.takeWhile_cons_of_neg (by simpa using isPark), List.append_nil]
    have isAll := List.takeWhile_prefix (fun event : RunEvent => !event.isFencePark)
      (l := after.reverse)
    rw [isAll.eq_of_length all]
  next => rfl

/-- What lets a run land is what does among the events after its latest park. -/
theorem landable_append {before after : List RunEvent} {park : RunEvent}
    (isPark : park.isFencePark = true) :
    (RunHistory.mk (before ++ park :: after)).landable = (RunHistory.mk after).landable := by
  unfold landable approved reviewLetsLand
  rw [sinceFencePark_append isPark]

/-- Events with no park after them are read. -/
theorem mem_sinceFencePark {before after : List RunEvent} (notPark : event.isFencePark = false)
    (isLater : ∀ later ∈ after, later.isFencePark = false) :
    event ∈ (RunHistory.mk (before ++ event :: after)).sinceFencePark := by
  unfold sinceFencePark List.rtakeWhile
  dsimp only
  have all : ∀ later ∈ (event :: after).reverse, (!later.isFencePark) = true := by
    intro later among
    rcases List.mem_cons.mp (List.mem_reverse.mp among) with rfl | isAfter
    · rw [notPark]; rfl
    · rw [isLater later isAfter]; rfl
  rw [List.reverse_append, List.takeWhile_append_of_pos all, List.mem_reverse]
  exact List.mem_append_left _ (List.mem_reverse.mpr List.mem_cons_self)

/-- An approval with no park after it lets the run land. -/
theorem landable_of_approval {before after : List RunEvent}
    (approves : event.kind = .integrationApproved)
    (isLater : ∀ later ∈ after, later.isFencePark = false) :
    (RunHistory.mk (before ++ event :: after)).landable = true := by
  have notPark : event.isFencePark = false := by
    unfold RunEvent.isFencePark
    rw [approves]
    rfl
  have isApproved : (RunHistory.mk (before ++ event :: after)).approved = true :=
    List.any_eq_true.mpr ⟨event, mem_sinceFencePark notPark isLater, decide_eq_true approves⟩
  rw [landable, isApproved, Bool.true_or]

/-! ### Queued to land, and let land -/

/-- An approval of an ask's answer with the run's latest park after it. -/
def ParkedSince (history : RunHistory) (id : Int) : Prop :=
  ∃ before approval after, history.events = before ++ approval :: after ∧
    approval.approvesAsk = true ∧ approval.id = id ∧ ∃ park ∈ after, park.isFencePark = true

/-- Nothing from before the latest park lets the run land, nothing the run moved on from queues
it, and what queues it lets it land, but an approval it was parked since. -/
theorem landable_of_queued (history : RunHistory) :
    (∀ before park after, history.events = before ++ park :: after → park.isFencePark = true →
      history.landable = (RunHistory.mk after).landable) ∧
    (∀ id, history.queuedToLand = some id ∨ history.queuedAfterResume = some id →
      history.movedOnAfter id = false) ∧
    ∀ id, history.queuedToLand = some id → ¬history.ParkedSince id → history.landable = true := by
  refine ⟨?_, ?_, ?_⟩
  · intro before park after isCut isPark
    rw [← @landable_append before after park isPark, ← isCut]
  · intro id queued
    exact queued.elim queuedToLand_current queuedAfterResume_current
  · intro id queued notParked
    rcases queuedToLand_cases queued with ⟨approval, isCurrent, isId⟩ | ⟨_, _, _, lands⟩
    · obtain ⟨before, after, isCut, approves, _⟩ :=
        lastMatch_eq_some_iff.mp (current_eq_some_iff.mp isCurrent).1
      have isLater : ∀ later ∈ after, later.isFencePark = false := by
        intro later among
        by_contra isPark
        exact notParked ⟨before, approval, after, isCut, approves, isId, later, among,
          by simpa using isPark⟩
      have kind : approval.kind = .integrationApproved :=
        of_decide_eq_true (Bool.and_eq_true_iff.mp approves).1
      have lands := @landable_of_approval approval before after kind isLater
      rwa [← isCut] at lands
    · exact lands

/-- A landing that started on an approval goes through on it: the run moved on from the approval,
which queues it no more, and may land. -/
theorem moved_on_landable :
    let history : RunHistory :=
      ⟨[⟨1, .integrationApproved, { namesAsk := true }⟩, ⟨2, .integrationStarted, {}⟩]⟩
    history.movedOnAfter 1 = true ∧ history.queuedToLand = none ∧ history.landable = true := by
  decide +kernel

end RunHistory

end Dagq.Runs
