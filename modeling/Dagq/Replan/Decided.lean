/-
This file derives what the two decisions on a continuation tell, along any
history of the run: a resume is the first of the continuation until one that
started since the move into it has finished, and the work is restored where a
restore recorded since that move stands. The second takes that a closed
operation went back to `blocked` only with the failure of its restore recorded.
-/

import Dagq.Replan.ContinuationRun
import Dagq.Replan.OneOpen

namespace Dagq.Replan

open Dagq.Lib

/-! ### What the decisions tell -/

theorem latestResult_log (op : ReplanOperation) (log : List Happened) :
    (restoredNow op (log.map Happened.record) = false ∧
      ∀ event ∈ log, restoreResult op event.record = none) ∨
    ∃ earlier event later, log = earlier ++ event :: later ∧
      restoreResult op event.record = some (restoredNow op (log.map Happened.record)) ∧
      ∀ other ∈ later, restoreResult op other.record = none := by
  rcases latestResult op (log.map Happened.record) with ⟨never, none⟩ | ⟨earlier, record, later, split,
    result, none⟩
  · exact Or.inl ⟨never, fun event member => none _ (List.mem_map_of_mem member)⟩
  · obtain ⟨before, rest, isLog, _, isRest⟩ := List.map_eq_append_iff.mp split
    obtain ⟨event, after, rfl, rfl, rfl⟩ := List.map_eq_cons_iff.mp isRest
    exact Or.inr ⟨before, event, after, isLog, result, fun other member =>
      none _ (List.mem_map_of_mem member)⟩

theorem restoreResult_failed {op : ReplanOperation} {failed : RestoreRecord}
    (isOp : failed.operationId = op.id) :
    restoreResult op (Happened.restoreFailed failed).record = some false := if_pos isOp

theorem restoreResult_restored {op : ReplanOperation} {restored : RestoreRecord}
    (isOp : restored.operationId = op.id) :
    restoreResult op (Happened.restored restored).record =
      some (restored.generation.all fun generation => generation = op.generation) := if_pos isOp

/-- A result is of a restore of the operation: one recorded, or one that failed. -/
theorem restoreResult_some {op : ReplanOperation} {event : Happened} {result : Bool}
    (isResult : restoreResult op event.record = some result) :
    (∃ restored, event = .restored restored ∧ restored.operationId = op.id ∧
      result = restored.generation.all fun generation => generation = op.generation) ∨
    ∃ failed, event = .restoreFailed failed ∧ failed.operationId = op.id ∧ result = false := by
  cases event with
  | restored restored =>
    by_cases isOp : restored.operationId = op.id
    · rw [restoreResult_restored isOp] at isResult
      exact Or.inl ⟨restored, rfl, isOp, (Option.some.inj isResult).symm⟩
    · exact absurd ((if_neg isOp).symm.trans isResult) (by simp)
  | restoreFailed failed =>
    by_cases isOp : failed.operationId = op.id
    · rw [restoreResult_failed isOp] at isResult
      exact Or.inr ⟨failed, rfl, isOp, (Option.some.inj isResult).symm⟩
    · exact absurd ((if_neg isOp).symm.trans isResult) (by simp)
  | moved => cases isResult
  | resumeStarted => cases isResult
  | resumeFinished => cases isResult

/-- The latest result is a success exactly where a restore stands since the last move. -/
theorem restoredNow_iff {run : String} {state : RunState} {op : ReplanOperation}
    {later : List Happened} (member : op ∈ state.store.operations.items)
    (standing : Standing run state.store.places state.log)
    (since : SinceLastMove op.place state.log later) :
    restoredNow op state.records = true ↔ RestoreStands op.id later := by
  have noFailure : ∀ {after : List Happened},
      (∀ other ∈ after, restoreResult op other.record = none) →
      ∀ failed, .restoreFailed failed ∈ after → failed.operationId ≠ op.id := by
    intro after none failed inside isOp
    exact absurd ((restoreResult_failed isOp).symm.trans (none _ inside)) (Option.some_ne_none _)
  obtain ⟨earlier, isLog, _⟩ := since
  constructor
  · intro isNow
    rcases latestResult_log op state.log with ⟨never, _⟩ | ⟨before, event, after, split, result, none⟩
    · exact absurd (isNow.symm.trans never) (by decide)
    · rw [show restoredNow op (state.log.map Happened.record) = true from isNow] at result
      rcases restoreResult_some result with ⟨restored, rfl, isOp, _⟩ | ⟨_, _, _, never⟩
      · obtain ⟨_, _, _, _, _, _, last⟩ := standing before restored after split
          fun failed inside => isOp ▸ noFailure none failed inside
        rcases split_split (isLog.symm.trans split) with ⟨same, _⟩ | ⟨middle, isLater⟩ | ⟨middle, isAfter⟩
        · cases same
        · exact ⟨middle, restored, after, isLater, isOp, noFailure none⟩
        · have moved : Happened.moved op.place.moved ∈ after := by
            rw [isAfter]
            exact List.mem_append_right _ List.mem_cons_self
          exact absurd isOp.symm (last _ moved)
      · cases never
  · rintro ⟨before, restored, after, isLater, isOp, stands⟩
    have whole : state.log = (earlier ++ .moved op.place.moved :: before) ++ .restored restored ::
        after := by
      rw [isLog, isLater, List.append_assoc]
      rfl
    rcases latestResult_log op state.log with ⟨_, none⟩ | ⟨first, event, rest, split, result, none⟩
    · have inside : Happened.restored restored ∈ state.log := by
        rw [whole]
        exact List.mem_append_right _ List.mem_cons_self
      exact absurd ((restoreResult_restored isOp).symm.trans (none _ inside)) (Option.some_ne_none _)
    · show restoredNow op (state.log.map Happened.record) = true
      rcases restoreResult_some result with ⟨other, rfl, isOther, isNow⟩ | ⟨failed, rfl, isFailed, _⟩
      · obtain ⟨place, inside, isPlace, _, _, generation, _⟩ := standing first other rest split
          fun failed inside => isOther ▸ noFailure none failed inside
        have same := List.inj_on_of_nodup_map state.store.places_distinct inside
          (ReplanStore.mem_places member) (isPlace.trans isOther)
        rw [isNow, generation, same]
        exact decide_eq_true rfl
      · -- a failure is before the restore, which is then a later result
        rcases split_split (whole.symm.trans split) with ⟨same, _⟩ | ⟨middle, isAfter⟩ | ⟨middle, isRest⟩
        · cases same
        · exact absurd isFailed (stands failed (by
            rw [isAfter]
            exact List.mem_append_right _ List.mem_cons_self))
        · have inside : Happened.restored restored ∈ rest := by
            rw [isRest]
            exact List.mem_append_right _ List.mem_cons_self
          exact absurd ((restoreResult_restored isOp).symm.trans (none _ inside))
            (Option.some_ne_none _)

/-- The latest resume is the latest start on the log. -/
theorem latestResume_some {log : List Happened} {resume : Nat}
    (latest : latestResume log = some resume) :
    ∃ earlier later, log = earlier ++ .resumeStarted resume :: later ∧
      ∀ event ∈ later, event.started = none := by
  obtain ⟨later, event, earlier, split, isStart, others⟩ := List.findSome?_eq_some_iff.mp latest
  cases event with
  | resumeStarted other =>
    refine ⟨earlier.reverse, later.reverse, ?_, fun event member =>
      others event (List.mem_reverse.mp member)⟩
    rw [← List.reverse_reverse log, split, List.reverse_append, List.reverse_cons,
      List.append_assoc, Option.some.inj isStart]
    rfl
  | moved => cases isStart
  | restored => cases isStart
  | restoreFailed => cases isStart
  | resumeFinished => cases isStart

/-- A resume is not the first exactly where one that started since the last move finished. -/
theorem firstResume_iff {state : RunState} {op : ReplanOperation} {later : List Happened}
    (finishes : FinishesLatest state.log) (since : SinceLastMove op.place state.log later) :
    firstResumeOfContinuation op state.records = false ↔ ResumeDone later := by
  obtain ⟨earlier, isLog, last⟩ := since
  have isMove : movedHere op (Happened.moved op.place.moved).record = true := by
    show (decide (op.id = op.id) && decide (op.status = op.status) &&
      decide (op.generation = op.generation)) = true
    simp
  have others : ∀ other ∈ later.map Happened.record, movedHere op other = false := by
    intro other inside
    obtain ⟨event, member, rfl⟩ := List.mem_map.mp inside
    cases event with
    | moved moved =>
      have different : moved.operationId ≠ op.id := last moved member
      show (decide (moved.operationId = op.id) && _ && _) = false
      rw [decide_eq_false different]
      rfl
    | _ => rfl
  have reads : firstResumeOfContinuation op state.records =
      noneFinished false (later.map Happened.record) := by
    unfold RunState.records
    rw [isLog, List.map_append, List.map_cons]
    exact firstResume_since isMove others
  rw [reads, noneFinished_eq_false]
  constructor
  · rintro ⟨before, after, split, known⟩
    rcases known with never | begun
    · cases never
    obtain ⟨first, rest, isLater, rfl, isRest⟩ := List.map_eq_append_iff.mp split
    obtain ⟨event, more, rfl, isFinish, rfl⟩ := List.map_eq_cons_iff.mp isRest
    obtain ⟨start, startIn, isStart⟩ := List.mem_map.mp begun
    cases event with
    | resumeFinished resume =>
      have whole : state.log = (earlier ++ .moved op.place.moved :: first) ++
          .resumeFinished resume :: more := by
        rw [isLog, isLater, List.append_assoc]
        rfl
      obtain ⟨before, after, started, noStart⟩ := latestResume_some (finishes _ resume more whole)
      -- a resume started since the move, so the latest one did
      rcases split_split started with ⟨same, _⟩ | ⟨middle, isFirst⟩ | ⟨middle, isAfter⟩
      · cases same
      · exact ⟨middle, resume, after, more, by rw [isLater, isFirst]⟩
      · have inside : start ∈ after := by
          rw [isAfter]
          exact List.mem_append_right _ (List.mem_cons_of_mem _ startIn)
        have none := noStart start inside
        cases start with
        | resumeStarted => cases none
        | _ => cases isStart
    | _ => cases isFinish
  · rintro ⟨before, resume, between, after, rfl⟩
    refine ⟨(before ++ .resumeStarted resume :: between).map Happened.record,
      after.map Happened.record, by simp [Happened.record], Or.inr ?_⟩
    exact List.mem_map.mpr ⟨.resumeStarted resume, List.mem_append_right _ List.mem_cons_self, rfl⟩

/-- Along any history, an operation closed in a continuation or a withdrawal of the run: a resume is
not its first exactly where one that started since its last move finished; and where no bare move
reopened one, its work is restored exactly where a restore of it was recorded since that move with
no failure after it. -/
theorem continuation_decided {run : String} {bareReopens : Bool} {state : RunState}
    (reached : Reachable RunState.start (HistoryStep run bareReopens) state) {op : ReplanOperation}
    (member : op ∈ state.store.operations.items) (onRun : op.runId = run)
    (closed : op.status.reopens = true) :
    ∃ later, SinceLastMove op.place state.log later ∧
      (firstResumeOfContinuation op state.records = false ↔ ResumeDone later) ∧
      (bareReopens = false →
        (restoredNow op state.records = true ↔ RestoreStands op.id later)) := by
  have recorded := reached.invariant (Recorded run) (recorded_start run)
    fun _ _ _ held step => held.step step
  obtain ⟨later, since⟩ := recorded.last op.place (ReplanStore.mem_places member) closed onRun
  refine ⟨later, since, firstResume_iff recorded.finishes since, ?_⟩
  rintro rfl
  have standing := reached.invariant (fun state => Standing run state.store.places state.log)
    (standing_start run) fun _ _ _ held step => held.step step
  exact restoredNow_iff member standing since

/-! ### A history -/

namespace RunState

/-- The queue after the operation moved, where the move is taken. -/
def moveTo (run : String) (state : RunState) (generation : Int) (target : ReplanStatus) : RunState :=
  match state.store.moveInAs ReplanStore.quiet 1 generation
      { target := target, reason := "moved", snapshotId := some "saved" } 0 false with
  | .ok after => state.wrote run after
  | .error _ => state

/-- An operation is opened on the run. -/
def opened : RunState :=
  { start with
    store := (ReplanStore.empty.openOperation ReplanStore.quiet ⟨"first", "the plan is wrong", []⟩ 1
      .manual "user" "person" 0).1 }

/-- The run is parked, continued, and its work restored. -/
def continued : RunState :=
  (((opened.moveTo "first" 1 .pauseRequested).moveTo "first" 2 .snapshotting).moveTo "first" 2
    .parked).moveTo "first" 2 .continuingAfterPark

def restoredOnce : RunState :=
  { continued with log := continued.log ++ [.restored ⟨1, some 2⟩] }

/-- The operation goes back to `blocked`, and on to the continuation again, by bare moves. -/
def continuedAgain : RunState :=
  (restoredOnce.moveTo "first" 2 .blocked).moveTo "first" 2 .continuingAfterPark

variable {run : String} {bareReopens : Bool} {state : RunState}

theorem reached_moveTo (reached : Reachable start (HistoryStep run bareReopens) state)
    (generation : Int) (target : ReplanStatus)
    (kept : bareReopens = false → ∀ op ∈ state.store.operations.items, op.id = 1 →
      op.status.reopens = false) :
    Reachable start (HistoryStep run bareReopens) (state.moveTo run generation target) := by
  unfold moveTo
  split
  · rename_i after moves
    exact reached.step (.move state _ _ _ _ _ _ after moves kept)
  · exact reached

theorem reached_opened : Reachable start (HistoryStep run bareReopens) opened := by
  refine .step .start (.elsewhere start opened.store (fun place closed => ?_) rfl)
  refine ⟨fun member => ?_, fun member => absurd member List.not_mem_nil⟩
  have isOpened : place = ⟨1, .candidate, 1, "first"⟩ := List.mem_singleton.mp member
  rw [isOpened] at closed
  cases closed

theorem reached_continued : Reachable start (HistoryStep "first" bareReopens) continued := by
  have paused := reached_moveTo (@reached_opened "first" bareReopens) 1 .pauseRequested fun _ => by
    decide +kernel
  have saved := reached_moveTo paused 2 .snapshotting fun _ => by decide +kernel
  have parked := reached_moveTo saved 2 .parked fun _ => by decide +kernel
  exact reached_moveTo parked 2 .continuingAfterPark fun _ => by decide +kernel

theorem reached_restoredOnce : Reachable start (HistoryStep "first" bareReopens) restoredOnce :=
  reached_continued.step (.restore _ ReplanStore.quiet 1 2 (.ok ()) 0 _ rfl)

theorem continuation_decided_restored :
    ∃ op ∈ restoredOnce.store.operations.items, restoredNow op restoredOnce.records = true ∧
      ∃ later, SinceLastMove op.place restoredOnce.log later ∧
        (firstResumeOfContinuation op restoredOnce.records = false ↔ ResumeDone later) ∧
        RestoreStands op.id later := by
  have held : ∃ op, restoredOnce.store.operations.get? 1 = some op ∧ op.runId = "first" ∧
      op.status.reopens = true ∧ restoredNow op restoredOnce.records = true := by
    decide +kernel
  obtain ⟨op, found, onRun, closed, isNow⟩ := held
  have member := (Keyed.get?_eq_some_iff.mp found).1
  obtain ⟨later, since, first, restored⟩ :=
    continuation_decided (@reached_restoredOnce false) member onRun closed
  exact ⟨op, member, isNow, later, since, first, (restored rfl).mp isNow⟩

/-- Two bare moves leave a restore standing that was of the continuation before. -/
theorem restored_by_bare_moves :
    Reachable start (HistoryStep "first" true) continuedAgain ∧
      ∃ op ∈ continuedAgain.store.operations.items, op.runId = "first" ∧ op.status.reopens = true ∧
        restoredNow op continuedAgain.records = true ∧
        ∀ later, SinceLastMove op.place continuedAgain.log later → ¬ RestoreStands op.id later := by
  have never : true = false → ∀ {state : RunState}, ∀ op ∈ state.store.operations.items,
      op.id = 1 → op.status.reopens = false := fun absurd => Bool.noConfusion absurd
  have blocked := reached_moveTo (@reached_restoredOnce true) 2 .blocked fun same => never same
  refine ⟨reached_moveTo blocked 2 .continuingAfterPark fun same => never same, ?_⟩
  have held : ∃ op, continuedAgain.store.operations.get? 1 = some op ∧ op.runId = "first" ∧
      op.status.reopens = true ∧ restoredNow op continuedAgain.records = true ∧
      continuedAgain.log = continuedAgain.log.dropLast ++ [.moved op.place.moved] := by
    decide +kernel
  obtain ⟨op, found, onRun, closed, isNow, ends⟩ := held
  refine ⟨op, (Keyed.get?_eq_some_iff.mp found).1, onRun, closed, isNow, ?_⟩
  rintro later ⟨earlier, split, last⟩ ⟨before, restored, after, isLater, _⟩
  rcases split_concat (ends.symm.trans split) with ⟨_, rfl, _⟩ | ⟨middle, rfl, _⟩
  · exact absurd (congrArg List.length isLater) (by simp)
  · exact last _ (List.mem_append_right _ List.mem_cons_self) rfl

end RunState

end Dagq.Replan
