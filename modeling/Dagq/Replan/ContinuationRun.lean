/-
This file runs the writes that decide a continuation: moves of any operation,
resolutions by a person, restores and failures of them, and resumes of the run,
in any order, with whatever else a write does to the operations that are open.
It keeps the records of one run, and derives along any such history that the two
decisions on a continuation of the run tell what was recorded since the last
move into it.

A bare move may take a closed operation back to `blocked` with no failure of its
restore recorded, though no caller makes one: a failure goes with its record. A
history says whether it has such moves.
-/

import Dagq.Lib.Cuts
import Dagq.Replan.Continuation

namespace Dagq.Replan

open Dagq.Lib

/-- What is recorded of the run, each resume by its number. -/
inductive Happened where
  | moved (moved : ReplanMoved)
  | restored (restored : RestoreRecord)
  | restoreFailed (failed : RestoreRecord)
  | resumeStarted (resume : Nat)
  | resumeFinished (resume : Nat)
  deriving DecidableEq, Repr

def Happened.record : Happened → ContinuationRecord
  | .moved move => .moved move
  | .restored restore => .restored restore
  | .restoreFailed failure => .restoreFailed failure
  | .resumeStarted _ => .resumeStarted
  | .resumeFinished _ => .resumeFinished

def Happened.started : Happened → Option Nat
  | .resumeStarted resume => some resume
  | _ => none

/-- The resume that holds the run: the latest started. -/
def latestResume (log : List Happened) : Option Nat := log.reverse.findSome? Happened.started

/-- The moves recorded of the run. -/
def happenedOn (run : String) (moves : List (String × ReplanMoved)) : List Happened :=
  moves.filterMap fun recorded => if recorded.1 = run then some (.moved recorded.2) else none

/-- The queue, with what is recorded of one run, oldest first. -/
structure RunState where
  store : ReplanStore
  log : List Happened

namespace RunState

def start : RunState := ⟨.empty, []⟩

def records (state : RunState) : List ContinuationRecord := state.log.map Happened.record

/-- The queue after a write, with the moves it recorded. -/
def wrote (run : String) (state : RunState) (after : ReplanStore) : RunState :=
  ⟨after, state.log ++ happenedOn run (state.store.movesSince after)⟩

/-- Record what happened to an operation, where its run is this one. -/
def note (run : String) (state : RunState) (op : ReplanOperation) (event : Happened) : RunState :=
  { state with log := state.log ++ if op.runId = run then [event] else [] }

/-- Record the result of a restore of an operation read under `generation`; a failure takes it back
to `blocked`, and neither is recorded while another operation guards the task. -/
def recordRestore (run : String) (outside : Outside) (state : RunState) (id : Nat)
    (generation : Int) (result : Except String Unit) (now : Int) : Option RunState :=
  match state.store.operations.get? id with
  | none => none
  | some op =>
    if op.generation ≠ generation ∨ op.status.reopens = false then none
    else match result with
      | .ok _ => some (state.note run op (.restored ⟨id, some generation⟩))
      | .error why =>
        if (state.store.openOperations op.taskId).any fun other => other.status.guards then none
        else match state.store.reopenBlocked outside id generation why now with
          | .error _ => none
          | .ok after =>
            some ((state.note run op (.restoreFailed ⟨id, some generation⟩)).wrote run after)

end RunState

/-- One step of a history. A bare move takes no closed operation back to `blocked`, unless
`bareReopens`. -/
inductive HistoryStep (run : String) (bareReopens : Bool) : RunState → RunState → Prop where
  | move (state : RunState) (outside : Outside) (id : Nat) (generation : Int) (step : ReplanMove)
      (now : Int) (apply : Bool) (after : ReplanStore)
      (moves : state.store.moveInAs outside id generation step now apply = .ok after)
      (kept : bareReopens = false → ∀ op ∈ state.store.operations.items, op.id = id →
        op.status.reopens = false) :
      HistoryStep run bareReopens state (state.wrote run after)
  | resolve (state : RunState) (outside : Outside) (choice : ResolveReplan)
      (snapshotProblem : Option String) (byRole byId : String) (now : Int) (after : ReplanStore)
      (resolves : state.store.resolveReplan outside choice snapshotProblem byRole byId now =
        .ok after) :
      HistoryStep run bareReopens state (state.wrote run after)
  | restore (state : RunState) (outside : Outside) (id : Nat) (generation : Int)
      (result : Except String Unit) (now : Int) (after : RunState)
      (recorded : state.recordRestore run outside id generation result now = some after) :
      HistoryStep run bareReopens state after
  | resumeStarted (state : RunState) :
      HistoryStep run bareReopens state
        { state with
          log := state.log ++ [.resumeStarted (state.log.filterMap Happened.started).length] }
  | resumeFinished (state : RunState) (resume : Nat) (holds : latestResume state.log = some resume) :
      HistoryStep run bareReopens state { state with log := state.log ++ [.resumeFinished resume] }
  /-- Any other write: it moves no operation, and leaves those that are closed as they are. -/
  | elsewhere (state : RunState) (after : ReplanStore)
      (closed : ∀ place : Place, place.status.isClosed = true →
        (place ∈ after.places ↔ place ∈ state.store.places))
      (moves : after.moves = state.store.moves) :
      HistoryStep run bareReopens state { state with store := after }

/-! ### What stands on a log -/

/-- The log since the last move of the operation, which took it where it is. -/
def SinceLastMove (place : Place) (log later : List Happened) : Prop :=
  ∃ earlier, log = earlier ++ .moved place.moved :: later ∧
    ∀ moved, .moved moved ∈ later → moved.operationId ≠ place.id

/-- A restore of the operation with no failure of one after it. -/
def RestoreStands (id : Nat) (log : List Happened) : Prop :=
  ∃ before restored after, log = before ++ .restored restored :: after ∧
    restored.operationId = id ∧ ∀ failed, .restoreFailed failed ∈ after → failed.operationId ≠ id

/-- A resume that both started and finished. -/
def ResumeDone (log : List Happened) : Prop :=
  ∃ before resume between after,
    log = before ++ .resumeStarted resume :: between ++ .resumeFinished resume :: after

/-- Each closed continuation of the run was moved where it is by the last move recorded of it. -/
def LastMoves (run : String) (places : List Place) (log : List Happened) : Prop :=
  ∀ place ∈ places, place.status.reopens = true → place.runId = run →
    ∃ later, SinceLastMove place log later

/-- A restore that stands is one of the continuation its operation is in now. -/
def Standing (run : String) (places : List Place) (log : List Happened) : Prop :=
  ∀ before restored after, log = before ++ .restored restored :: after →
    (∀ failed, .restoreFailed failed ∈ after → failed.operationId ≠ restored.operationId) →
    ∃ place ∈ places, place.id = restored.operationId ∧ place.status.reopens = true ∧
      place.runId = run ∧ restored.generation = some place.generation ∧
      ∀ moved, .moved moved ∈ after → moved.operationId ≠ restored.operationId

/-- The resume that finishes is the latest started. -/
def FinishesLatest (log : List Happened) : Prop :=
  ∀ before resume after, log = before ++ .resumeFinished resume :: after →
    latestResume before = some resume

theorem SinceLastMove.append {place : Place} {log later extra : List Happened}
    (since : SinceLastMove place log later)
    (others : ∀ moved, .moved moved ∈ extra → moved.operationId ≠ place.id) :
    SinceLastMove place (log ++ extra) (later ++ extra) := by
  obtain ⟨earlier, rfl, last⟩ := since
  refine ⟨earlier, by simp, fun moved member => ?_⟩
  rcases List.mem_append.mp member with inside | inside
  · exact last moved inside
  · exact others moved inside

/-- What is recorded besides moves leaves the last move the last. -/
theorem LastMoves.append {run : String} {places : List Place} {log : List Happened}
    (held : LastMoves run places log) (extra : List Happened)
    (noMove : ∀ moved, .moved moved ∉ extra) : LastMoves run places (log ++ extra) := by
  intro place member closed onRun
  obtain ⟨later, since⟩ := held place member closed onRun
  exact ⟨_, since.append fun moved inside => absurd inside (noMove moved)⟩

/-- What is recorded besides moves and restores leaves what stands standing. -/
theorem Standing.append {run : String} {places : List Place} {log : List Happened}
    (held : Standing run places log) (extra : List Happened)
    (noMove : ∀ moved, .moved moved ∉ extra) (noRestore : ∀ restored, .restored restored ∉ extra) :
    Standing run places (log ++ extra) := by
  intro before restored after split stands
  obtain ⟨middle, rfl, isLog⟩ := split_append split (noRestore restored)
  obtain ⟨place, member, isIt, closed, onRun, generation, last⟩ := held before restored middle isLog
    fun failed inside => stands failed (List.mem_append_left _ inside)
  refine ⟨place, member, isIt, closed, onRun, generation, fun moved inside => ?_⟩
  rcases List.mem_append.mp inside with inside | inside
  · exact last moved inside
  · exact absurd inside (noMove moved)

theorem FinishesLatest.append {log : List Happened} (held : FinishesLatest log)
    (extra : List Happened) (noFinish : ∀ resume, .resumeFinished resume ∉ extra) :
    FinishesLatest (log ++ extra) := by
  intro before resume after split
  obtain ⟨middle, _, isLog⟩ := split_append split (noFinish resume)
  exact held before resume middle isLog

/-- No restore of the operation stands on the log. -/
def NoneStands (id : Nat) (log : List Happened) : Prop := ¬ RestoreStands id log

theorem NoneStands.append {id : Nat} {log : List Happened} (none : NoneStands id log)
    (extra : List Happened) (noRestore : ∀ restored, .restored restored ∉ extra) :
    NoneStands id (log ++ extra) := by
  rintro ⟨before, restored, after, split, isIt, stands⟩
  obtain ⟨middle, rfl, isLog⟩ := split_append split (noRestore restored)
  exact none ⟨before, restored, middle, isLog, isIt, fun failed inside =>
    stands failed (List.mem_append_left _ inside)⟩

/-! ### What the steps keep -/

theorem mem_happenedOn {run : String} {moves : List (String × ReplanMoved)} {event : Happened} :
    event ∈ happenedOn run moves ↔ ∃ moved, (run, moved) ∈ moves ∧ event = .moved moved := by
  unfold happenedOn
  rw [List.mem_filterMap]
  constructor
  · rintro ⟨⟨on, moved⟩, member, isEvent⟩
    split at isEvent
    · rename_i same
      exact ⟨moved, (show on = run from same) ▸ member, (Option.some.inj isEvent).symm⟩
    · cases isEvent
  · rintro ⟨moved, member, rfl⟩
    exact ⟨(run, moved), member, if_pos rfl⟩

theorem happenedOn_cons (run : String) (recorded : String × ReplanMoved)
    (rest : List (String × ReplanMoved)) :
    happenedOn run (recorded :: rest) = happenedOn run [recorded] ++ happenedOn run rest := by
  unfold happenedOn
  rw [← List.filterMap_append]
  rfl

/-- A chain of moves leaves each closed continuation where its last move took it. -/
theorem LastMoves.chain {run : String} {mayReopen : Nat → Prop} {places after : List Place}
    {moves : List (String × ReplanMoved)} (chain : MoveChain mayReopen places moves after)
    (distinct : (places.map Place.id).Nodup) :
    ∀ {log : List Happened}, LastMoves run places log →
      LastMoves run after (log ++ happenedOn run moves) := by
  induction chain with
  | done places =>
    intro log held
    exact held.append _ (by simp [happenedOn])
  | @move places after rest place target member allowed may _ inductionHypothesis =>
    intro log held
    have one : LastMoves run (setPlace (place.moveTo target) places)
        (log ++ happenedOn run [(place.runId, (place.moveTo target).moved)]) := by
      intro other inside closed onRun
      rcases mem_setPlace.mp inside with ⟨rfl, _⟩ | ⟨inside, different⟩
      · refine ⟨[], log, ?_, fun moved none => absurd none List.not_mem_nil⟩
        have same : place.runId = run := onRun
        unfold happenedOn
        rw [List.filterMap_cons, if_pos same]
        rfl
      · obtain ⟨later, since⟩ := held other inside closed onRun
        refine ⟨_, since.append fun moved isNew => ?_⟩
        obtain ⟨_, isMove, same⟩ := mem_happenedOn.mp isNew
        have isMoved := (Prod.mk.inj (List.mem_singleton.mp isMove)).2
        rw [Happened.moved.inj same, isMoved]
        exact fun isOther => different isOther.symm
    have whole := inductionHypothesis (by rw [map_id_setPlace]; exact distinct) one
    rw [List.append_assoc] at whole
    rw [happenedOn_cons]
    exact whole
  | @raise places after rest place member opened _ inductionHypothesis =>
    intro log held
    refine inductionHypothesis (by rw [map_id_setPlace]; exact distinct) ?_
    intro other inside closed onRun
    rcases mem_setPlace.mp inside with ⟨rfl, _⟩ | ⟨inside, _⟩
    · have isClosed := ReplanStatus.closed_of_reopens closed
      exact absurd (isClosed.symm.trans opened) (by decide)
    · exact held other inside closed onRun

/-- A chain of moves leaves what stands standing, where it reopens only operations with no restore
standing. -/
theorem Standing.chain {run : String} {mayReopen : Nat → Prop} {places after : List Place}
    {moves : List (String × ReplanMoved)} (chain : MoveChain mayReopen places moves after)
    (distinct : (places.map Place.id).Nodup) :
    ∀ {log : List Happened}, (∀ id, mayReopen id → NoneStands id log) → Standing run places log →
      Standing run after (log ++ happenedOn run moves) := by
  have onlyMoves : ∀ (moves : List (String × ReplanMoved)) (restored : RestoreRecord),
      .restored restored ∉ happenedOn run moves := by
    intro moves restored inside
    obtain ⟨_, _, isMove⟩ := mem_happenedOn.mp inside
    cases isMove
  induction chain with
  | done places =>
    intro log _ held
    exact held.append _ (by simp [happenedOn]) (by simp [happenedOn])
  | @move places after rest place target member allowed may _ inductionHypothesis =>
    intro log none held
    have one : Standing run (setPlace (place.moveTo target) places)
        (log ++ happenedOn run [(place.runId, (place.moveTo target).moved)]) := by
      intro before restored later split stands
      obtain ⟨middle, rfl, isLog⟩ := split_append split (onlyMoves _ restored)
      have stood : ∀ failed, .restoreFailed failed ∈ middle →
          failed.operationId ≠ restored.operationId := fun failed inside =>
        stands failed (List.mem_append_left _ inside)
      obtain ⟨other, inside, isIt, closed, onRun, generation, last⟩ :=
        held before restored middle isLog stood
      have different : other.id ≠ place.id := by
        intro same
        obtain rfl := List.inj_on_of_nodup_map distinct inside member same
        exact none other.id (may closed) ⟨before, restored, middle, isLog, isIt.symm, isIt ▸ stood⟩
      refine ⟨other, mem_setPlace.mpr (Or.inr ⟨inside, different⟩), isIt, closed, onRun, generation,
        fun moved isMoved => ?_⟩
      rcases List.mem_append.mp isMoved with old | isNew
      · exact last moved old
      · obtain ⟨_, isMove, same⟩ := mem_happenedOn.mp isNew
        have isMoved := (Prod.mk.inj (List.mem_singleton.mp isMove)).2
        rw [Happened.moved.inj same, isMoved, ← isIt]
        exact fun isOther => different isOther.symm
    have whole := inductionHypothesis (by rw [map_id_setPlace]; exact distinct)
      (fun id may => (none id may).append _ (onlyMoves _)) one
    rw [List.append_assoc] at whole
    rw [happenedOn_cons]
    exact whole
  | @raise places after rest place member opened _ inductionHypothesis =>
    intro log none held
    refine inductionHypothesis (by rw [map_id_setPlace]; exact distinct) none ?_
    intro before restored later split stands
    obtain ⟨other, inside, isIt, closed, rest⟩ := held before restored later split stands
    have different : other.id ≠ place.id := by
      intro same
      obtain rfl := List.inj_on_of_nodup_map distinct inside member same
      have isClosed := ReplanStatus.closed_of_reopens closed
      exact absurd (isClosed.symm.trans opened) (by decide)
    exact ⟨other, mem_setPlace.mpr (Or.inr ⟨inside, different⟩), isIt, closed, rest⟩

/-! ### A history -/

/-- What holds of the records of the run along every history. -/
structure Recorded (run : String) (state : RunState) : Prop where
  last : LastMoves run state.store.places state.log
  finishes : FinishesLatest state.log

theorem recorded_start (run : String) : Recorded run .start where
  last := fun _ member => absurd member List.not_mem_nil
  finishes := fun before resume after split =>
    absurd (congrArg List.length split) (by simp [RunState.start])

theorem standing_start (run : String) :
    Standing run RunState.start.store.places RunState.start.log := fun before restored after split =>
  absurd (congrArg List.length split) (by simp [RunState.start])

theorem Recorded.wrote {run : String} {state : RunState} {after : ReplanStore}
    {mayReopen : Nat → Prop} (held : Recorded run state)
    (moves : ReplanStore.Moves mayReopen state.store after) : Recorded run (state.wrote run after) where
  last := LastMoves.chain moves.since state.store.places_distinct held.last
  finishes := held.finishes.append _ fun resume inside => by
    obtain ⟨_, _, isMove⟩ := mem_happenedOn.mp inside
    cases isMove

/-- A note of what happened to an operation, no move. -/
theorem Recorded.note {run : String} {state : RunState} (held : Recorded run state)
    (op : ReplanOperation) {event : Happened} (noMove : ∀ moved, event ≠ .moved moved)
    (noFinish : ∀ resume, event ≠ .resumeFinished resume) :
    Recorded run (state.note run op event) := by
  have only : ∀ other ∈ (if op.runId = run then [event] else []), other = event := by
    intro other inside
    split at inside
    · exact List.mem_singleton.mp inside
    · cases inside
  exact ⟨held.last.append _ fun moved inside => noMove moved (only _ inside).symm,
    held.finishes.append _ fun resume inside => noFinish resume (only _ inside).symm⟩

/-- What a record of a restore records, of an operation closed in a continuation. -/
theorem recordRestore_some {run : String} {outside : Outside} {state after : RunState} {id : Nat}
    {generation : Int} {result : Except String Unit} {now : Int}
    (recorded : state.recordRestore run outside id generation result now = some after) :
    ∃ op ∈ state.store.operations.items, op.id = id ∧ op.generation = generation ∧
      op.status.reopens = true ∧
      (after = state.note run op (.restored ⟨id, some generation⟩) ∨
        ∃ why store, state.store.reopenBlocked outside id generation why now = .ok store ∧
          after = (state.note run op (.restoreFailed ⟨id, some generation⟩)).wrote run store) := by
  unfold RunState.recordRestore at recorded
  split at recorded
  · cases recorded
  · rename_i op found
    obtain ⟨member, isId⟩ := Keyed.get?_eq_some_iff.mp found
    split at recorded
    · cases recorded
    · rename_i takes
      obtain ⟨sameGeneration, closed⟩ := not_or.mp takes
      refine ⟨op, member, isId, not_not.mp sameGeneration, Bool.eq_true_of_not_eq_false closed, ?_⟩
      split at recorded
      · exact Or.inl (Option.some.inj recorded).symm
      · rename_i why
        split at recorded
        · cases recorded
        · split at recorded
          · cases recorded
          · rename_i store reopens
            exact Or.inr ⟨why, store, reopens, (Option.some.inj recorded).symm⟩

theorem Recorded.step {run : String} {bareReopens : Bool} {before after : RunState}
    (held : Recorded run before) (step : HistoryStep run bareReopens before after) :
    Recorded run after := by
  cases step with
  | move outside id generation step now apply after moves kept =>
    have any := @ReplanStore.moveInAs_moves (fun _ => True) _ _ _ _ _ _ _ _ moves
      fun _ _ _ _ _ => trivial
    exact held.wrote any
  | resolve outside choice snapshotProblem byRole byId now after resolves =>
    exact held.wrote (ReplanStore.resolveReplan_moves resolves)
  | restore outside id generation result now after recorded =>
    obtain ⟨op, _, _, _, _, done⟩ := recordRestore_some recorded
    rcases done with rfl | ⟨why, store, reopens, rfl⟩
    · exact held.note op (fun _ same => by cases same) fun _ same => by cases same
    · have noted := @Recorded.note _ _ held op (.restoreFailed ⟨id, some generation⟩)
        (fun _ same => by cases same) fun _ same => by cases same
      exact noted.wrote (ReplanStore.reopenBlocked_moves reopens)
  | resumeStarted =>
    exact ⟨held.last.append _ fun moved inside => by simp at inside,
      held.finishes.append _ fun resume inside => by simp at inside⟩
  | resumeFinished resume holds =>
    refine ⟨held.last.append _ fun moved inside => by simp at inside, ?_⟩
    intro earlier other later split
    rcases split_concat split with ⟨isNew, _, isLog⟩ | ⟨middle, _, isLog⟩
    · rw [isLog, Happened.resumeFinished.inj isNew]
      exact holds
    · exact held.finishes earlier other middle isLog
  | elsewhere after closed moves =>
    refine ⟨fun place member isClosed onRun => ?_, held.finishes⟩
    exact held.last place ((closed place (ReplanStatus.closed_of_reopens isClosed)).mp member)
      isClosed onRun

/-- A history without bare reopenings leaves a restore that stands where its operation is. -/
theorem Standing.step {run : String} {before after : RunState}
    (held : Standing run before.store.places before.log)
    (step : HistoryStep run false before after) : Standing run after.store.places after.log := by
  have distinct := before.store.places_distinct
  cases step with
  | move outside id generation step now apply after moves kept =>
    have none := @ReplanStore.moveInAs_moves (fun _ => False) _ _ _ _ _ _ _ _ moves
      fun op member isId _ reopens => by
        rw [kept rfl op member isId] at reopens
        cases reopens
    exact Standing.chain none.since distinct (fun _ => False.elim) held
  | resolve outside choice snapshotProblem byRole byId now after resolves =>
    exact Standing.chain (ReplanStore.resolveReplan_moves resolves).since distinct
      (fun _ => False.elim) held
  | restore outside id generation result now after recorded =>
    obtain ⟨op, member, isId, sameGeneration, reopens, done⟩ := recordRestore_some recorded
    rcases done with rfl | ⟨why, store, reopened, rfl⟩
    · intro earlier restored later split stands
      unfold RunState.note at split ⊢
      by_cases onRun : op.runId = run
      · simp only [if_pos onRun] at split ⊢
        rcases split_concat split with ⟨isNew, rfl, _⟩ | ⟨middle, rfl, isLog⟩
        · rw [Happened.restored.inj isNew]
          exact ⟨op.place, ReplanStore.mem_places member, isId, reopens, onRun,
            congrArg some sameGeneration.symm, fun _ none => absurd none List.not_mem_nil⟩
        · -- an earlier restore: the one recorded now stands after it
          obtain ⟨place, inside, isIt, closed, placeOn, generation, last⟩ :=
            held earlier restored middle isLog fun failed inside =>
              stands failed (List.mem_append_left _ inside)
          refine ⟨place, inside, isIt, closed, placeOn, generation, fun moved isMoved => ?_⟩
          rcases List.mem_append.mp isMoved with old | isRestore
          · exact last moved old
          · cases List.mem_singleton.mp isRestore
      · simp only [if_neg onRun, List.append_nil] at split ⊢
        exact held earlier restored later split stands
    · have noted : Standing run before.store.places
          (before.note run op (.restoreFailed ⟨id, some generation⟩)).log := by
        refine held.append _ (fun moved inside => ?_) fun restored inside => ?_
        · split at inside <;> simp at inside
        · split at inside <;> simp at inside
      refine Standing.chain (ReplanStore.reopenBlocked_moves reopened).since distinct ?_ noted
      rintro other rfl ⟨earlier, restored, later, split, isIt, stands⟩
      unfold RunState.note at split
      by_cases onRun : op.runId = run
      · simp only [if_pos onRun] at split
        obtain ⟨middle, rfl, _⟩ := split_append split (by simp)
        exact stands _ (List.mem_append_right _ List.mem_cons_self) rfl
      · simp only [if_neg onRun, List.append_nil] at split
        obtain ⟨place, inside, isPlace, _, placeOn, _⟩ := held earlier restored later split
          fun failed member => isIt ▸ stands failed member
        have same := List.inj_on_of_nodup_map distinct inside (ReplanStore.mem_places member)
          (isPlace.trans (isIt.trans isId.symm))
        exact onRun ((congrArg Place.runId same).symm.trans placeOn)
  | resumeStarted => exact held.append _ (by simp) (by simp)
  | resumeFinished => exact held.append _ (by simp) (by simp)
  | elsewhere after closed moves =>
    intro earlier restored later split stands
    obtain ⟨place, inside, isIt, reopens, rest⟩ := held earlier restored later split stands
    exact ⟨place, (closed place (ReplanStatus.closed_of_reopens reopens)).mpr inside, isIt, reopens,
      rest⟩

end Dagq.Replan
