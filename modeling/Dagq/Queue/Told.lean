/-
This file compares when a task became claimable, replayed from the events, with the rows. What the
events told of the task, of the other tasks and of the goals is what the rows say, with one
exception: an apply moves what waited for the task it replaces onto the children, and records that
in no event the replay reads. A task moved so waits, for the replay, for one that never completes.
-/

import Dagq.Queue.ReadyAt
import Dagq.Queue.Runs

namespace Dagq.Queue

open Dagq.Lib Dagq.Ledger Dagq.Priorities Relation

/-! ### Numbers -/

/-- The numbers of tasks and goals are of 64 bits. -/
structure Fits (view : QueueView) : Prop where
  task : ∀ task, view.status task ≠ none → (task : Int) ≤ i64Max
  goal : ∀ goal, view.goal goal ≠ none → (goal : Int) ≤ i64Max

theorem fits_step {before after : QueueView} {facts : List QueueFact} (fits : Fits before)
    (next : ViewStep before facts after) : Fits after where
  task task there := by
    have old := fits.task task
    cases next with
    | claimed claimable =>
      have isReady := claimable.ready
      grind
    | replaced replaceable =>
      have isStarted := replaceable.isStarted
      have pending := replaceable.pending task
      grind
    | _ => grind
  goal goal there := by
    have old := fits.goal goal
    cases next <;> grind

theorem ViewRun.fits {facts : List QueueFact} {view : QueueView} (run : ViewRun facts view) :
    Fits view :=
  run.invariant Fits ⟨fun _ there => absurd rfl there, fun _ there => absurd rfl there⟩
    fun _ _ _ _ _ fits next => fits_step fits next

theorem asI64_int {number : Nat} (fits : (number : Int) ≤ i64Max) :
    Value.asI64 (.int number) = some (number : Int) := by
  have low : i64Min ≤ (number : Int) := le_trans (by decide) (Int.natCast_nonneg number)
  exact if_pos ⟨low, fits⟩

theorem asI64_numberValue {number : Option Nat} (fits : ∀ id, number = some id → (id : Int) ≤ i64Max) :
    Value.asI64 (numberValue number) = number.map fun id : Nat => (id : Int) := by
  cases number with
  | none => rfl
  | some id => exact asI64_int (fits id rfl)

/-! ### What was told -/

/-- The facts move the task off one that an apply replaced. -/
def MovedBy (facts : List QueueFact) (task : Nat) : Prop :=
  ∃ replaced children successors, .replanApplied replaced children successors ∈ facts ∧
    task ∈ List.map Prod.fst successors

/-- What the replay for the task knows is what the queue says, but that of a task moved it only knows
that it waits for one that was replaced. -/
structure Told (task : Nat) (view : QueueView) (moved : Prop) (replay : Replay) : Prop where
  ready : replay.ready = true ↔ view.status task = some .ready
  goal : replay.goal = (view.goalOf task).map fun id : Nat => (id : Int)
  completed : ∀ other : Nat, other ≠ task →
    ((other : Int) ∈ replay.completed ↔ view.status other = some .completed)
  dependencies : ¬ moved → ∀ number,
    number ∈ replay.dependencies ↔ ∃ other : Nat, number = other ∧ view.depends task other
  stuck : moved → ∃ other : Nat, (other : Int) ∈ replay.dependencies ∧
    view.status other = some .replaced
  goalDependencies : ∀ number,
    number ∈ replay.goalDependencies ↔ ∃ goal : Nat, number = goal ∧ view.dependsOnGoal task goal
  achieved : ∀ goal : Nat, (goal : Int) ∈ replay.achieved ↔
    ∃ status, view.goal goal = some ⟨status, some .achieved⟩
  drafts : ∀ goal : Nat, (goal : Int) ∈ replay.drafts ↔
    ∃ verdict, view.goal goal = some ⟨.draft, verdict⟩

variable {task : Nat} {view : QueueView} {moved : Prop} {replay : Replay}

theorem Told.judge (told : Told task view moved replay) (event : QueueEvent) :
    Told task view moved (replay.judge event) := { told with }

/-- What is told with a change of a status. -/
theorem Told.statusChanged (told : Told task view moved replay) {other : Nat}
    {before after : TaskStatus} {id : Nat} {time : String}
    (notReplaced : view.status other ≠ some .replaced) :
    Told task (view.setStatus other after) moved
      (replay.learn task ((QueueFact.taskStatusChanged other before after).event id time)) := by
  have isAfter : ((QueueFact.taskStatusChanged other before after).event id time).taskStatus "to" =
      some after := by
    simp [QueueFact.event, QueueEvent.taskStatus, statusPayload, Value.get, Value.asStr]
  have stuck : moved → ∃ waitedFor : Nat, (waitedFor : Int) ∈ replay.dependencies ∧
      (view.setStatus other after).status waitedFor = some .replaced := by
    intro isMoved
    obtain ⟨waitedFor, member, isReplaced⟩ := told.stuck isMoved
    refine ⟨waitedFor, member, ?_⟩
    rw [QueueView.setStatus_status, if_neg (by grind), isReplaced]
  by_cases same : other = task
  · subst same
    have isRead : replay.learn other ((QueueFact.taskStatusChanged other before after).event id time) =
        { replay with ready := some after == some .ready } := by
      rw [← isAfter]
      exact if_pos rfl
    rw [isRead]
    refine { told with ready := ?_, completed := ?_, stuck := stuck }
    · simp
    · intro waitedFor different
      rw [QueueView.setStatus_status, if_neg different]
      exact told.completed waitedFor different
  · have isRead : replay.learn task ((QueueFact.taskStatusChanged other before after).event id time) =
        if some after = some TaskStatus.completed then
          { replay with completed := insert (other : Int) replay.completed }
        else { replay with completed := replay.completed.erase other } := by
      rw [← isAfter]
      exact if_neg same
    have ready : replay.ready = true ↔ (view.setStatus other after).status task = some .ready := by
      rw [QueueView.setStatus_status, if_neg (Ne.symm same)]
      exact told.ready
    have old := told.completed
    rw [isRead]
    by_cases isCompleted : after = .completed
    · rw [if_pos (congrArg some isCompleted)]
      refine { told with ready := ready, completed := fun waitedFor different => ?_, stuck := stuck }
      rw [Finset.mem_insert, Int.natCast_inj, old waitedFor different, QueueView.setStatus_status]
      grind
    · rw [if_neg fun isSome => isCompleted (Option.some.inj isSome)]
      refine { told with ready := ready, completed := fun waitedFor different => ?_, stuck := stuck }
      rw [Finset.mem_erase, Ne, Int.natCast_inj, old waitedFor different, QueueView.setStatus_status]
      grind

theorem Told.runClaimed (told : Told task view moved replay) {claimed : Nat} {readyAt : Option String}
    {id : Nat} {time : String} (isReady : view.status claimed = some .ready) :
    Told task (view.setStatus claimed .inProgress) moved
      (replay.learn task ((QueueFact.runClaimed claimed readyAt).event id time)) := by
  have stuck : moved → ∃ waitedFor : Nat, (waitedFor : Int) ∈ replay.dependencies ∧
      (view.setStatus claimed .inProgress).status waitedFor = some .replaced := by
    intro isMoved
    obtain ⟨waitedFor, member, isReplaced⟩ := told.stuck isMoved
    exact ⟨waitedFor, member, by grind⟩
  have completed : ∀ waitedFor : Nat, waitedFor ≠ task → ((waitedFor : Int) ∈ replay.completed ↔
      (view.setStatus claimed .inProgress).status waitedFor = some .completed) := by
    intro waitedFor different
    have old := told.completed waitedFor different
    grind
  by_cases same : claimed = task
  · subst same
    have isRead : replay.learn claimed ((QueueFact.runClaimed claimed readyAt).event id time) =
        { replay with ready := false } := if_pos rfl
    rw [isRead]
    exact { told with ready := by simp, completed := completed, stuck := stuck }
  · have isRead : replay.learn task ((QueueFact.runClaimed claimed readyAt).event id time) = replay :=
      if_neg same
    rw [isRead]
    refine { told with ready := ?_, completed := completed, stuck := stuck }
    rw [QueueView.setStatus_status, if_neg (Ne.symm same)]
    exact told.ready

theorem Told.taskCreated (told : Told task view moved replay) {created : Nat} {goal : Option Nat}
    {id : Nat} {time : String} (fresh : view.status created = none)
    (fits : ∀ id, goal = some id → (id : Int) ≤ i64Max) :
    Told task (view.addTask created goal) moved
      (replay.learn task ((QueueFact.taskCreated created goal .draft).event id time)) := by
  have stuck : moved → ∃ waitedFor : Nat, (waitedFor : Int) ∈ replay.dependencies ∧
      (view.addTask created goal).status waitedFor = some .replaced := by
    intro isMoved
    obtain ⟨waitedFor, member, isReplaced⟩ := told.stuck isMoved
    exact ⟨waitedFor, member, by grind⟩
  have completed : ∀ waitedFor : Nat, waitedFor ≠ task → ((waitedFor : Int) ∈ replay.completed ↔
      (view.addTask created goal).status waitedFor = some .completed) := by
    intro waitedFor different
    have old := told.completed waitedFor different
    grind
  by_cases same : created = task
  · subst same
    have isGoal : ((QueueFact.taskCreated created goal .draft).event id time).number "goal_id" =
        goal.map fun id : Nat => (id : Int) := asI64_numberValue fits
    have isRead : replay.learn created
        ((QueueFact.taskCreated created goal .draft).event id time) =
          { replay with ready := false, goal := goal.map fun id : Nat => (id : Int) } := by
      rw [← isGoal]
      exact if_pos rfl
    rw [isRead]
    exact { told with ready := by simp, goal := by simp, completed := completed, stuck := stuck }
  · have isRead : replay.learn task
        ((QueueFact.taskCreated created goal .draft).event id time) = replay := if_neg same
    rw [isRead]
    refine { told with ready := ?_, goal := ?_, completed := completed, stuck := stuck }
    · rw [QueueView.addTask_status, if_neg (Ne.symm same)]
      exact told.ready
    · rw [QueueView.addTask_goalOf, if_neg (Ne.symm same)]
      exact told.goal

theorem Told.dependencyAdded (told : Told task view moved replay) {added predecessor id : Nat}
    {time : String} (fits : (predecessor : Int) ≤ i64Max) :
    Told task (view.addDependency added predecessor) moved
      (replay.learn task ((QueueFact.dependencyAdded added predecessor).event id time)) := by
  have isNumber : ((QueueFact.dependencyAdded added predecessor).event id time).number
      "predecessor_id" = some (predecessor : Int) := asI64_int fits
  by_cases same : added = task
  · subst same
    have isRead : replay.learn added ((QueueFact.dependencyAdded added predecessor).event id time) =
        { replay with
          dependencies := Replay.extend replay.dependencies (some (predecessor : Int)) } := by
      rw [← isNumber]
      exact if_pos rfl
    rw [isRead]
    refine { told with dependencies := fun unmoved number => ?_, stuck := fun isMoved => ?_ }
    · rw [mem_extend, told.dependencies unmoved]
      simp only [QueueView.addDependency_depends]
      grind
    · obtain ⟨waitedFor, member, isReplaced⟩ := told.stuck isMoved
      exact ⟨waitedFor, mem_extend.mpr (Or.inr member), isReplaced⟩
  · have isRead : replay.learn task
        ((QueueFact.dependencyAdded added predecessor).event id time) = replay := if_neg same
    rw [isRead]
    refine { told with dependencies := fun unmoved number => ?_ }
    rw [told.dependencies unmoved]
    simp only [QueueView.addDependency_depends]
    grind

theorem Told.dependencyRemoved (told : Told task view moved replay) {removed predecessor id : Nat}
    {time : String} (fits : (predecessor : Int) ≤ i64Max)
    (notReplaced : view.status predecessor ≠ some .replaced) :
    Told task (view.removeDependency removed predecessor) moved
      (replay.learn task ((QueueFact.dependencyRemoved removed predecessor).event id time)) := by
  have isNumber : ((QueueFact.dependencyRemoved removed predecessor).event id time).number
      "predecessor_id" = some (predecessor : Int) := asI64_int fits
  by_cases same : removed = task
  · subst same
    have isRead : replay.learn removed
        ((QueueFact.dependencyRemoved removed predecessor).event id time) =
          { replay with
            dependencies := Replay.without replay.dependencies (some (predecessor : Int)) } := by
      rw [← isNumber]
      exact if_pos rfl
    rw [isRead]
    refine { told with dependencies := fun unmoved number => ?_, stuck := fun isMoved => ?_ }
    · rw [mem_without, told.dependencies unmoved]
      simp only [QueueView.removeDependency_depends]
      grind
    · -- the task it waits for is another one, which an apply replaced
      obtain ⟨waitedFor, member, isReplaced⟩ := told.stuck isMoved
      exact ⟨waitedFor, mem_without.mpr ⟨by grind, member⟩, isReplaced⟩
  · have isRead : replay.learn task
        ((QueueFact.dependencyRemoved removed predecessor).event id time) = replay := if_neg same
    rw [isRead]
    refine { told with dependencies := fun unmoved number => ?_ }
    rw [told.dependencies unmoved]
    simp only [QueueView.removeDependency_depends]
    grind

theorem Told.goalDependencyAdded (told : Told task view moved replay) {added goal id : Nat}
    {time : String} (fits : (goal : Int) ≤ i64Max) :
    Told task (view.addGoalDependency added goal) moved
      (replay.learn task ((QueueFact.goalDependencyAdded added goal).event id time)) := by
  have isNumber : ((QueueFact.goalDependencyAdded added goal).event id time).number "goal_id" =
      some (goal : Int) := asI64_int fits
  by_cases same : added = task
  · subst same
    have isRead : replay.learn added ((QueueFact.goalDependencyAdded added goal).event id time) =
        { replay with
          goalDependencies := Replay.extend replay.goalDependencies (some (goal : Int)) } := by
      rw [← isNumber]
      exact if_pos rfl
    rw [isRead]
    refine { told with goalDependencies := fun number => ?_ }
    rw [mem_extend, told.goalDependencies]
    simp only [QueueView.addGoalDependency_dependsOnGoal]
    grind
  · have isRead : replay.learn task
        ((QueueFact.goalDependencyAdded added goal).event id time) = replay := if_neg same
    rw [isRead]
    refine { told with goalDependencies := fun number => ?_ }
    rw [told.goalDependencies]
    simp only [QueueView.addGoalDependency_dependsOnGoal]
    grind

theorem Told.goalDependencyRemoved (told : Told task view moved replay) {removed goal id : Nat}
    {time : String} (fits : (goal : Int) ≤ i64Max) :
    Told task (view.removeGoalDependency removed goal) moved
      (replay.learn task ((QueueFact.goalDependencyRemoved removed goal).event id time)) := by
  have isNumber : ((QueueFact.goalDependencyRemoved removed goal).event id time).number "goal_id" =
      some (goal : Int) := asI64_int fits
  by_cases same : removed = task
  · subst same
    have isRead : replay.learn removed
        ((QueueFact.goalDependencyRemoved removed goal).event id time) =
          { replay with
            goalDependencies := Replay.without replay.goalDependencies (some (goal : Int)) } := by
      rw [← isNumber]
      exact if_pos rfl
    rw [isRead]
    refine { told with goalDependencies := fun number => ?_ }
    rw [mem_without, told.goalDependencies]
    simp only [QueueView.removeGoalDependency_dependsOnGoal]
    grind
  · have isRead : replay.learn task
        ((QueueFact.goalDependencyRemoved removed goal).event id time) = replay := if_neg same
    rw [isRead]
    refine { told with goalDependencies := fun number => ?_ }
    rw [told.goalDependencies]
    simp only [QueueView.removeGoalDependency_dependsOnGoal]
    grind

theorem Told.taskGoalChanged (told : Told task view moved replay) {changed : Nat}
    {before after : Option Nat} {id : Nat} {time : String}
    (fits : ∀ id, after = some id → (id : Int) ≤ i64Max) :
    Told task (view.moveTask changed after) moved
      (replay.learn task ((QueueFact.taskGoalChanged changed before after).event id time)) := by
  have isNumber : ((QueueFact.taskGoalChanged changed before after).event id time).number "to" =
      after.map fun id : Nat => (id : Int) := asI64_numberValue fits
  by_cases same : changed = task
  · subst same
    have isRead : replay.learn changed
        ((QueueFact.taskGoalChanged changed before after).event id time) =
          { replay with goal := after.map fun id : Nat => (id : Int) } := by
      rw [← isNumber]
      exact if_pos rfl
    rw [isRead]
    exact { told with goal := by simp }
  · have isRead : replay.learn task
        ((QueueFact.taskGoalChanged changed before after).event id time) = replay := if_neg same
    rw [isRead]
    refine { told with goal := ?_ }
    rw [QueueView.moveTask_goalOf, if_neg (Ne.symm same)]
    exact told.goal

/-! ### Goals -/

/-- What is told with a change of a goal that keeps what was told of the others. -/
theorem Told.goalChanged (told : Told task view moved replay) {goal : Nat} {state : GoalState}
    {achieved drafts : Finset Int}
    (isAchieved : ∀ number, number ∈ achieved ↔
      if number = (goal : Int) then state.verdict = some .achieved else number ∈ replay.achieved)
    (isDraft : ∀ number, number ∈ drafts ↔
      if number = (goal : Int) then state.status = .draft else number ∈ replay.drafts) :
    Told task (view.setGoal goal state) moved { replay with achieved, drafts } := by
  obtain ⟨status, verdict⟩ := state
  refine { told with achieved := fun other => ?_, drafts := fun other => ?_ }
  · rw [isAchieved, told.achieved, QueueView.setGoal_goal]
    by_cases same : other = goal <;> simp [same]
  · rw [isDraft, told.drafts, QueueView.setGoal_goal]
    by_cases same : other = goal <;> simp [same]

theorem Told.goalCreated (told : Told task view moved replay) {goal : Nat} {status : GoalStatus}
    {id : Nat} {time : String} (fresh : view.goal goal = none) :
    Told task (view.setGoal goal ⟨status, none⟩) moved
      (replay.learn task ((QueueFact.goalCreated goal status).event id time)) := by
  have isCreated : ((QueueFact.goalCreated goal status).event id time).createdStatus =
      some status := by
    simp [QueueFact.event, QueueEvent.createdStatus, goalCreatedPayload, Value.get, Value.asStr]
  have isRead : replay.learn task ((QueueFact.goalCreated goal status).event id time) =
      if some status = some GoalStatus.draft then
        { replay with drafts := insert (goal : Int) replay.drafts }
      else replay := by
    rw [← isCreated]
    rfl
  have notAchieved : (goal : Int) ∉ replay.achieved := by
    rw [told.achieved, fresh]
    simp
  have notDraft : (goal : Int) ∉ replay.drafts := by
    rw [told.drafts, fresh]
    simp
  rw [isRead]
  by_cases isDraft : status = .draft
  · rw [if_pos (congrArg some isDraft)]
    refine told.goalChanged (fun number => ?_) fun number => ?_
    · by_cases same : number = goal <;> simp [same, notAchieved]
    · by_cases same : number = goal <;> simp [same, isDraft]
  · rw [if_neg fun isSome => isDraft (Option.some.inj isSome)]
    refine told.goalChanged (fun number => ?_) fun number => ?_
    · by_cases same : number = goal <;> simp [same, notAchieved]
    · by_cases same : number = goal <;> simp [same, notDraft, isDraft]

theorem Told.goalOpened (told : Told task view moved replay) {goal id : Nat} {time : String}
    (held : view.goal goal = some ⟨.draft, none⟩) :
    Told task (view.setGoal goal ⟨.open_, none⟩) moved
      (replay.learn task ((QueueFact.goalStatusChanged goal .draft .open_).event id time)) := by
  have isRead : replay.learn task ((QueueFact.goalStatusChanged goal .draft .open_).event id time) =
      { replay with drafts := replay.drafts.erase goal } := rfl
  have notAchieved : (goal : Int) ∉ replay.achieved := by
    rw [told.achieved, held]
    simp
  rw [isRead]
  refine told.goalChanged (fun number => ?_) fun number => ?_
  · by_cases same : number = goal <;> simp [same, notAchieved]
  · by_cases same : number = goal <;> simp [same]

theorem Told.goalClosed (told : Told task view moved replay) {goal : Nat} {status : GoalStatus}
    {verdict : GoalVerdict} {id : Nat} {time : String} (held : view.goal goal = some ⟨status, none⟩) :
    Told task (view.setGoal goal ⟨status, some verdict⟩) moved
      (replay.learn task ((QueueFact.goalClosed goal verdict).event id time)) := by
  have isVerdict : ((QueueFact.goalClosed goal verdict).event id time).verdict "verdict" =
      some verdict := by
    simp [QueueFact.event, QueueEvent.verdict, goalClosedPayload, Value.get, Value.asStr]
  have isRead : replay.learn task ((QueueFact.goalClosed goal verdict).event id time) =
      if some verdict = some GoalVerdict.achieved then
        { replay with achieved := insert (goal : Int) replay.achieved }
      else { replay with achieved := replay.achieved.erase goal } := by
    rw [← isVerdict]
    rfl
  have isDraft : (goal : Int) ∈ replay.drafts ↔ status = .draft := by
    rw [told.drafts, held]
    simp
  rw [isRead]
  by_cases isAchieved : verdict = .achieved
  · rw [if_pos (congrArg some isAchieved)]
    refine told.goalChanged (fun number => ?_) fun number => ?_
    · by_cases same : number = goal <;> simp [same, isAchieved]
    · by_cases same : number = goal <;> simp [same, isDraft]
  · rw [if_neg fun isSome => isAchieved (Option.some.inj isSome)]
    refine told.goalChanged (fun number => ?_) fun number => ?_
    · by_cases same : number = goal <;> simp [same, isAchieved]
    · by_cases same : number = goal <;> simp [same, isDraft]

theorem Told.goalReopened (told : Told task view moved replay) {goal id : Nat} {time : String} :
    Told task (view.setGoal goal ⟨.open_, none⟩) moved
      (replay.learn task ((QueueFact.goalReopened goal).event id time)) := by
  have isRead : replay.learn task ((QueueFact.goalReopened goal).event id time) =
      { replay with
        achieved := replay.achieved.erase goal
        drafts := replay.drafts.erase goal } := rfl
  rw [isRead]
  refine told.goalChanged (fun number => ?_) fun number => ?_
  · by_cases same : number = goal <;> simp [same]
  · by_cases same : number = goal <;> simp [same]

/-! ### Runs -/

/-- What the replay knows after these events, in the order they are given. -/
def replayed (task : Nat) (events : List QueueEvent) : Replay := events.foldl (Replay.read task) {}

variable {clock : Nat → String} {events : List QueueEvent}

theorem told_record {fact : QueueFact}
    (told : ∀ id time, Told task view moved ((replayed task events).learn task (fact.event id time))) :
    Told task view moved (replayed task (recordAll clock events [fact])) := by
  have isRead : replayed task (recordAll clock events [fact]) = (replayed task events).read task
      (fact.event (events.length + 1) (clock (events.length + 1))) :=
    List.foldl_append ..
  rw [isRead]
  exact (told _ _).judge _

/-- An event that is not one of the replay's is not learned from. -/
theorem learn_applied {replaced id : Nat} {children : List Nat} {successors : List (Nat × List Nat)}
    {time : String} :
    replay.learn task ((QueueFact.replanApplied replaced children successors).event id time) =
      replay := by
  by_cases same : replaced = task
  · exact if_pos same
  · exact if_neg same

theorem learn_noted {other goal : Option Nat} {name time : String} {id : Nat} :
    replay.learn task ((QueueFact.other other goal name).event id time) = replay := by
  unfold Replay.learn
  cases other with
  | some other =>
    by_cases same : other = task
    · exact if_pos same
    · exact if_neg same
  | none => cases goal <;> rfl

theorem foldl_setStatus (children : List Nat) (status : TaskStatus) (view : QueueView) :
    children.foldl (fun view child => view.setStatus child status) view =
      { view with status := fun id => if id ∈ children then some status else view.status id } := by
  induction children generalizing view with
  | nil => simp
  | cons child rest inductionHypothesis =>
    rw [List.foldl_cons, inductionHypothesis]
    simp only [QueueView.setStatus, QueueView.mk.injEq, and_true]
    funext id
    grind

theorem told_children (clock : Nat → String) {children : List Nat}
    (told : Told task view moved (replayed task events))
    (pending : ∀ child ∈ children, view.status child ≠ some .replaced) :
    Told task (children.foldl (fun view child => view.setStatus child .ready) view) moved
      (replayed task (recordAll clock events
        (children.map fun child => .taskStatusChanged child .submitted .ready))) := by
  induction children generalizing view events with
  | nil => exact told
  | cons child rest inductionHypothesis =>
    have isRecorded : recordAll clock events
        ((child :: rest).map fun child => .taskStatusChanged child .submitted .ready) =
          recordAll clock (recordAll clock events [.taskStatusChanged child .submitted .ready])
            (rest.map fun child => .taskStatusChanged child .submitted .ready) :=
      recordAll_append clock events [_] _
    rw [isRecorded, List.foldl_cons]
    refine inductionHypothesis (told_record fun _ _ =>
      told.statusChanged (pending child List.mem_cons_self)) fun other member => ?_
    have notReplaced := pending other (List.mem_cons_of_mem _ member)
    grind

theorem movedBy_append {facts more : List QueueFact} :
    MovedBy (facts ++ more) task ↔ MovedBy facts task ∨ MovedBy more task := by
  simp only [MovedBy, List.mem_append, or_and_right, exists_or]

/-- A task that a replacement moves waits, for the replay, for the task replaced; what is told of any
other task is what the queue says still. -/
theorem told_replaced {before : QueueView} {replaced : Nat} {children : List Nat}
    {successors : List (Nat × List Nat)} (told : Told task before moved (replayed task events))
    (replaceable : Replaceable before replaced children successors) :
    Told task (before.replace replaced children successors)
      (moved ∨ task ∈ successors.map Prod.fst)
      (replayed task (recordAll clock events (replacedFacts replaced children successors))) := by
  have isStarted := replaceable.isStarted
  have notChild : ∀ child ∈ children, child ≠ replaced := by
    rintro child member rfl
    rw [replaceable.pending _ member] at isStarted
    cases isStarted
  have isRecorded : recordAll clock events (replacedFacts replaced children successors) =
      recordAll clock (recordAll clock (recordAll clock events
        [.taskStatusChanged replaced .inProgress .replaced])
          (children.map fun child => .taskStatusChanged child .submitted .ready))
            [.replanApplied replaced children successors] := by
    rw [← recordAll_append, ← recordAll_append]
    rfl
  let ended := before.setStatus replaced .replaced
  have toldEnded : Told task ended moved
      (replayed task (recordAll clock events [.taskStatusChanged replaced .inProgress .replaced])) :=
    told_record fun _ _ => told.statusChanged (by rw [isStarted]; nofun)
  have toldChildren := told_children clock toldEnded fun child member => by
    rw [QueueView.setStatus_status, if_neg (notChild child member), replaceable.pending child member]
    nofun
  rw [foldl_setStatus] at toldChildren
  have sameStatus : (before.replace replaced children successors).status =
      fun id => if id ∈ children then some TaskStatus.ready else ended.status id := by
    funext id
    simp only [QueueView.replace_status, ended, QueueView.setStatus_status]
    grind
  rw [isRecorded]
  refine told_record fun _ _ => ?_
  rw [learn_applied]
  refine ⟨?_, toldChildren.goal, ?_, ?_, ?_, toldChildren.goalDependencies, toldChildren.achieved,
    toldChildren.drafts⟩
  · rw [sameStatus]
    exact toldChildren.ready
  · rw [sameStatus]
    exact toldChildren.completed
  · intro unmoved number
    rw [not_or] at unmoved
    have notListed : ∀ successor ∈ successors, successor.1 ≠ task := by
      rintro successor member rfl
      exact unmoved.2 (List.mem_map_of_mem member)
    rw [toldChildren.dependencies unmoved.1]
    simp only [QueueView.replace_depends]
    grind
  · rw [sameStatus]
    intro isMoved
    by_cases before_ : moved
    · exact toldChildren.stuck before_
    · -- moved just now, it waited for the task replaced
      have isSuccessor := (replaceable.isSuccessor task).mp (isMoved.resolve_left before_)
      refine ⟨replaced, (toldChildren.dependencies before_ _).mpr ⟨replaced, rfl, isSuccessor.1⟩, ?_⟩
      simp only [ended, QueueView.setStatus_status, if_pos]
      rw [if_neg fun member => notChild replaced member rfl]

theorem Told.congr {other : Prop} (told : Told task view moved replay) (same : moved ↔ other) :
    Told task view other replay := by
  rwa [← propext same]

/-- Each step keeps what is told what the queue says. -/
theorem told_step {before after : QueueView} {facts more : List QueueFact} (run : ViewRun facts before)
    (told : Told task before (MovedBy facts task) (replayed task events))
    (next : ViewStep before more after) :
    Told task after (MovedBy (facts ++ more) task) (replayed task (recordAll clock events more)) := by
  have fits := run.fits
  have goalFits : ∀ {goal : Option Nat}, before.Accepts goal → ∀ id, goal = some id →
      (id : Int) ≤ i64Max := by
    intro goal accepts id named
    obtain ⟨status, held⟩ := accepts id named
    exact fits.goal id (Option.ne_none_iff_exists'.mpr ⟨_, held⟩)
  -- no other step moves a task
  have unmoved : (¬ MovedBy more task) → (MovedBy facts task ↔ MovedBy (facts ++ more) task) :=
    fun kept => by rw [movedBy_append, or_iff_left kept]
  cases next with
  | replaced replaceable =>
    refine (told_replaced told replaceable).congr ?_
    rw [movedBy_append]
    refine or_congr_right ⟨fun member => ?_, ?_⟩
    · exact ⟨_, _, _, List.mem_append_right _ List.mem_cons_self, member⟩
    · rintro ⟨replaced, children, successors, listed, member⟩
      simp only [replacedFacts, List.mem_append, List.mem_cons, List.mem_map, List.not_mem_nil,
        or_false, QueueFact.replanApplied.injEq, reduceCtorEq, false_or, and_false, exists_false]
        at listed
      rwa [← listed.2.2]
  | noted =>
    refine Told.congr (told_record fun _ _ => ?_) (unmoved (by simp [MovedBy]))
    rwa [learn_noted]
  | goalAdded fresh =>
    exact (told_record fun _ _ => told.goalCreated fresh).congr (unmoved (by simp [MovedBy]))
  | goalOpened held =>
    exact (told_record fun _ _ => told.goalOpened held).congr (unmoved (by simp [MovedBy]))
  | goalClosed held =>
    exact (told_record fun _ _ => told.goalClosed held).congr (unmoved (by simp [MovedBy]))
  | goalReopened =>
    exact (told_record fun _ _ => told.goalReopened).congr (unmoved (by simp [MovedBy]))
  | taskAdded fresh _ accepts =>
    exact (told_record fun _ _ => told.taskCreated fresh (goalFits accepts)).congr
      (unmoved (by simp [MovedBy]))
  | dependencyAdded _ isStatus =>
    have inRange := fits.task _ (Option.ne_none_iff_exists'.mpr ⟨_, isStatus⟩)
    exact (told_record fun _ _ => told.dependencyAdded inRange).congr (unmoved (by simp [MovedBy]))
  | dependencyRemoved editable held =>
    -- a task that goes on waits for none that was replaced
    obtain ⟨status, isStatus, isEditable⟩ := editable
    have goesOn : status.isTerminal = false := by
      revert isEditable
      cases status <;> decide
    have notReplaced := run.redirected.waits _ _ ⟨status, isStatus, goesOn⟩ held
    have inRange := fits.task _ (run.rooted.task _ _ held).2
    exact (told_record fun _ _ => told.dependencyRemoved inRange notReplaced).congr
      (unmoved (by simp [MovedBy]))
  | goalDependencyAdded _ held =>
    have inRange := fits.goal _ (Option.ne_none_iff_exists'.mpr ⟨_, held⟩)
    exact (told_record fun _ _ => told.goalDependencyAdded inRange).congr
      (unmoved (by simp [MovedBy]))
  | goalDependencyRemoved _ held =>
    have inRange := fits.goal _ (run.rooted.goal _ _ held).2
    exact (told_record fun _ _ => told.goalDependencyRemoved inRange).congr
      (unmoved (by simp [MovedBy]))
  | taskMoved _ accepts =>
    exact (told_record fun _ _ => told.taskGoalChanged (goalFits accepts)).congr
      (unmoved (by simp [MovedBy]))
  | @statusChanged changed _ _ _ _ held moves =>
    have notReplaced : before.status changed ≠ some .replaced := by
      rw [held]
      rintro isReplaced
      rw [Option.some.inj isReplaced] at moves
      cases (transition_moves moves).1
    exact (told_record fun _ _ => told.statusChanged notReplaced).congr
      (unmoved (by simp [MovedBy]))
  | claimed claimable =>
    exact (told_record fun _ _ => told.runClaimed claimable.ready).congr
      (unmoved (by simp [MovedBy]))
  | @completed completing held =>
    have notReplaced : before.status completing ≠ some .replaced := by simp [held]
    exact (told_record fun _ _ => told.statusChanged notReplaced).congr
      (unmoved (by simp [MovedBy]))

/-- Every run told the replay what the queue says. -/
theorem ViewRun.told {facts : List QueueFact} (run : ViewRun facts view) (clock : Nat → String)
    (task : Nat) : Told task view (MovedBy facts task) (replayed task (recordAll clock [] facts)) := by
  induction run with
  | refl =>
    have noFact : ¬ MovedBy [] task := by simp [MovedBy]
    refine ⟨?_, rfl, ?_, fun _ => ?_, fun isMoved => absurd isMoved noFact, ?_, ?_, ?_⟩ <;>
      simp [QueueView.empty, replayed, recordAll]
  | step before next inductionHypothesis =>
    rw [recordAll_append]
    exact told_step before inductionHypothesis next

/-! ### Moves in the events -/

/-- The event of an apply that moves the task off the one it replaced. -/
def QueueEvent.moves (event : QueueEvent) (task : Nat) : Bool :=
  event.kind == .replanApplied &&
    (((event.payload.get "successors").bind Value.asArray).getD []).any fun successor =>
      match successor.get "task_id" with
      | some (.int number) => number == (task : Int)
      | _ => false

theorem moves_event {id : Nat} {time : String} {fact : QueueFact} :
    (fact.event id time).moves task = true ↔ MovedBy [fact] task := by
  cases fact with
  | replanApplied replaced children successors =>
    have listed : ((QueueFact.replanApplied replaced children successors).event id time).moves task =
        successors.any fun successor => (successor.1 : Int) == (task : Int) :=
      List.any_map
    rw [listed, List.any_eq_true]
    constructor
    · rintro ⟨successor, member, named⟩
      have isTask : successor.1 = task := Int.natCast_inj.mp (beq_iff_eq.mp named)
      exact ⟨_, _, _, List.mem_singleton_self _, isTask ▸ List.mem_map_of_mem member⟩
    · rintro ⟨_, _, moved, isFact, member⟩
      obtain ⟨successor, isSuccessor, rfl⟩ := List.mem_map.mp member
      rw [List.mem_singleton, QueueFact.replanApplied.injEq] at isFact
      exact ⟨successor, isFact.2.2 ▸ isSuccessor, beq_self_eq_true _⟩
  | _ => simp [MovedBy, QueueFact.event, QueueEvent.moves]

theorem moved_iff (clock : Nat → String) {facts : List QueueFact} :
    (∃ event ∈ recordAll clock [] facts, event.moves task = true) ↔ MovedBy facts task := by
  induction facts using List.reverseRecOn with
  | nil => simp [recordAll, MovedBy]
  | append_singleton facts fact inductionHypothesis =>
    simp only [recordAll_concat, List.mem_append, List.mem_singleton, or_and_right, exists_or,
      exists_eq_left, inductionHypothesis, moves_event, movedBy_append]

/-! ### Candidates -/

/-- The replay takes a task for a candidate exactly where it is one that was not moved. -/
theorem Told.now_iff (told : Told task view moved replay) (rooted : Rooted view)
    (loopless : view.status task = some .ready → ¬ view.depends task task) :
    replay.now = true ↔ view.Claimable task ∧ ¬ moved := by
  simp only [Replay.now, Bool.and_eq_true, decide_eq_true_eq, told.ready]
  constructor
  · rintro ⟨⟨⟨isReady, dependencies⟩, goalDependencies⟩, ownGoal⟩
    have unmoved : ¬ moved := by
      intro isMoved
      obtain ⟨waitedFor, member, isReplaced⟩ := told.stuck isMoved
      have different : waitedFor ≠ task := by
        rintro rfl
        rw [isReady] at isReplaced
        cases isReplaced
      have completed := (told.completed waitedFor different).mp (dependencies member)
      rw [isReplaced] at completed
      cases completed
    refine ⟨⟨isReady, ?_, ?_, ?_⟩, unmoved⟩
    · intro predecessor status edge isStatus
      have different : predecessor ≠ task := by
        rintro rfl
        exact loopless isReady edge
      have member := (told.dependencies unmoved predecessor).mpr ⟨predecessor, rfl, edge⟩
      have completed := (told.completed predecessor different).mp (dependencies member)
      rw [isStatus] at completed
      exact Option.some.inj completed
    · intro goal state edge isState
      have member := (told.goalDependencies goal).mpr ⟨goal, rfl, edge⟩
      obtain ⟨status, isAchieved⟩ := (told.achieved goal).mp (goalDependencies member)
      rw [isState, Option.some_inj] at isAchieved
      rw [isAchieved]
    · rintro goal ⟨status, verdict⟩ isMember isState rfl
      rw [told.goal, isMember, Option.map_some, Option.all_some, decide_eq_true_eq] at ownGoal
      exact ownGoal ((told.drafts goal).mpr ⟨verdict, isState⟩)
  · rintro ⟨⟨isReady, predecessors, goals, notDraft⟩, unmoved⟩
    refine ⟨⟨⟨isReady, fun number member => ?_⟩, fun number member => ?_⟩, ?_⟩
    · obtain ⟨predecessor, rfl, edge⟩ := (told.dependencies unmoved number).mp member
      obtain ⟨status, isStatus⟩ := Option.ne_none_iff_exists'.mp (rooted.task _ _ edge).2
      have different : predecessor ≠ task := by
        rintro rfl
        exact loopless isReady edge
      rw [told.completed predecessor different, isStatus, predecessors _ _ edge isStatus]
    · obtain ⟨goal, rfl, edge⟩ := (told.goalDependencies number).mp member
      obtain ⟨⟨status, verdict⟩, isState⟩ := Option.ne_none_iff_exists'.mp (rooted.goal _ _ edge).2
      have isAchieved : verdict = some .achieved := goals goal _ edge isState
      exact (told.achieved goal).mpr ⟨status, by rw [isState, isAchieved]⟩
    · rw [told.goal]
      cases isMember : view.goalOf task with
      | none => rfl
      | some goal =>
        rw [Option.map_some, Option.all_some, decide_eq_true_eq, told.drafts]
        rintro ⟨verdict, isState⟩
        exact notDraft goal _ isMember isState rfl

/-- The replay has judged as it would now. -/
theorem replayed_candidate (task : Nat) (events : List QueueEvent) :
    (replayed task events).candidate = (replayed task events).now := by
  induction events using List.reverseRecOn with
  | nil => rfl
  | append_singleton events event _ =>
    rw [replayed, List.foldl_append]
    rfl

/-- Events are recorded with ascending numbers. -/
theorem pairwise_recordAll (clock : Nat → String) (facts : List QueueFact) :
    (recordAll clock [] facts).Pairwise fun first second => first.id ≤ second.id := by
  have ascending : ∀ facts : List QueueFact,
      (recordAll clock [] facts).Pairwise (fun first second => first.id ≤ second.id) ∧
        ∀ event ∈ recordAll clock [] facts, event.id ≤ (recordAll clock [] facts).length := by
    intro facts
    induction facts using List.reverseRecOn with
    | nil => exact ⟨List.Pairwise.nil, nofun⟩
    | append_singleton facts fact inductionHypothesis =>
      obtain ⟨before, bounded⟩ := inductionHypothesis
      have isId : ∀ id time, (fact.event id time).id = id := by
        intro id time
        cases fact <;> rfl
      rw [recordAll_concat]
      refine ⟨List.pairwise_append.mpr ⟨before, List.pairwise_singleton _ _, ?_⟩, ?_⟩
      · intro event member last isLast
        rw [List.mem_singleton.mp isLast, isId]
        exact (bounded event member).trans (Nat.le_succ _)
      · intro event member
        rw [List.length_append, List.length_singleton]
        rcases List.mem_append.mp member with old | new
        · exact (bounded event old).trans (Nat.le_succ _)
        · rw [List.mem_singleton.mp new, isId]
  exact (ascending facts).1

theorem replayOf_recordAll (task : Nat) (clock : Nat → String) (facts : List QueueFact) :
    replayOf task (recordAll clock [] facts) = replayed task (recordAll clock [] facts) := by
  rw [replayOf, (pairwise_recordAll clock facts).insertionSort_eq, replayed]

theorem candidate_of_run {store : QueueStore} {facts : List QueueFact}
    (run : ViewRun facts store.view) (events : store.events = recordAll clock [] facts)
    {task : QueueTask} (member : task ∈ store.tasks.items) :
    (replayed task.id store.events).candidate = true ↔
      store.conditionsMet task = true ∧ ∀ event ∈ store.events, event.moves task.id = false := by
  have loopless : store.view.status task.id = some .ready → ¬ store.view.depends task.id task.id := by
    intro isReady edge
    refine run.live_acyclic (.task task.id) (.single ⟨.predecessor edge, fun isCanceled => ?_⟩)
    rw [show store.view.status task.id = some .canceled from isCanceled] at isReady
    cases isReady
  have kept : (∀ event ∈ store.events, event.moves task.id = false) ↔ ¬ MovedBy facts task.id := by
    rw [events, ← moved_iff clock]
    simp
  rw [kept, events, replayed_candidate, (run.told clock task.id).now_iff run.rooted loopless,
    QueueStore.conditionsMet_iff (Keyed.get?_eq_some_iff.mpr ⟨member, rfl⟩)]

/-- Whatever was written, the replay of the events has a task for a candidate exactly where the rows
do and no apply ever moved it off a task it replaced: no event that is replayed says so. -/
theorem candidate_iff {store : QueueStore}
    (reached : Reachable .empty (QueueStore.QueueStep clock) store) {task : QueueTask}
    (member : task ∈ store.tasks.items) :
    (replayOf task.id store.events).candidate = true ↔
      store.conditionsMet task = true ∧ ∀ event ∈ store.events, event.moves task.id = false := by
  obtain ⟨facts, run, events⟩ := QueueStore.reachable_run reached
  rw [← candidate_of_run run events member, events, replayOf_recordAll]

/-- The first task is a candidate, and the second waits for it. -/
def readyStore : QueueStore :=
  QueueStore.writtenOr QueueStore.waitingStore [.transition 1 .submit, .transition 1 .approve]

theorem readyStore_reached :
    Reachable .empty (QueueStore.QueueStep QueueStore.steadyClock) readyStore :=
  QueueStore.waitingStore_reached.trans (QueueStore.reachable_writtenOr (by decide))

theorem candidate_iff_readyStore : (replayOf 1 readyStore.events).candidate = true := by
  have member : (⟨1, .ready, some 1⟩ : QueueTask) ∈ readyStore.tasks.items := by decide
  exact (candidate_iff readyStore_reached member).mpr ⟨by decide, by decide⟩

/-! ### The time a claim records -/

/-- While the replay has a candidate, its time is that of the event since which it has had it. -/
theorem since_of_candidate {task : Nat} {events : List QueueEvent}
    (parses : ∀ event ∈ events, (timestampMillis event.createdAt).isSome = true)
    (candidate : (replayed task events).candidate = true) :
    ∃ before event after, events = before ++ event :: after ∧
      (replayed task events).since = some event.createdAt ∧
      (replayed task before).candidate = false ∧
      ∀ middle, middle <+: after → (replayed task (before ++ event :: middle)).candidate = true := by
  induction events using List.reverseRecOn with
  | nil => cases candidate
  | append_singleton events last inductionHypothesis =>
    have isRead : replayed task (events ++ [last]) = (replayed task events).read task last :=
      List.foldl_append ..
    have isSince : (replayed task (events ++ [last])).since =
        if (replayed task (events ++ [last])).candidate && !(replayed task events).candidate then
          some last.createdAt
        else (replayed task events).since := by
      rw [isRead]
      simp only [Replay.read, Replay.judge, Replay.learn_candidate, Replay.learn_since,
        parses last (by simp), Bool.and_true]
    by_cases wasCandidate : (replayed task events).candidate = true
    · obtain ⟨before, event, after, rfl, since, notBefore, throughout⟩ :=
        inductionHypothesis (fun event member => parses event (List.mem_append_left _ member))
          wasCandidate
      refine ⟨before, event, after ++ [last], by simp, ?_, notBefore, fun middle isPrefix => ?_⟩
      · rw [isSince, wasCandidate, Bool.not_true, Bool.and_false]
        exact since
      · rcases List.prefix_concat_iff.mp isPrefix with rfl | isPrefix
        · simpa using candidate
        · exact throughout middle isPrefix
    · have notCandidate := Bool.not_eq_true _ ▸ wasCandidate
      refine ⟨events, last, [], rfl, ?_, notCandidate, fun middle isPrefix => ?_⟩
      · rw [isSince, candidate, notCandidate]
        rfl
      · rw [List.prefix_nil.mp isPrefix]
        exact candidate

theorem recordAll_prefix (clock : Nat → String) (events : List QueueEvent)
    (facts : List QueueFact) : ∃ more, recordAll clock events facts = events ++ more := by
  induction facts generalizing events with
  | nil => exact ⟨[], (List.append_nil _).symm⟩
  | cons fact rest inductionHypothesis =>
    obtain ⟨more, isMore⟩ := inductionHypothesis
      (events ++ [fact.event (events.length + 1) (clock (events.length + 1))])
    exact ⟨_, isMore.trans (List.append_assoc ..)⟩

theorem stamped_recordAll (parses : ∀ number, (timestampMillis (clock number)).isSome = true)
    (facts : List QueueFact) :
    ∀ event ∈ recordAll clock [] facts, (timestampMillis event.createdAt).isSome = true := by
  induction facts using List.reverseRecOn with
  | nil => nofun
  | append_singleton facts fact inductionHypothesis =>
    intro event member
    rw [recordAll_concat] at member
    rcases List.mem_append.mp member with old | new
    · exact inductionHypothesis event old
    · rw [List.mem_singleton.mp new]
      have isTime : ∀ id time, (fact.event id time).createdAt = time := by
        intro id time
        cases fact <;> rfl
      rw [isTime]
      exact parses _

/-- What the replay has for a candidate, without a move, is one of the rows. -/
theorem row_of_candidate {store : QueueStore} {facts : List QueueFact}
    (run : ViewRun facts store.view) (events : store.events = recordAll clock [] facts) {task : Nat}
    (candidate : (replayed task store.events).candidate = true) :
    ∃ row ∈ store.tasks.items, row.id = task ∧ store.conditionsMet row = true := by
  have isReady : store.view.status task = some .ready := by
    have isNow := candidate
    rw [replayed_candidate, events, Replay.now, Bool.and_eq_true, Bool.and_eq_true,
      Bool.and_eq_true] at isNow
    exact (run.told clock task).ready.mp isNow.1.1.1
  obtain ⟨row, member, rfl, _⟩ := QueueStore.mem_of_status isReady
  exact ⟨row, member, rfl, ((candidate_of_run run events member).mp candidate).1⟩

/-- The time a claim records for a candidate that no apply moved is that of the event that made it
one: every store since then had it for a candidate, and the one right before the event, where a
write left one, did not. -/
theorem ready_at_since {store : QueueStore}
    (reached : Reachable .empty (QueueStore.QueueStep clock) store)
    (parses : ∀ number, (timestampMillis (clock number)).isSome = true) {task : QueueTask}
    (member : task ∈ store.tasks.items) (isCandidate : store.conditionsMet task = true)
    (kept : ∀ event ∈ store.events, event.moves task.id = false) :
    ∃ before event after, store.events = before ++ event :: after ∧
      taskReadyAt task.id store.events = some event.createdAt ∧
      ∀ earlier, Reachable .empty (QueueStore.QueueStep clock) earlier →
        Reachable earlier (QueueStore.QueueStep clock) store →
          (before.length < earlier.events.length → ∃ row ∈ earlier.tasks.items,
            row.id = task.id ∧ earlier.conditionsMet row = true) ∧
          (earlier.events.length = before.length → ∀ row ∈ earlier.tasks.items,
            row.id = task.id → earlier.conditionsMet row = false) := by
  obtain ⟨facts, run, events⟩ := QueueStore.reachable_run reached
  have stamped : ∀ event ∈ store.events, (timestampMillis event.createdAt).isSome = true := by
    rw [events]
    exact stamped_recordAll parses facts
  obtain ⟨before, event, after, isCut, since, notBefore, throughout⟩ := since_of_candidate stamped
    ((candidate_of_run run events member).mpr ⟨isCandidate, kept⟩)
  refine ⟨before, event, after, isCut, ?_, fun earlier isEarlier later => ?_⟩
  · rw [taskReadyAt_since, events, replayOf_recordAll, ← events]
    exact since
  obtain ⟨more, _, written⟩ := QueueStore.reachable_written later
  obtain ⟨rest, isRest⟩ := recordAll_prefix clock earlier.events more
  have isPrefix : earlier.events ++ rest = before ++ event :: after := by
    rw [← isRest, ← written, isCut]
  obtain ⟨_, earlierRun, earlierEvents⟩ := QueueStore.reachable_run isEarlier
  constructor
  · intro longer
    rcases List.append_eq_append_iff.mp isPrefix with ⟨gap, isBefore, _⟩ | ⟨next, isNext, isRest⟩
    · rw [isBefore, List.length_append] at longer
      omega
    · cases next with
      | nil => simp [isNext] at longer
      | cons first middle =>
        rw [List.cons_append, List.cons.injEq] at isRest
        obtain ⟨rfl, isAfter⟩ := isRest
        refine row_of_candidate earlierRun earlierEvents ?_
        rw [isNext]
        exact throughout middle ⟨rest, isAfter.symm⟩
  · intro same row isRow named
    obtain ⟨isBefore, _⟩ := List.append_inj isPrefix same
    by_contra isMet
    have keptEarlier : ∀ event ∈ earlier.events, event.moves row.id = false := by
      intro event inside
      rw [named]
      exact kept event (by rw [isCut, ← isPrefix]; exact List.mem_append_left _ inside)
    have again := (candidate_of_run earlierRun earlierEvents isRow).mpr
      ⟨Bool.not_eq_false _ ▸ isMet, keptEarlier⟩
    rw [isBefore, named, notBefore] at again
    cases again

theorem ready_at_since_readyStore : ∃ event ∈ readyStore.events,
    taskReadyAt 1 readyStore.events = some event.createdAt := by
  have member : (⟨1, .ready, some 1⟩ : QueueTask) ∈ readyStore.tasks.items := by decide
  have parses : (timestampMillis "2026-01-02T03:04:05Z").isSome = true := by decide
  obtain ⟨before, event, after, isCut, isTime, _⟩ :=
    ready_at_since readyStore_reached (fun _ => parses) member (by decide) (by decide)
  exact ⟨event, by simp [isCut], isTime⟩

end Dagq.Queue
