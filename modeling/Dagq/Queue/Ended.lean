/-
This file proves what holds of the statuses after any run of the queue: a task is started only
on predecessors that completed, a task that goes on waits for none that was replaced, a replaced
task names what it was replaced by, and all that holds an achieved goal back has ended.
-/

import Dagq.Queue.View

namespace Dagq.Queue

open Dagq.Lib Dagq.Ledger Dagq.Priorities Relation

/-! ### What every step keeps -/

/-- A status that an action moves from or to is none that a run or an apply alone leaves. -/
theorem transition_moves {before after : TaskStatus} {action : TaskAction} {unfinishedRun : Bool}
    (moves : before.transition action unfinishedRun = .ok after) :
    before.isTerminal = false ∧ after ≠ .inProgress ∧ after ≠ .completed ∧ after ≠ .replaced := by
  cases before <;> cases action <;> cases unfinishedRun <;> cases moves <;> decide

/-- A task that has ended stays as it is. -/
theorem ViewStep.status_ended {before after : QueueView} {facts : List QueueFact}
    (next : ViewStep before facts after) {task : Nat} {status : TaskStatus}
    (held : before.status task = some status) (ended : status.isTerminal = true) :
    after.status task = some status := by
  cases next with
  | statusChanged isBefore moves =>
    have goesOn := (transition_moves moves).1
    grind
  | claimed claimable =>
    have isReady := claimable.ready
    grind [TaskStatus.isTerminal]
  | replaced replaceable =>
    have isStarted := replaceable.isStarted
    have pending := replaceable.pending task
    grind [TaskStatus.isTerminal]
  | _ => grind [TaskStatus.isTerminal]

theorem ViewStep.status_kept {before after : QueueView} {facts : List QueueFact}
    (next : ViewStep before facts after) {task : Nat} (held : before.status task ≠ none) :
    after.status task ≠ none := by
  cases next <;> grind

theorem ViewStep.goal_kept {before after : QueueView} {facts : List QueueFact}
    (next : ViewStep before facts after) {goal : Nat} (held : before.goal goal ≠ none) :
    after.goal goal ≠ none := by
  cases next <;> grind

theorem ViewStep.replacedBy_kept {before after : QueueView} {facts : List QueueFact}
    (next : ViewStep before facts after) {task child : Nat} (edge : before.replacedBy task child) :
    after.replacedBy task child := by
  cases next with
  | replaced replaceable => exact Or.inl edge
  | _ => exact edge

/-- What the queue says of one task. -/
structure SameTask (before after : QueueView) (task : Nat) : Prop where
  status : after.status task = before.status task
  goalOf : after.goalOf task = before.goalOf task
  depends : after.depends task = before.depends task
  dependsOnGoal : after.dependsOnGoal task = before.dependsOnGoal task
  replacedBy : after.replacedBy task = before.replacedBy task

theorem not_editable_of_ended {view : QueueView} {task : Nat} (ended : view.Ended task) :
    ¬ view.Editable task := by
  rintro ⟨status, held, editable⟩
  obtain ⟨other, again, isTerminal⟩ := ended
  rw [again, Option.some_inj] at held
  subst held
  revert editable isTerminal
  cases other <;> decide

/-- Nothing that is said of a task changes once it has ended. -/
theorem ViewStep.sameTask {before after : QueueView} {facts : List QueueFact}
    (next : ViewStep before facts after) {task : Nat} (ended : before.Ended task) :
    SameTask before after task := by
  have notEditable := not_editable_of_ended ended
  obtain ⟨status, held, isTerminal⟩ := ended
  have sameStatus : after.status task = before.status task :=
    (next.status_ended held isTerminal).trans held.symm
  refine ⟨sameStatus, ?_, ?_, ?_, ?_⟩
  · cases next <;> grind
  · funext predecessor
    cases next with
    | @replaced _ _ successors replaceable =>
      have notListed : ∀ successor ∈ successors, successor.1 ≠ task := by
        rintro successor member rfl
        exact notEditable (replaceable.unstarted _ (List.mem_map_of_mem member))
      grind
    | _ => grind
  · funext goal
    cases next <;> grind
  · funext child
    cases next with
    | replaced replaceable =>
      have isStarted := replaceable.isStarted
      grind [TaskStatus.isTerminal]
    | _ => rfl

theorem SameTask.refl (view : QueueView) (task : Nat) : SameTask view view task :=
  ⟨rfl, rfl, rfl, rfl, rfl⟩

theorem SameTask.trans {first second third : QueueView} {task : Nat}
    (before : SameTask first second task) (after : SameTask second third task) :
    SameTask first third task :=
  ⟨after.status.trans before.status, after.goalOf.trans before.goalOf,
    after.depends.trans before.depends, after.dependsOnGoal.trans before.dependsOnGoal,
    after.replacedBy.trans before.replacedBy⟩

theorem SameTask.ended {before after : QueueView} {task : Nat} (same : SameTask before after task)
    (ended : before.Ended task) : after.Ended task := by
  obtain ⟨status, held, isTerminal⟩ := ended
  exact ⟨status, same.status.trans held, isTerminal⟩

theorem ViewSteps.sameTask {before after : QueueView} {facts : List QueueFact}
    (steps : ViewSteps before facts after) {task : Nat} (ended : before.Ended task) :
    SameTask before after task := by
  induction steps with
  | refl => exact .refl before task
  | step _ next inductionHypothesis =>
    exact inductionHypothesis.trans (next.sameTask (inductionHypothesis.ended ended))

/-- What is named is there, and only a replaced task was replaced by others. -/
structure Rooted (view : QueueView) : Prop where
  task : ∀ first second, view.depends first second →
    view.status first ≠ none ∧ view.status second ≠ none
  goal : ∀ task goal, view.dependsOnGoal task goal → view.status task ≠ none ∧ view.goal goal ≠ none
  member : ∀ task goal, view.goalOf task = some goal → view.status task ≠ none ∧ view.goal goal ≠ none
  replaced : ∀ task child, view.replacedBy task child →
    view.status task = some .replaced ∧ view.status child ≠ none

theorem rooted_step {before after : QueueView} {facts : List QueueFact} (rooted : Rooted before)
    (next : ViewStep before facts after) : Rooted after where
  task first second edge := by
    have kept : ∀ id, before.status id ≠ none → after.status id ≠ none := fun _ => next.status_kept
    have old := rooted.task first second
    cases next with
    | dependencyAdded editable isStatus =>
      obtain ⟨status, held, _⟩ := editable
      grind
    | replaced replaceable =>
      rcases edge with ⟨edge, _⟩ | ⟨successor, isListed, rfl, isNeed⟩
      · exact ⟨kept _ (old edge).1, kept _ (old edge).2⟩
      · -- a successor waited for the task, and waits for children, which are there
        have isSuccessor := (replaceable.isSuccessor _).mp (List.mem_map_of_mem isListed)
        have pending := replaceable.pending second (replaceable.needs _ isListed _ isNeed)
        exact ⟨kept _ (rooted.task _ _ isSuccessor.1).1, kept _ (by rw [pending]; nofun)⟩
    | _ => grind
  goal task goal edge := by
    have old := rooted.goal task goal
    cases next with
    | goalDependencyAdded editable held =>
      obtain ⟨status, isStatus, _⟩ := editable
      grind
    | _ => grind
  member task goal isMember := by
    have old := rooted.member task goal
    cases next with
    | taskAdded fresh fits accepts =>
      have isOpen := accepts goal
      grind
    | taskMoved editable accepts =>
      have isOpen := accepts goal
      obtain ⟨status, isStatus, _⟩ := editable
      grind
    | _ => grind
  replaced task child edge := by
    have old := rooted.replaced task child
    have kept : before.status child ≠ none → after.status child ≠ none := next.status_kept
    have ended : before.status task = some .replaced → after.status task = some .replaced :=
      fun isReplaced => next.status_ended isReplaced rfl
    cases next with
    | replaced replaceable =>
      have pending := replaceable.pending child
      grind [TaskStatus.isTerminal]
    | _ => grind [TaskStatus.isTerminal]

theorem ViewRun.rooted {facts : List QueueFact} {view : QueueView} (run : ViewRun facts view) :
    Rooted view :=
  run.invariant Rooted ⟨nofun, nofun, nofun, nofun⟩
    fun _ _ _ _ _ rooted next => rooted_step rooted next

/-! ### Started tasks -/

/-- The task is in progress, was completed or was replaced: a run of it was claimed. -/
def TaskStatus.isStarted : TaskStatus → Bool
  | .inProgress | .completed | .replaced => true
  | _ => false

theorem not_started_of_editable {status : TaskStatus} (editable : status.dependenciesEditable = true) :
    status.isStarted = false := by
  cases status <;> first | rfl | cases editable

theorem started_of_ended {status : TaskStatus} (ended : status.isTerminal = true)
    (notCanceled : status ≠ .canceled) : status.isStarted = true := by
  revert ended notCanceled
  cases status <;> decide

/-- The predecessors of a started task are completed. -/
def Started (view : QueueView) : Prop :=
  ∀ task predecessor status, view.status task = some status → status.isStarted = true →
    view.depends task predecessor → view.status predecessor = some .completed

theorem started_step {before after : QueueView} {facts : List QueueFact} (rooted : Rooted before)
    (started : Started before) (next : ViewStep before facts after) : Started after := by
  intro task predecessor status isStatus isStarted edge
  have old := started task predecessor
  have there := rooted.task task predecessor
  have kept : before.status predecessor = some .completed →
      after.status predecessor = some .completed := fun completed => next.status_ended completed rfl
  cases next with
  | dependencyAdded editable isOther =>
    obtain ⟨other, held, isEditable⟩ := editable
    have notStarted := not_started_of_editable isEditable
    grind [TaskStatus.isTerminal]
  | statusChanged held moves =>
    have notStarted := (transition_moves moves).2
    grind [TaskStatus.isStarted, TaskStatus.isTerminal]
  | @claimed claimedTask _ claimable =>
    by_cases same : task = claimedTask
    · subst same
      obtain ⟨other, held⟩ := Option.ne_none_iff_exists'.mp (there edge).2
      have completed := claimable.predecessors predecessor other edge held
      exact kept (completed ▸ held)
    · grind [TaskStatus.isTerminal]
  | replaced replaceable =>
    have wasStarted := replaceable.isStarted
    rcases edge with ⟨edge, _⟩ | ⟨successor, isListed, rfl, isNeed⟩
    · grind [TaskStatus.isStarted, TaskStatus.isTerminal]
    · -- a successor has not started, and it is neither the task nor a child that started
      obtain ⟨other, held, isEditable⟩ :=
        replaceable.unstarted _ (List.mem_map_of_mem isListed)
      have notStarted := not_started_of_editable isEditable
      have pending := replaceable.pending successor.1
      grind [TaskStatus.isStarted, TaskStatus.isTerminal]
  | _ => grind [TaskStatus.isStarted, TaskStatus.isTerminal]

theorem ViewRun.started {facts : List QueueFact} {view : QueueView} (run : ViewRun facts view) :
    Started view :=
  run.invariant Started nofun fun _ _ _ _ before started next =>
    started_step before.rooted started next

/-! ### Replaced tasks -/

/-- Nothing that goes on waits for a replaced task, which names what it was replaced by. -/
structure Redirected (view : QueueView) : Prop where
  waits : ∀ task predecessor, view.Unended task → view.depends task predecessor →
    view.status predecessor ≠ some .replaced
  named : ∀ task, view.status task = some .replaced → ∃ child, view.replacedBy task child

theorem ViewStep.unended_before {before after : QueueView} {facts : List QueueFact}
    (next : ViewStep before facts after) {task : Nat} (there : before.status task ≠ none)
    (unended : after.Unended task) : before.Unended task := by
  obtain ⟨status, held⟩ := Option.ne_none_iff_exists'.mp there
  refine ⟨status, held, ?_⟩
  by_contra ended
  obtain ⟨other, isAfter, goesOn⟩ := unended
  have same := next.status_ended held (Bool.not_eq_false _ ▸ ended)
  grind

theorem redirected_step {before after : QueueView} {facts : List QueueFact} (rooted : Rooted before)
    (redirected : Redirected before) (next : ViewStep before facts after) : Redirected after where
  waits task predecessor unended edge := by
    have wasUnended : before.status task ≠ none → before.Unended task :=
      fun there => next.unended_before there unended
    have old := redirected.waits task predecessor
    have there := rooted.task task predecessor
    cases next with
    | dependencyAdded editable isStatus kept =>
      obtain ⟨status, held, _⟩ := editable
      grind
    | statusChanged held moves =>
      have notReplaced := (transition_moves moves).2
      grind
    | replaced replaceable =>
      rcases edge with ⟨edge, unmoved⟩ | ⟨successor, isListed, rfl, isNeed⟩
      · -- whatever waited for the task and has not ended was moved
        have isSuccessor := replaceable.isSuccessor task
        grind
      · have pending := replaceable.pending _ (replaceable.needs _ isListed _ isNeed)
        have isStarted := replaceable.isStarted
        have isNeed := replaceable.needs _ isListed _ isNeed
        grind
    | _ => grind
  named task isReplaced := by
    by_cases already : before.status task = some .replaced
    · obtain ⟨child, edge⟩ := redirected.named task already
      exact ⟨child, next.replacedBy_kept edge⟩
    · cases next with
      | statusChanged held moves =>
        have notReplaced := (transition_moves moves).2
        grind
      | replaced replaceable =>
        obtain ⟨child, member⟩ := List.exists_mem_of_ne_nil _ replaceable.nonempty
        exact ⟨child, Or.inr ⟨by grind, member⟩⟩
      | _ => grind

theorem ViewRun.redirected {facts : List QueueFact} {view : QueueView} (run : ViewRun facts view) :
    Redirected view :=
  run.invariant Redirected ⟨nofun, nofun⟩ fun _ _ _ _ before redirected next =>
    redirected_step before.rooted redirected next

/-! ### Achieved goals -/

/-- All that holds an achieved goal back has ended. -/
def Achieved (view : QueueView) : Prop :=
  ∀ goal state task, view.goal goal = some state → state.verdict = some .achieved →
    view.Holds goal task → view.Ended task

theorem ViewStep.ended_kept {before after : QueueView} {facts : List QueueFact}
    (next : ViewStep before facts after) {task : Nat} (ended : before.Ended task) :
    after.Ended task := by
  obtain ⟨status, held, isTerminal⟩ := ended
  exact ⟨status, next.status_ended held isTerminal, isTerminal⟩

/-- What holds a goal back is there. -/
theorem Rooted.holds {view : QueueView} (rooted : Rooted view) {goal task : Nat}
    (holds : view.Holds goal task) : view.status task ≠ none := by
  rcases holds with isMember | ⟨root, _, _, path⟩
  · exact (rooted.member _ _ isMember).1
  · obtain ⟨last, _, edge⟩ := TransGen.tail'_iff.mp path
    exact (rooted.replaced _ _ edge).2

/-- A task that has ended is given no replacements. -/
theorem ViewStep.replacedBy_before {before after : QueueView} {facts : List QueueFact}
    (next : ViewStep before facts after) {task child : Nat} (ended : before.Ended task)
    (edge : after.replacedBy task child) : before.replacedBy task child := by
  cases next with
  | replaced replaceable =>
    rcases edge with old | ⟨rfl, _⟩
    · exact old
    · obtain ⟨status, held, isTerminal⟩ := ended
      rw [replaceable.isStarted, Option.some_inj] at held
      exact absurd isTerminal (held ▸ by decide)
  | _ => exact edge

/-- A step gives an achieved goal no task that could hold it back. -/
theorem ViewStep.holds_before {before after : QueueView} {facts : List QueueFact}
    (next : ViewStep before facts after) (achieved : Achieved before) {goal task : Nat}
    {state : GoalState} (held : before.goal goal = some state)
    (isAchieved : state.verdict = some .achieved) (holds : after.Holds goal task) :
    before.Holds goal task := by
  have member : ∀ id, after.goalOf id = some goal → before.goalOf id = some goal := by
    intro id isMember
    cases next with
    | taskAdded fresh fits accepts =>
      have isOpen := accepts goal
      grind
    | taskMoved editable accepts =>
      have isOpen := accepts goal
      grind
    | _ => exact isMember
  rcases holds with isMember | ⟨root, isMember, isReplaced, path⟩
  · exact Or.inl (member task isMember)
  · have rootHolds : before.Holds goal root := Or.inl (member root isMember)
    -- the root ended before, so it was replaced before
    obtain ⟨status, isStatus, isTerminal⟩ := achieved goal state root held isAchieved rootHolds
    have same := next.status_ended isStatus isTerminal
    rw [isReplaced] at same
    have wasReplaced : before.status root = some .replaced := isStatus.trans same.symm
    refine Or.inr ⟨root, member root isMember, wasReplaced, ?_⟩
    induction path with
    | single edge => exact .single (next.replacedBy_before ⟨_, wasReplaced, rfl⟩ edge)
    | tail _ edge inductionHypothesis =>
      have ended := achieved goal state _ held isAchieved
        (Or.inr ⟨root, member root isMember, wasReplaced, inductionHypothesis⟩)
      exact inductionHypothesis.tail (next.replacedBy_before ended edge)

theorem achieved_step {before after : QueueView} {facts : List QueueFact} (rooted : Rooted before)
    (achieved : Achieved before) (next : ViewStep before facts after) : Achieved after := by
  intro goal state task held isAchieved holds
  by_cases already : before.goal goal = some state
  · exact next.ended_kept
      (achieved goal state task already isAchieved (next.holds_before achieved already isAchieved holds))
  · -- the goal was closed just now
    cases next with
    | @goalClosed closing _ verdict _ allowed =>
      have same : goal = closing ∧ verdict = .achieved := by grind
      obtain ⟨rfl, rfl⟩ := same
      obtain ⟨status, isStatus⟩ := Option.ne_none_iff_exists'.mp (rooted.holds holds)
      exact ⟨status, isStatus, allowed task status holds isStatus⟩
    | _ => grind

theorem ViewRun.achieved {facts : List QueueFact} {view : QueueView} (run : ViewRun facts view) :
    Achieved view :=
  run.invariant Achieved nofun fun _ _ _ _ before achieved next =>
    achieved_step before.rooted achieved next

end Dagq.Queue
