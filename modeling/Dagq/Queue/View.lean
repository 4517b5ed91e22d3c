/-
This file says what the queue is for, without its rows: tasks with a status, in a goal or in
none, goals with a verdict once closed, what waits for what, and which tasks stand in for a
task that was replaced. Each step records what it did, and a run is steps one after the other.
-/

import Dagq.Lib.Rewire
import Dagq.Queue.Event
import Dagq.Replan.ClosesLoop

namespace Dagq.Queue

open Dagq.Lib Dagq.Ledger Dagq.Priorities Relation
open Dagq.Replan (WaitNode joined)

/-! ### A view of the queue -/

structure GoalState where
  status : GoalStatus
  verdict : Option GoalVerdict
  deriving DecidableEq, Repr

/-- A goal closed as abandoned needs nothing of its tasks but that none is in progress. -/
def allows (verdict : GoalVerdict) (status : TaskStatus) : Bool :=
  match verdict with
  | .achieved => status.isTerminal
  | .abandoned => status != .inProgress

structure QueueView where
  status : Nat → Option TaskStatus
  goalOf : Nat → Option Nat
  goal : Nat → Option GoalState
  depends : Nat → Nat → Prop
  dependsOnGoal : Nat → Nat → Prop
  /-- The task was replaced, and the other is one of those it was replaced by. -/
  replacedBy : Nat → Nat → Prop

abbrev Node := WaitNode Nat Nat

/-- A task waits for its predecessors, the goals it depends on and the tasks it was replaced by; a
goal waits for its tasks but a canceled one. -/
inductive QueueView.Waits (view : QueueView) : Node → Node → Prop
  | predecessor {task predecessor : Nat} (edge : view.depends task predecessor) :
      Waits view (.task task) (.task predecessor)
  | goal {task goal : Nat} (edge : view.dependsOnGoal task goal) : Waits view (.task task) (.goal goal)
  | member {task goal : Nat} {status : TaskStatus} (isStatus : view.status task = some status)
      (isMember : view.goalOf task = some goal) (goesOn : status ≠ .canceled) :
      Waits view (.goal goal) (.task task)
  | replacement {task child : Nat} (edge : view.replacedBy task child) :
      Waits view (.task task) (.task child)

namespace QueueView

def empty : QueueView where
  status _ := none
  goalOf _ := none
  goal _ := none
  depends _ _ := False
  dependsOnGoal _ _ := False
  replacedBy _ _ := False

/-- A canceled task waits for nothing any more. -/
def Canceled (view : QueueView) : Node → Prop
  | .task task => view.status task = some .canceled
  | .goal _ => False

/-- What waits and was not canceled. -/
def Live (view : QueueView) (first second : Node) : Prop :=
  view.Waits first second ∧ ¬ view.Canceled first

/-- Whether the task may change what it waits for. -/
def Editable (view : QueueView) (task : Nat) : Prop :=
  ∃ status, view.status task = some status ∧ status.dependenciesEditable = true

/-- The task is there and has not ended. -/
def Unended (view : QueueView) (task : Nat) : Prop :=
  ∃ status, view.status task = some status ∧ status.isTerminal = false

/-- The task is there and has ended. -/
def Ended (view : QueueView) (task : Nat) : Prop :=
  ∃ status, view.status task = some status ∧ status.isTerminal = true

/-- Where a goal is named, it is there and not closed. -/
def Accepts (view : QueueView) (goal : Option Nat) : Prop :=
  ∀ id, goal = some id → ∃ status, view.goal id = some ⟨status, none⟩

/-- The task holds its goal back: it is a task of it, or the replacements of one lead to it. -/
def Holds (view : QueueView) (goal task : Nat) : Prop :=
  view.goalOf task = some goal ∨
    ∃ root, view.goalOf root = some goal ∧ view.status root = some .replaced ∧
      TransGen view.replacedBy root task

/-- Whether a task is a candidate as far as tasks and goals go: it is ready in no draft, with its
predecessors completed and the goals it depends on achieved. -/
structure Claimable (view : QueueView) (task : Nat) : Prop where
  ready : view.status task = some .ready
  predecessors : ∀ predecessor status, view.depends task predecessor →
    view.status predecessor = some status → status = .completed
  goals : ∀ goal state, view.dependsOnGoal task goal → view.goal goal = some state →
    state.verdict = some .achieved
  notDraft : ∀ goal state, view.goalOf task = some goal → view.goal goal = some state →
    state.status ≠ .draft

/-! ### Changes -/

@[simps, grind]
def setStatus (view : QueueView) (task : Nat) (status : TaskStatus) : QueueView :=
  { view with status := fun id => if id = task then some status else view.status id }

@[simps, grind]
def setGoal (view : QueueView) (goal : Nat) (state : GoalState) : QueueView :=
  { view with goal := fun id => if id = goal then some state else view.goal id }

@[simps, grind]
def addTask (view : QueueView) (task : Nat) (goal : Option Nat) : QueueView :=
  { view with
    status := fun id => if id = task then some .draft else view.status id
    goalOf := fun id => if id = task then goal else view.goalOf id }

@[simps, grind]
def moveTask (view : QueueView) (task : Nat) (goal : Option Nat) : QueueView :=
  { view with goalOf := fun id => if id = task then goal else view.goalOf id }

@[simps, grind]
def addDependency (view : QueueView) (task predecessor : Nat) : QueueView :=
  { view with
    depends := fun first second =>
      view.depends first second ∨ (first = task ∧ second = predecessor) }

@[simps, grind]
def removeDependency (view : QueueView) (task predecessor : Nat) : QueueView :=
  { view with
    depends := fun first second =>
      view.depends first second ∧ ¬ (first = task ∧ second = predecessor) }

@[simps, grind]
def addGoalDependency (view : QueueView) (task goal : Nat) : QueueView :=
  { view with
    dependsOnGoal := fun first second =>
      view.dependsOnGoal first second ∨ (first = task ∧ second = goal) }

@[simps, grind]
def removeGoalDependency (view : QueueView) (task goal : Nat) : QueueView :=
  { view with
    dependsOnGoal := fun first second =>
      view.dependsOnGoal first second ∧ ¬ (first = task ∧ second = goal) }

/-- The wait graph an apply is checked on: nothing depends on the task any more. -/
@[simps, grind]
def withoutDependents (view : QueueView) (task : Nat) : QueueView :=
  { view with depends := fun first second => view.depends first second ∧ second ≠ task }

/-- The children stand in for the task: the successors wait for those named for them. -/
@[simps, grind]
def replace (view : QueueView) (task : Nat) (children : List Nat)
    (successors : List (Nat × List Nat)) : QueueView :=
  { view with
    status := fun id =>
      if id = task then some .replaced else if id ∈ children then some .ready else view.status id
    depends := fun first second =>
      (view.depends first second ∧ ¬ (first ∈ successors.map Prod.fst ∧ second = task)) ∨
        ∃ successor ∈ successors, successor.1 = first ∧ second ∈ successor.2
    replacedBy := fun first second =>
      view.replacedBy first second ∨ (first = task ∧ second ∈ children) }

end QueueView

/-- What an apply was checked for. -/
structure Replaceable (view : QueueView) (task : Nat) (children : List Nat)
    (successors : List (Nat × List Nat)) : Prop where
  isStarted : view.status task = some .inProgress
  nonempty : children ≠ []
  distinct : children.Nodup
  pending : ∀ child ∈ children, view.status child = some .submitted
  isSuccessor : ∀ id, id ∈ successors.map Prod.fst ↔ view.depends id task ∧ view.Unended id
  unstarted : ∀ id ∈ successors.map Prod.fst, view.Editable id
  needs : ∀ successor ∈ successors, ∀ need ∈ successor.2, need ∈ children
  /-- No source of an edge of the apply would wait for itself. -/
  unclosed : ∀ edge ∈ successors ++ [(task, children)],
    ¬ TransGen (fun first second => (view.withoutDependents task).Waits first second ∨
      joined (successors ++ [(task, children)]) first second) (.task edge.1) (.task edge.1)

/-- What an apply records: the task replaced, each child ready, and the whole. -/
def replacedFacts (task : Nat) (children : List Nat) (successors : List (Nat × List Nat)) :
    List QueueFact :=
  .taskStatusChanged task .inProgress .replaced ::
    (children.map fun child => .taskStatusChanged child .submitted .ready) ++
      [.replanApplied task children successors]

open QueueView in
/-- One step of the queue and what it records. -/
inductive ViewStep : QueueView → List QueueFact → QueueView → Prop
  | noted {view : QueueView} (task goal : Option Nat) (name : String) :
      ViewStep view [.other task goal name] view
  | goalAdded {view : QueueView} {goal : Nat} {status : GoalStatus} (fresh : view.goal goal = none)
      (fits : (goal : Int) ≤ i64Max) :
      ViewStep view [.goalCreated goal status] (view.setGoal goal ⟨status, none⟩)
  | goalOpened {view : QueueView} {goal : Nat} (held : view.goal goal = some ⟨.draft, none⟩) :
      ViewStep view [.goalStatusChanged goal .draft .open_] (view.setGoal goal ⟨.open_, none⟩)
  | goalClosed {view : QueueView} {goal : Nat} {status : GoalStatus} {verdict : GoalVerdict}
      (held : view.goal goal = some ⟨status, none⟩)
      (allowed : ∀ task taskStatus, view.Holds goal task → view.status task = some taskStatus →
        allows verdict taskStatus = true) :
      ViewStep view [.goalClosed goal verdict] (view.setGoal goal ⟨status, some verdict⟩)
  | goalReopened {view : QueueView} {goal : Nat} {status : GoalStatus}
      (held : view.goal goal = some ⟨status, some .achieved⟩) :
      ViewStep view [.goalReopened goal] (view.setGoal goal ⟨.open_, none⟩)
  | taskAdded {view : QueueView} {task : Nat} {goal : Option Nat} (fresh : view.status task = none)
      (fits : (task : Int) ≤ i64Max) (accepts : view.Accepts goal) :
      ViewStep view [.taskCreated task goal .draft] (view.addTask task goal)
  | dependencyAdded {view : QueueView} {task predecessor : Nat} {status : TaskStatus}
      (editable : view.Editable task) (isStatus : view.status predecessor = some status)
      (kept : status ≠ .replaced)
      (unclosed : ¬ ReflTransGen view.Waits (.task predecessor) (.task task)) :
      ViewStep view [.dependencyAdded task predecessor] (view.addDependency task predecessor)
  | dependencyRemoved {view : QueueView} {task predecessor : Nat} (editable : view.Editable task)
      (held : view.depends task predecessor) :
      ViewStep view [.dependencyRemoved task predecessor] (view.removeDependency task predecessor)
  | goalDependencyAdded {view : QueueView} {task goal : Nat} {state : GoalState}
      (editable : view.Editable task) (held : view.goal goal = some state)
      (unclosed : ¬ ReflTransGen view.Waits (.goal goal) (.task task)) :
      ViewStep view [.goalDependencyAdded task goal] (view.addGoalDependency task goal)
  | goalDependencyRemoved {view : QueueView} {task goal : Nat} (editable : view.Editable task)
      (held : view.dependsOnGoal task goal) :
      ViewStep view [.goalDependencyRemoved task goal] (view.removeGoalDependency task goal)
  | taskMoved {view : QueueView} {task : Nat} {goal : Option Nat} (editable : view.Editable task)
      (accepts : view.Accepts goal)
      (unclosed : ∀ id, goal = some id → ¬ ReflTransGen view.Waits (.task task) (.goal id)) :
      ViewStep view [.taskGoalChanged task (view.goalOf task) goal] (view.moveTask task goal)
  | statusChanged {view : QueueView} {task : Nat} {before after : TaskStatus} {action : TaskAction}
      {unfinishedRun : Bool} (held : view.status task = some before)
      (moves : before.transition action unfinishedRun = .ok after) :
      ViewStep view [.taskStatusChanged task before after] (view.setStatus task after)
  | claimed {view : QueueView} {task : Nat} {readyAt : Option String}
      (claimable : view.Claimable task) :
      ViewStep view [.runClaimed task readyAt] (view.setStatus task .inProgress)
  | completed {view : QueueView} {task : Nat} (held : view.status task = some .inProgress) :
      ViewStep view [.taskStatusChanged task .inProgress .completed] (view.setStatus task .completed)
  | replaced {view : QueueView} {task : Nat} {children : List Nat}
      {successors : List (Nat × List Nat)}
      (replaceable : Replaceable view task children successors) :
      ViewStep view (replacedFacts task children successors) (view.replace task children successors)

/-- Steps one after the other, with all that they recorded. -/
inductive ViewSteps (start : QueueView) : List QueueFact → QueueView → Prop
  | refl : ViewSteps start [] start
  | step {facts new : List QueueFact} {before after : QueueView}
      (steps : ViewSteps start facts before) (next : ViewStep before new after) :
      ViewSteps start (facts ++ new) after

theorem ViewSteps.trans {start middle view : QueueView} {facts more : List QueueFact}
    (first : ViewSteps start facts middle) (second : ViewSteps middle more view) :
    ViewSteps start (facts ++ more) view := by
  induction second with
  | refl => rwa [List.append_nil]
  | step _ next inductionHypothesis =>
    rw [← List.append_assoc]
    exact inductionHypothesis.step next

/-- What steps from an empty queue lead to. -/
abbrev ViewRun (facts : List QueueFact) (view : QueueView) : Prop := ViewSteps .empty facts view

/-- What an empty queue has and each step of a run keeps, every run has at its end. -/
theorem ViewRun.invariant {facts : List QueueFact} {view : QueueView} (run : ViewRun facts view)
    (property : QueueView → Prop) (initial : property .empty)
    (preserved : ∀ facts before new after, ViewRun facts before → property before →
      ViewStep before new after → property after) : property view := by
  induction run with
  | refl => exact initial
  | step before next inductionHypothesis =>
    exact preserved _ _ _ _ before inductionHypothesis next

end Dagq.Queue
