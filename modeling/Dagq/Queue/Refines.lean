/-
This file proves that the writes of the queue are steps of its view: whatever a write reads of the
tables left out, its rows change as steps of the view do, one after the other, and it records what
those steps record. So what every run of the view has, the rows have after any writes.
-/

import Dagq.Queue.Waits
import Dagq.Queue.Writes

namespace Dagq.Queue

open Dagq.Lib Dagq.Ledger Dagq.Priorities Relation
open Dagq.Replan (WaitNode)

namespace QueueStore

/-! ### The view of the rows -/

def view (store : QueueStore) : QueueView where
  status id := (store.tasks.get? id).map QueueTask.status
  goalOf id := (store.tasks.get? id).bind QueueTask.goalId
  goal id := (store.goals.get? id).map fun goal => ⟨goal.status, goal.verdict⟩
  depends task predecessor := (task, predecessor) ∈ store.dependencies.items
  dependsOnGoal task goal := (task, goal) ∈ store.goalDependencies.items
  replacedBy task child := (task, child) ∈ store.replacements

@[simp] theorem view_record (clock : Nat → String) (store : QueueStore) (fact : QueueFact) :
    (store.record clock fact).view = store.view := rfl

@[simp] theorem events_record (clock : Nat → String) (store : QueueStore) (fact : QueueFact) :
    (store.record clock fact).events =
      store.events ++ [fact.event (store.events.length + 1) (clock (store.events.length + 1))] := rfl

theorem readTask_ok {store : QueueStore} {id : Nat} {task : QueueTask}
    (read : store.readTask id = .ok task) : store.tasks.get? id = some task ∧ task.id = id := by
  unfold readTask at read
  cases found : store.tasks.get? id with
  | none => simp [found] at read
  | some other =>
    rw [found] at read
    cases read
    exact ⟨rfl, (Keyed.get?_eq_some_iff.mp found).2⟩

theorem readGoal_ok {store : QueueStore} {id : Nat} {goal : QueueGoal}
    (read : store.readGoal id = .ok goal) : store.goals.get? id = some goal ∧ goal.id = id := by
  unfold readGoal at read
  cases found : store.goals.get? id with
  | none => simp [found] at read
  | some other =>
    rw [found] at read
    cases read
    exact ⟨rfl, (Keyed.get?_eq_some_iff.mp found).2⟩

theorem view_setStatus {store : QueueStore} {task : QueueTask}
    (held : store.tasks.get? task.id = some task) (status : TaskStatus) :
    (store.setTaskRow { task with status }).view = store.view.setStatus task.id status := by
  have found := fun id => Keyed.get?_set store.tasks { task with status } id
    (by rw [held]; rfl)
  have sameGoal : ∀ id, (Option.bind (if id = task.id then some { task with status } else
      store.tasks.get? id) QueueTask.goalId) = (store.tasks.get? id).bind QueueTask.goalId := by
    intro id
    by_cases same : id = task.id
    · rw [if_pos same, same, held]
      rfl
    · rw [if_neg same]
  simp only [view, setTaskRow, QueueView.setStatus, found, sameGoal, QueueView.mk.injEq, and_true]
  funext id
  by_cases same : id = task.id <;> simp [same]

theorem view_moveTask {store : QueueStore} {task : QueueTask}
    (held : store.tasks.get? task.id = some task) (goalId : Option Nat) :
    (store.setTaskRow { task with goalId }).view = store.view.moveTask task.id goalId := by
  have found := fun id => Keyed.get?_set store.tasks { task with goalId } id
    (by rw [held]; rfl)
  have sameStatus : ∀ id, (Option.map QueueTask.status (if id = task.id then
      some { task with goalId } else store.tasks.get? id)) =
        (store.tasks.get? id).map QueueTask.status := by
    intro id
    by_cases same : id = task.id
    · rw [if_pos same, same, held]
      rfl
    · rw [if_neg same]
  simp only [view, setTaskRow, QueueView.moveTask, found, sameStatus, QueueView.mk.injEq, and_true,
    true_and]
  funext id
  by_cases same : id = task.id <;> simp [same]

theorem view_setGoal {store : QueueStore} {old : QueueGoal}
    (held : store.goals.get? old.id = some old) (goal : QueueGoal) (same : goal.id = old.id) :
    (store.setGoalRow goal).view = store.view.setGoal old.id ⟨goal.status, goal.verdict⟩ := by
  have found := fun id => Keyed.get?_set store.goals goal id (by rw [same, held]; rfl)
  simp only [view, setGoalRow, QueueView.setGoal, found, QueueView.mk.injEq, and_true, true_and]
  funext id
  by_cases isGoal : id = old.id <;> simp [isGoal, same]

theorem view_addGoal (store : QueueStore) (status : GoalStatus) :
    ({ store with goals := store.goals.add ⟨store.goals.nextKey, status, none, none, rfl⟩ } :
      QueueStore).view = store.view.setGoal store.goals.nextKey ⟨status, none⟩ := by
  have found := fun id => Keyed.get?_add_new store.goals
    ⟨store.goals.nextKey, status, none, none, rfl⟩ id (Keyed.get?_nextKey _)
  simp only [view, QueueView.setGoal, found, QueueView.mk.injEq, and_true, true_and]
  funext id
  by_cases isGoal : id = store.goals.nextKey <;> simp [isGoal]

theorem view_addTask (store : QueueStore) (goal : Option Nat) :
    ({ store with tasks := store.tasks.add ⟨store.tasks.nextKey, .draft, goal⟩ } : QueueStore).view =
      store.view.addTask store.tasks.nextKey goal := by
  have found := fun id => Keyed.get?_add_new store.tasks ⟨store.tasks.nextKey, .draft, goal⟩ id
    (Keyed.get?_nextKey _)
  simp only [view, QueueView.addTask, found, QueueView.mk.injEq, and_true]
  refine ⟨funext fun id => ?_, funext fun id => ?_⟩
  · by_cases isTask : id = store.tasks.nextKey <;> simp [isTask]
  · by_cases isTask : id = store.tasks.nextKey <;> simp [isTask]

theorem view_addDependency (store : QueueStore) (task predecessor : Nat) :
    ({ store with dependencies := store.dependencies.add (task, predecessor) } : QueueStore).view =
      store.view.addDependency task predecessor := by
  simp only [view, QueueView.addDependency, Edges.mem_add, Prod.mk.injEq]

theorem view_removeDependency (store : QueueStore) (task predecessor : Nat) :
    ({ store with dependencies := store.dependencies.keep (· ≠ (task, predecessor)) } :
      QueueStore).view = store.view.removeDependency task predecessor := by
  simp only [view, QueueView.removeDependency, Keyed.mem_keep, decide_eq_true_eq, ne_eq,
    Prod.mk.injEq]

theorem view_addGoalDependency (store : QueueStore) (task goal : Nat) :
    ({ store with goalDependencies := store.goalDependencies.add (task, goal) } :
      QueueStore).view = store.view.addGoalDependency task goal := by
  simp only [view, QueueView.addGoalDependency, Edges.mem_add, Prod.mk.injEq]

theorem view_removeGoalDependency (store : QueueStore) (task goal : Nat) :
    ({ store with goalDependencies := store.goalDependencies.keep (· ≠ (task, goal)) } :
      QueueStore).view = store.view.removeGoalDependency task goal := by
  simp only [view, QueueView.removeGoalDependency, Keyed.mem_keep, decide_eq_true_eq, ne_eq,
    Prod.mk.injEq]

/-! ### The wait graph of the rows -/

/-- The edges of the rows are those of the view, whatever the dependencies. -/
theorem mem_edges {store : QueueStore} {dependencies : List (Nat × Nat)} {first second : Node} :
    (first, second) ∈ taskEdges dependencies ++ store.otherEdges ↔
      ({ store.view with depends := fun task predecessor =>
        (task, predecessor) ∈ dependencies } : QueueView).Waits first second := by
  simp only [otherEdges, taskEdges, List.mem_append, List.mem_map, List.mem_filterMap, Prod.mk.injEq]
  constructor
  · rintro (⟨edge, member, rfl, rfl⟩ | (⟨edge, member, rfl, rfl⟩ | ⟨task, member, isEdge⟩) |
      ⟨edge, member, rfl, rfl⟩)
    · exact .predecessor member
    · exact .goal member
    · have found := Keyed.get?_eq_some_iff.mpr ⟨member, rfl⟩
      split at isEdge
      · cases isEdge
      · rename_i kept
        obtain ⟨goal, isGoal, isPair⟩ := Option.map_eq_some_iff.mp isEdge
        obtain ⟨rfl, rfl⟩ := Prod.mk.injEq .. ▸ isPair
        have isStatus : store.view.status task.id = some task.status := by simp [view, found]
        exact .member isStatus (by simp [view, found, isGoal]) kept
    · exact .replacement member
  · intro edge
    cases edge with
    | @predecessor task predecessor edge => exact Or.inl ⟨(task, predecessor), edge, rfl, rfl⟩
    | @goal task goal edge => exact Or.inr (Or.inl (Or.inl ⟨(task, goal), edge, rfl, rfl⟩))
    | @member id goal status isStatus isMember kept =>
      refine Or.inr (Or.inl (Or.inr ?_))
      obtain ⟨task, found, rfl⟩ := Option.map_eq_some_iff.mp isStatus
      obtain ⟨member, rfl⟩ := Keyed.get?_eq_some_iff.mp found
      have isGoal : task.goalId = some goal := by simpa [view, found] using isMember
      exact ⟨task, member, by rw [if_neg kept, isGoal]; rfl⟩
    | @replacement task child edge => exact Or.inr (Or.inr ⟨(task, child), edge, rfl, rfl⟩)

theorem mem_waitEdges {store : QueueStore} {first second : Node} :
    (first, second) ∈ store.waitEdges ↔ store.view.Waits first second := mem_edges

/-- The search over the rows finds whether one waits for the other in the view. -/
theorem waitsFor_iff {store : QueueStore} {source target : Node} :
    store.waitsFor source target = true ↔ ReflTransGen store.view.Waits source target := by
  have same : leads (tableOf store.waitEdges) = store.view.Waits := by
    funext first second
    rw [leads_tableOf, mem_waitEdges]
  rw [waitsFor, comesTo_stack_iff, same]
  simp

/-- The wait graph of an apply is that of the view without what depends on the task. -/
theorem leads_waitGraph (store : QueueStore) (task : Nat) :
    leads (store.waitGraph task) = (store.view.withoutDependents task).Waits := by
  funext first second
  rw [waitGraph, leads_tableOf, mem_edges]
  have same : ({ store.view with depends := fun task_1 predecessor =>
      (task_1, predecessor) ∈ store.dependencies.items.filter fun edge => edge.2 ≠ task } :
        QueueView) = store.view.withoutDependents task := by
    simp [view, QueueView.withoutDependents]
  rw [same]

end QueueStore

end Dagq.Queue
