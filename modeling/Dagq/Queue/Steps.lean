/-
This file reads each write of the queue that went through as steps of its view with what they
record: an apply as one step, and a task registered with what it waits for as several.
-/

import Dagq.Queue.Refines

namespace Dagq.Queue

open Dagq.Lib Dagq.Ledger Dagq.Priorities Relation
open Dagq.Replan (WaitNode)

namespace QueueStore

/-! ### What a write does -/

/-- The rows changed as these steps of the view do, and the events recorded are theirs. -/
structure Written (clock : Nat → String) (before : QueueStore) (facts : List QueueFact)
    (after : QueueStore) : Prop where
  steps : ViewSteps before.view facts after.view
  events : after.events = recordAll clock before.events facts

variable {clock : Nat → String} {reads : QueueReads}

theorem Written.refl (store : QueueStore) : Written clock store [] store := ⟨.refl, rfl⟩

theorem Written.trans {first second third : QueueStore} {facts more : List QueueFact}
    (before : Written clock first facts second) (after : Written clock second more third) :
    Written clock first (facts ++ more) third where
  steps := before.steps.trans after.steps
  events := by rw [after.events, before.events, recordAll_append]

/-- One step, recorded. -/
theorem written_record {before changed : QueueStore} {fact : QueueFact}
    (next : ViewStep before.view [fact] changed.view) (same : changed.events = before.events) :
    Written clock before [fact] (changed.record clock fact) where
  steps := ViewSteps.refl.step next
  events := by rw [events_record, same]; rfl

theorem written_setGoal {store : QueueStore} {old goal : QueueGoal} {fact : QueueFact}
    (found : store.goals.get? old.id = some old) (same : goal.id = old.id)
    (next : ViewStep store.view [fact] (store.view.setGoal old.id ⟨goal.status, goal.verdict⟩)) :
    Written clock store [fact] ((store.setGoalRow goal).record clock fact) :=
  written_record (by rwa [view_setGoal found goal same]) rfl

/-! ### Goals -/

theorem addGoal_ok {store after : QueueStore} {draft : Bool}
    (written : store.addGoal clock draft = .ok after) : ∃ facts, Written clock store facts after := by
  obtain ⟨_, fits, rest⟩ := bind_ok written
  cases rest
  refine ⟨_, written_record ?_ rfl⟩
  rw [view_addGoal]
  refine .goalAdded ?_ (of_decide_eq_true (require_ok fits))
  simp only [view, Keyed.get?_nextKey, Option.map_none]

theorem isClosed_eq_false {goal : QueueGoal} {error : QueueError} {checked : Unit}
    (passed : require (!goal.isClosed) error = .ok checked) : goal.verdict = none := by
  have isOpen := require_ok passed
  rw [goal.isClosed_eq] at isOpen
  simpa using isOpen

theorem readyGoal_ok {store after : QueueStore} {id : Nat}
    (written : store.readyGoal clock id = .ok after) : ∃ facts, Written clock store facts after := by
  obtain ⟨goal, read, rest⟩ := bind_ok written
  obtain ⟨_, notClosed, rest⟩ := bind_ok rest
  obtain ⟨_, isDraft, rest⟩ := bind_ok rest
  cases rest
  obtain ⟨found, rfl⟩ := readGoal_ok read
  have wasDraft : goal.status = .draft := beq_iff_eq.mp (require_ok isDraft)
  have noVerdict := isClosed_eq_false notClosed
  refine ⟨_, written_setGoal found rfl ?_⟩
  simp only [noVerdict, wasDraft]
  exact .goalOpened (by simp [view, found, wasDraft, noVerdict])

theorem reopenGoal_ok {store after : QueueStore} {id : Nat}
    (written : store.reopenGoal clock id = .ok after) : ∃ facts, Written clock store facts after := by
  obtain ⟨goal, read, rest⟩ := bind_ok written
  obtain ⟨_, isAchieved, rest⟩ := bind_ok rest
  cases rest
  obtain ⟨found, rfl⟩ := readGoal_ok read
  have wasAchieved : goal.verdict = some .achieved := beq_iff_eq.mp (require_ok isAchieved)
  refine ⟨_, written_setGoal found rfl ?_⟩
  have held : store.view.goal goal.id = some ⟨goal.status, some .achieved⟩ := by
    simp [view, found, wasAchieved]
  exact .goalReopened held

/-! ### What holds a goal back -/

theorem mem_replacedTasks {store : QueueStore} {goal id : Nat} :
    id ∈ store.replacedTasks goal ↔
      store.view.goalOf id = some goal ∧ store.view.status id = some .replaced := by
  simp only [replacedTasks, List.mem_insertionSort, List.mem_map, List.mem_filter,
    decide_eq_true_eq, view, Option.bind_eq_some_iff, Option.map_eq_some_iff]
  constructor
  · rintro ⟨task, ⟨member, isMember, isReplaced⟩, rfl⟩
    have found := Keyed.get?_eq_some_iff.mpr ⟨member, rfl⟩
    exact ⟨⟨task, found, isMember⟩, task, found, isReplaced⟩
  · rintro ⟨⟨task, found, isMember⟩, other, again, isReplaced⟩
    rw [found] at again
    cases again
    obtain ⟨member, named⟩ := Keyed.get?_eq_some_iff.mp found
    exact ⟨task, ⟨member, isMember, isReplaced⟩, named⟩

theorem leads_replacements (store : QueueStore) :
    leads (tableOf store.replacements) = store.view.replacedBy := by
  funext first second
  rw [leads_tableOf]
  rfl

theorem mem_replacementTasks {store : QueueStore} {from_ : List Nat} {task : QueueTask} :
    task ∈ store.replacementTasks from_ ↔
      task ∈ store.tasks.items ∧ ∃ root ∈ from_, TransGen store.view.replacedBy root task.id := by
  simp only [replacementTasks, List.mem_insertionSort, List.mem_filter, List.any_eq_true,
    comesTo_stack_iff, leads_replacements]
  refine and_congr_right fun _ => exists_congr fun root => and_congr_right fun _ => ?_
  rw [TransGen.head'_iff]
  refine exists_congr fun child => and_congr_left fun _ => ?_
  simp [replacementsOf, view]

/-- What holds the goal back in the view has a row that is counted. -/
theorem holding_pos {store : QueueStore} {goal id : Nat} {status : TaskStatus}
    (holds : store.view.Holds goal id) (isStatus : store.view.status id = some status) :
    0 < store.holding goal status := by
  obtain ⟨task, found, rfl⟩ := Option.map_eq_some_iff.mp isStatus
  obtain ⟨member, rfl⟩ := Keyed.get?_eq_some_iff.mp found
  by_cases isMember : task.goalId = some goal
  · refine Nat.add_pos_left (List.countP_pos_iff.mpr ⟨task, member, ?_⟩) _
    simp [isMember]
  · refine Nat.add_pos_right _ (List.countP_pos_iff.mpr ⟨task, ?_, by simp⟩)
    rcases holds with ofGoal | ⟨root, rootMember, isReplaced, path⟩
    · exact absurd (by simpa [view, found] using ofGoal) isMember
    · refine List.mem_filter.mpr ⟨mem_replacementTasks.mpr ⟨member, root, ?_, path⟩, ?_⟩
      · exact mem_replacedTasks.mpr ⟨rootMember, isReplaced⟩
      · exact decide_eq_true isMember

theorem allows_of_blocking {store : QueueStore} {goal : Nat} {verdict : GoalVerdict}
    (unblocked : store.blocking goal verdict = []) {id : Nat} {status : TaskStatus}
    (holds : store.view.Holds goal id) (isStatus : store.view.status id = some status) :
    allows verdict status = true := by
  by_contra notAllowed
  have listed : status ∈ [TaskStatus.draft, .submitted, .ready, .inProgress] := by
    cases verdict <;> cases status <;> simp_all [allows, TaskStatus.isTerminal]
  have isBlocking : (status, store.holding goal status) ∈ store.blocking goal verdict := by
    refine List.mem_filter.mpr ⟨List.mem_map_of_mem listed, ?_⟩
    simpa [holding_pos holds isStatus] using notAllowed
  rw [unblocked] at isBlocking
  cases isBlocking

theorem closeGoal_ok {store after : QueueStore} {id : Nat} {verdict : GoalVerdict}
    (written : store.closeGoal clock reads id verdict = .ok after) :
    ∃ facts, Written clock store facts after := by
  obtain ⟨goal, read, rest⟩ := bind_ok written
  obtain ⟨_, notClosed, rest⟩ := bind_ok rest
  obtain ⟨_, unblocked, rest⟩ := bind_ok rest
  obtain ⟨_, _, rest⟩ := bind_ok rest
  obtain ⟨_, _, rest⟩ := bind_ok rest
  cases rest
  obtain ⟨found, rfl⟩ := readGoal_ok read
  have noVerdict := isClosed_eq_false notClosed
  refine ⟨_, written_setGoal found rfl ?_⟩
  refine .goalClosed (by simp [view, found, noVerdict]) fun task status holds isStatus => ?_
  exact allows_of_blocking (List.isEmpty_iff.mp (require_ok unblocked)) holds isStatus

/-! ### Dependencies -/

theorem editable_of_check {store : QueueStore} {task : QueueTask} {what : String} {checked : Unit}
    (found : store.tasks.get? task.id = some task) (passed : checkEditable task what = .ok checked) :
    store.view.Editable task.id :=
  ⟨task.status, by simp [view, found], require_ok passed⟩

theorem not_waitsFor {store : QueueStore} {source target : Node} {error : QueueError} {checked : Unit}
    (passed : require (!store.waitsFor source target) error = .ok checked) :
    ¬ ReflTransGen store.view.Waits source target := by
  have misses := require_ok passed
  intro path
  rw [waitsFor_iff.mpr path] at misses
  cases misses

theorem insertDependency_ok {store after : QueueStore} {taskId predecessor : Nat}
    (written : store.insertDependency clock reads taskId predecessor = .ok after) :
    ∃ facts, Written clock store facts after := by
  obtain ⟨_, _, rest⟩ := bind_ok written
  obtain ⟨_, _, rest⟩ := bind_ok rest
  obtain ⟨_, _, rest⟩ := bind_ok rest
  obtain ⟨task, read, rest⟩ := bind_ok rest
  obtain ⟨_, editable, rest⟩ := bind_ok rest
  obtain ⟨waitedFor, readOther, rest⟩ := bind_ok rest
  obtain ⟨_, kept, rest⟩ := bind_ok rest
  obtain ⟨_, unclosed, rest⟩ := bind_ok rest
  obtain ⟨found, rfl⟩ := readTask_ok read
  obtain ⟨foundOther, rfl⟩ := readTask_ok readOther
  split at rest
  · cases rest
    exact ⟨[], .refl _⟩
  · cases rest
    refine ⟨_, written_record ?_ rfl⟩
    rw [view_addDependency]
    have isStatus : store.view.status waitedFor.id = some waitedFor.status := by
      simp [view, foundOther]
    exact .dependencyAdded (editable_of_check found editable) isStatus
      (by simpa using require_ok kept) (not_waitsFor unclosed)

theorem removeDependency_ok {store after : QueueStore} {taskId predecessor : Nat}
    (written : store.removeDependency clock reads taskId predecessor = .ok after) :
    ∃ facts, Written clock store facts after := by
  obtain ⟨_, _, rest⟩ := bind_ok written
  obtain ⟨_, _, rest⟩ := bind_ok rest
  obtain ⟨task, read, rest⟩ := bind_ok rest
  obtain ⟨_, editable, rest⟩ := bind_ok rest
  obtain ⟨_, held, rest⟩ := bind_ok rest
  cases rest
  obtain ⟨found, rfl⟩ := readTask_ok read
  refine ⟨_, written_record ?_ rfl⟩
  rw [view_removeDependency]
  have isHeld : (task.id, predecessor) ∈ store.dependencies.items :=
    of_decide_eq_true (require_ok held)
  exact .dependencyRemoved (editable_of_check found editable) isHeld

theorem insertGoalDependency_ok {store after : QueueStore} {taskId goalId : Nat}
    (written : store.insertGoalDependency clock taskId goalId = .ok after) :
    ∃ facts, Written clock store facts after := by
  obtain ⟨task, read, rest⟩ := bind_ok written
  obtain ⟨_, editable, rest⟩ := bind_ok rest
  obtain ⟨goal, readGoal, rest⟩ := bind_ok rest
  obtain ⟨_, _, rest⟩ := bind_ok rest
  obtain ⟨_, _, rest⟩ := bind_ok rest
  obtain ⟨_, unclosed, rest⟩ := bind_ok rest
  obtain ⟨found, rfl⟩ := readTask_ok read
  obtain ⟨foundGoal, rfl⟩ := readGoal_ok readGoal
  split at rest
  · cases rest
    exact ⟨[], .refl _⟩
  · cases rest
    refine ⟨_, written_record ?_ rfl⟩
    rw [view_addGoalDependency]
    have held : store.view.goal goal.id = some ⟨goal.status, goal.verdict⟩ := by
      simp [view, foundGoal]
    exact .goalDependencyAdded (editable_of_check found editable) held (not_waitsFor unclosed)

theorem removeGoalDependency_ok {store after : QueueStore} {taskId goalId : Nat}
    (written : store.removeGoalDependency clock reads taskId goalId = .ok after) :
    ∃ facts, Written clock store facts after := by
  obtain ⟨_, _, rest⟩ := bind_ok written
  obtain ⟨task, read, rest⟩ := bind_ok rest
  obtain ⟨_, editable, rest⟩ := bind_ok rest
  obtain ⟨_, held, rest⟩ := bind_ok rest
  cases rest
  obtain ⟨found, rfl⟩ := readTask_ok read
  refine ⟨_, written_record ?_ rfl⟩
  rw [view_removeGoalDependency]
  have isHeld : (task.id, goalId) ∈ store.goalDependencies.items :=
    of_decide_eq_true (require_ok held)
  exact .goalDependencyRemoved (editable_of_check found editable) isHeld

/-! ### Tasks -/

theorem accepts_of_check {store : QueueStore} {goal : Option Nat} {checked : Unit}
    (passed : store.checkAccepts goal = .ok checked) : store.view.Accepts goal := by
  rintro id rfl
  obtain ⟨row, read, notClosed⟩ := bind_ok passed
  obtain ⟨found, rfl⟩ := readGoal_ok read
  exact ⟨row.status, by simp [view, found, isClosed_eq_false notClosed]⟩

/-- What each write of a list does, they do together. -/
theorem foldlM_written {Item : Type} {items : List Item}
    {write : QueueStore → Item → Except QueueError QueueStore}
    (each : ∀ store item after, write store item = .ok after →
      ∃ facts, Written clock store facts after) {store after : QueueStore}
    (written : items.foldlM write store = .ok after) : ∃ facts, Written clock store facts after := by
  induction items generalizing store with
  | nil =>
    cases written
    exact ⟨[], .refl _⟩
  | cons item rest inductionHypothesis =>
    rw [List.foldlM_cons] at written
    obtain ⟨next, first, later⟩ := bind_ok written
    obtain ⟨facts, writtenFirst⟩ := each _ _ _ first
    obtain ⟨more, writtenLater⟩ := inductionHypothesis later
    exact ⟨facts ++ more, writtenFirst.trans writtenLater⟩

theorem insertTask_ok {store after : QueueStore} {goal : Option Nat}
    {dependencies goalDependencies : List Nat}
    (written : store.insertTask clock reads goal dependencies goalDependencies = .ok after) :
    ∃ facts, Written clock store facts after := by
  obtain ⟨_, accepts, rest⟩ := bind_ok written
  obtain ⟨_, fits, rest⟩ := bind_ok rest
  obtain ⟨dependent, dependencies, rest⟩ := bind_ok rest
  have added : Written clock store [.taskCreated store.tasks.nextKey goal .draft]
      ({ store with tasks := store.tasks.add ⟨store.tasks.nextKey, .draft, goal⟩ }.record clock
        (.taskCreated store.tasks.nextKey goal .draft)) := by
    refine written_record ?_ rfl
    rw [view_addTask]
    exact .taskAdded (by simp only [view, Keyed.get?_nextKey, Option.map_none])
      (of_decide_eq_true (require_ok fits)) (accepts_of_check accepts)
  obtain ⟨facts, writtenDependencies⟩ :=
    foldlM_written (fun _ _ _ => insertDependency_ok) dependencies
  obtain ⟨more, writtenGoals⟩ := foldlM_written (fun _ _ _ => insertGoalDependency_ok) rest
  exact ⟨_, (added.trans writtenDependencies).trans writtenGoals⟩

theorem setGoal_ok {store after : QueueStore} {taskId : Nat} {goal : Option Nat}
    (written : store.setGoal clock reads taskId goal = .ok after) :
    ∃ facts, Written clock store facts after := by
  obtain ⟨_, _, rest⟩ := bind_ok written
  obtain ⟨task, read, rest⟩ := bind_ok rest
  obtain ⟨_, editable, rest⟩ := bind_ok rest
  obtain ⟨_, accepts, rest⟩ := bind_ok rest
  obtain ⟨found, rfl⟩ := readTask_ok read
  split at rest
  · cases rest
    exact ⟨[], .refl _⟩
  · obtain ⟨_, acyclic, rest⟩ := bind_ok rest
    cases rest
    refine ⟨_, written_record ?_ rfl⟩
    rw [view_moveTask found]
    have from_ : store.view.goalOf task.id = task.goalId := by simp [view, found]
    rw [← from_]
    refine .taskMoved (editable_of_check found editable) (accepts_of_check accepts) ?_
    rintro id rfl
    obtain ⟨_, _, unclosed⟩ := bind_ok acyclic
    exact not_waitsFor unclosed

theorem moveStatus_ok {task : QueueTask} {action : TaskAction} {status : TaskStatus}
    (moved : moveStatus reads task action = .ok status) :
    task.status.transition action (reads.unfinishedRun task.id) = .ok status := by
  unfold moveStatus at moved
  cases result : task.status.transition action (reads.unfinishedRun task.id) with
  | error error => simp [result, Except.mapError] at moved
  | ok other =>
    rw [result] at moved
    exact congrArg _ (Except.ok.inj moved)

/-- A status moved is recorded, and a bypassed review beside it. -/
theorem applyTransition_ok {store after : QueueStore} {taskId : Nat} {action : TaskAction}
    (written : store.applyTransition clock reads taskId action = .ok after) :
    ∃ task status, store.tasks.get? taskId = some task ∧ task.id = taskId ∧
      task.status.transition action (reads.unfinishedRun task.id) = .ok status ∧
      (after = (store.setTaskRow { task with status }).record clock
          (.taskStatusChanged taskId task.status status) ∨
        action = .bypassReview ∧ after = ((store.setTaskRow { task with status }).record clock
          (.taskStatusChanged taskId task.status status)).record clock
            (.other (some taskId) none "review_bypassed")) := by
  obtain ⟨_, _, rest⟩ := bind_ok written
  obtain ⟨_, _, rest⟩ := bind_ok rest
  obtain ⟨task, read, rest⟩ := bind_ok rest
  obtain ⟨_, _, rest⟩ := bind_ok rest
  obtain ⟨status, moved, rest⟩ := bind_ok rest
  obtain ⟨found, named⟩ := readTask_ok read
  refine ⟨task, status, found, named, moveStatus_ok moved, ?_⟩
  split at rest
  · rename_i bypasses
    cases rest
    exact Or.inr ⟨bypasses, rfl⟩
  · cases rest
    exact Or.inl rfl

theorem written_transition {store after : QueueStore} {taskId : Nat} {action : TaskAction}
    (written : store.applyTransition clock reads taskId action = .ok after) :
    ∃ facts, Written clock store facts after := by
  obtain ⟨task, status, found, rfl, moves, result⟩ := applyTransition_ok written
  have moved : Written clock store [.taskStatusChanged task.id task.status status]
      ((store.setTaskRow { task with status }).record clock
        (.taskStatusChanged task.id task.status status)) := by
    refine written_record ?_ rfl
    rw [view_setStatus found]
    exact .statusChanged (by simp [view, found]) moves
  rcases result with rfl | ⟨_, rfl⟩
  · exact ⟨_, moved⟩
  · exact ⟨_, moved.trans (written_record (.noted _ _ _) rfl)⟩

/-! ### Runs -/

/-- What a search of the candidates by number finds is one of them. -/
theorem mem_of_findSome? {ready : List QueueTask} {ids : List Nat} {suits : Nat → QueueTask → Bool}
    {task : QueueTask} (found : ids.findSome? (fun id => ready.find? (suits id)) = some task) :
    task ∈ ready := by
  obtain ⟨_, _, isFirst⟩ := List.exists_of_findSome?_eq_some found
  exact List.mem_of_find?_eq_some isFirst

theorem mem_of_chosen {ready : List QueueTask} {task : QueueTask}
    (taken : chosen reads ready = some task) : task ∈ ready := by
  dsimp only [chosen] at taken
  cases asked : reads.order.findSome? fun id => ready.find? (·.id == id) with
  | some other =>
    rw [asked] at taken
    cases taken
    exact mem_of_findSome? asked
  | none =>
    rw [asked] at taken
    cases ordered : reads.claimOrder.findSome? fun id =>
        ready.find? fun task => task.id == id && !reads.waitsForBuild task.id with
    | some other =>
      rw [ordered] at taken
      cases taken
      exact mem_of_findSome? ordered
    | none =>
      rw [ordered] at taken
      exact List.mem_of_find?_eq_some taken

/-- The conditions read of the rows are those of the view. -/
theorem conditionsMet_iff {store : QueueStore} {task : QueueTask}
    (found : store.tasks.get? task.id = some task) :
    store.conditionsMet task = true ↔ store.view.Claimable task.id := by
  simp only [conditionsMet, Bool.and_eq_true, beq_iff_eq, List.all_eq_true, Bool.or_eq_true,
    bne_iff_ne]
  constructor
  · rintro ⟨⟨⟨isReady, notDraft⟩, predecessors⟩, goals⟩
    refine ⟨by simp [view, found, isReady], ?_, ?_, ?_⟩
    · intro predecessor status edge isStatus
      obtain ⟨row, isRow, rfl⟩ := Option.map_eq_some_iff.mp isStatus
      have completed := (predecessors _ edge).resolve_left (by simp)
      simpa [isRow] using completed
    · intro goal state edge isState
      obtain ⟨row, isRow, rfl⟩ := Option.map_eq_some_iff.mp isState
      have achieved := (goals _ edge).resolve_left (by simp)
      simp only [isRow, Option.all_some, Bool.and_eq_true, beq_iff_eq] at achieved
      exact achieved.2
    · intro goal state isMember isState
      obtain ⟨row, isRow, rfl⟩ := Option.map_eq_some_iff.mp isState
      have isGoal : task.goalId = some goal := by simpa [view, found] using isMember
      simpa [isGoal, isRow] using notDraft
  · rintro ⟨isReady, predecessors, goals, notDraft⟩
    refine ⟨⟨⟨by simpa [view, found] using isReady, ?_⟩, ?_⟩, ?_⟩
    · cases isGoal : task.goalId.bind store.goals.get? with
      | none => rfl
      | some row =>
        obtain ⟨goal, isMember, isRow⟩ := Option.bind_eq_some_iff.mp isGoal
        have kept := notDraft goal ⟨row.status, row.verdict⟩ (by simp [view, found, isMember])
          (by simp [view, isRow])
        simpa using kept
    · rintro ⟨first, second⟩ member
      by_cases same : first = task.id
      · subst same
        refine Or.inr ?_
        cases isRow : store.tasks.get? second with
        | none => rfl
        | some row =>
          have completed := predecessors second row.status member (by simp [view, isRow])
          simpa using completed
      · exact Or.inl same
    · rintro ⟨first, second⟩ member
      by_cases same : first = task.id
      · subst same
        refine Or.inr ?_
        cases isRow : store.goals.get? second with
        | none => rfl
        | some row =>
          have achieved := goals second ⟨row.status, row.verdict⟩ member (by simp [view, isRow])
          have isVerdict : row.verdict = some .achieved := achieved
          simp [row.isClosed_eq, isVerdict]
      · exact Or.inl same

theorem claim_ok {store after : QueueStore} (written : store.claim clock reads = .ok after) :
    ∃ facts, Written clock store facts after := by
  unfold claim at written
  split at written
  · cases written
  · rename_i task taken
    obtain ⟨_, _, rest⟩ := bind_ok written
    cases rest
    have isReady := (List.mem_filter.mp (mem_of_chosen taken)).1
    rw [readyTasks, List.mem_insertionSort, List.mem_filter] at isReady
    obtain ⟨member, conditions⟩ := isReady
    simp only [Bool.and_eq_true] at conditions
    have found := Keyed.get?_eq_some_iff.mpr ⟨member, rfl⟩
    refine ⟨_, written_record ?_ rfl⟩
    rw [view_setStatus found]
    exact .claimed ((conditionsMet_iff found).mp conditions.1.1.1)

theorem endTask_ok {store after : QueueStore} {taskId : Nat} {status : TaskStatus}
    (written : store.endTask clock taskId status = .ok after) :
    ∃ task, store.tasks.get? taskId = some task ∧ task.id = taskId ∧ task.status = .inProgress ∧
      after = (store.setTaskRow { task with status }).record clock
        (.taskStatusChanged taskId .inProgress status) := by
  obtain ⟨task, read, rest⟩ := bind_ok written
  obtain ⟨_, isStarted, rest⟩ := bind_ok rest
  obtain ⟨found, named⟩ := readTask_ok read
  cases rest
  exact ⟨task, found, named, beq_iff_eq.mp (require_ok isStarted), rfl⟩

theorem completeTask_ok {store after : QueueStore} {taskId : Nat}
    (written : store.completeTask clock taskId = .ok after) :
    ∃ facts, Written clock store facts after := by
  obtain ⟨task, found, rfl, isStarted, rfl⟩ := endTask_ok written
  refine ⟨_, written_record ?_ rfl⟩
  rw [view_setStatus found]
  exact .completed (by simp [view, found, isStarted])

end QueueStore

end Dagq.Queue
