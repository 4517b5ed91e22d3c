/-
This file says what the rows of the queue have after any writes, whatever the tables left out say
at each of them. What goes on never waits for itself, so one task waits for no other that goes on;
a task is started on completed predecessors only; an achieved goal has nothing left to end, and
what its replaced tasks were replaced by can always be followed; and what has ended stays as it is.
-/

import Dagq.Queue.Applied
import Dagq.Replan.Replaced
import Dagq.Replan.Resolved

namespace Dagq.Queue

open Dagq.Lib Dagq.Ledger Dagq.Priorities Relation
open Dagq.Replan (WaitNode ReachedFrom Resolved unresolvedReplacements RootsWalked
  rootsWalked_of_enough resolved_iff_of_replaced ReplacementPlan oneChild oneItem closesLoop joinEdges
  addNeeds dependsOn checkDependencies waitsForItself applyProblems operationProblems
  revisionProblems taskProblems childProblems versionProblems successorProblems)

namespace QueueStore

variable {clock : Nat → String} {reads : QueueReads}

/-! ### Rows and their view -/

theorem status_of_mem {store : QueueStore} {task : QueueTask} (member : task ∈ store.tasks.items) :
    store.view.status task.id = some task.status := by
  simp [view, Keyed.get?_eq_some_iff.mpr ⟨member, rfl⟩]

theorem goalOf_of_mem {store : QueueStore} {task : QueueTask} (member : task ∈ store.tasks.items) :
    store.view.goalOf task.id = task.goalId := by
  simp [view, Keyed.get?_eq_some_iff.mpr ⟨member, rfl⟩]

theorem goal_of_mem {store : QueueStore} {goal : QueueGoal} (member : goal ∈ store.goals.items) :
    store.view.goal goal.id = some ⟨goal.status, goal.verdict⟩ := by
  simp [view, Keyed.get?_eq_some_iff.mpr ⟨member, rfl⟩]

theorem mem_of_status {store : QueueStore} {id : Nat} {status : TaskStatus}
    (isStatus : store.view.status id = some status) :
    ∃ task ∈ store.tasks.items, task.id = id ∧ task.status = status := by
  obtain ⟨task, found, isTask⟩ := Option.map_eq_some_iff.mp isStatus
  obtain ⟨member, named⟩ := Keyed.get?_eq_some_iff.mp found
  exact ⟨task, member, named, isTask⟩

/-! ### A queue of two tasks -/

/-- Writes that all go through lead from one store to another. -/
theorem reachable_writes {writes : List QueueWrite} {before after : QueueStore}
    (written : writes.foldlM (write clock reads) before = .ok after) :
    Reachable before (QueueStep clock) after := by
  induction writes using List.reverseRecOn generalizing after with
  | nil =>
    cases written
    exact .start
  | append_singleton writes last inductionHypothesis =>
    rw [List.foldlM_append] at written
    obtain ⟨middle, earlier, written⟩ := bind_ok written
    rw [List.foldlM_cons] at written
    obtain ⟨final, isWritten, rest⟩ := bind_ok written
    cases rest
    exact (inductionHypothesis earlier).step (.done reads last isWritten)

/-- Reads that refuse nothing. -/
def openReads : QueueReads where
  now := "2026-01-02T03:04:05Z"
  unfinishedRun _ := false
  guarded _ := false
  held _ := false
  mayStep _ := true
  childWaits _ := false
  judged _ := true
  settled _ := true
  mayTake _ := true
  waitsForBuild _ := false
  order := []
  claimOrder := []

def steadyClock (_ : Nat) : String := "2026-01-02T03:04:05Z"

def writeAll (before : QueueStore) (writes : List QueueWrite) : Except QueueError QueueStore :=
  writes.foldlM (write steadyClock openReads) before

def writtenOr (before : QueueStore) (writes : List QueueWrite) : QueueStore :=
  (writeAll before writes).toOption.getD before

theorem reachable_writtenOr {before : QueueStore} {writes : List QueueWrite}
    (goesThrough : (writeAll before writes).toOption.isSome = true) :
    Reachable before (QueueStep steadyClock) (writtenOr before writes) := by
  unfold writtenOr
  cases written : writeAll before writes with
  | error => rw [written] at goesThrough; cases goesThrough
  | ok after => exact reachable_writes written

/-- A task of a goal, and one of none. -/
def apartStore : QueueStore :=
  writtenOr .empty [.addGoal false, .addTask (some 1) [] [], .addTask none [] []]

/-- The second task waits for the first. -/
def waitingStore : QueueStore :=
  { apartStore with dependencies := apartStore.dependencies.add (2, 1) }.record steadyClock
    (.dependencyAdded 2 1)

theorem waitingStore_reached : Reachable .empty (QueueStep steadyClock) waitingStore := by
  have apart : Reachable .empty (QueueStep steadyClock) apartStore :=
    reachable_writtenOr (by decide)
  have noTasks : apartStore.dependencies.items = [] := by decide
  have noGoals : apartStore.goalDependencies.items = [] := by decide
  have noChildren : apartStore.replacements = [] := by decide
  have misses : apartStore.waitsFor (.task 1) (.task 2) = false := by
    rw [Bool.eq_false_iff, Ne, waitsFor_iff]
    intro path
    obtain ⟨next, edge, _⟩ := (ReflTransGen.cases_head path).resolve_left nofun
    cases edge with
    | predecessor edge => simp [view, noTasks] at edge
    | goal edge => simp [view, noGoals] at edge
    | replacement edge => simp [view, noChildren] at edge
  have first : apartStore.tasks.get? 1 = some ⟨1, .draft, some 1⟩ := by decide
  have second : apartStore.tasks.get? 2 = some ⟨2, .draft, none⟩ := by decide
  refine apart.step (.done openReads (.addDependency 2 1) ?_)
  simp [write, insertDependency, checkStep, checkEditable, require, openReads, readTask, first,
    second, misses, noTasks, waitingStore, bind, Except.bind, TaskStatus.dependenciesEditable]

/-! ### A task replaced -/

/-- The second task waits for the goal too. -/
def heldStore : QueueStore :=
  { waitingStore with goalDependencies := waitingStore.goalDependencies.add (2, 1) }.record
    steadyClock (.goalDependencyAdded 2 1)

/-- The first task is in progress, and its child was submitted. -/
def parkedStore : QueueStore :=
  writtenOr heldStore [.transition 1 .submit, .transition 1 .approve, .claim,
    .addTask (some 1) [] [], .transition 3 .submit]

/-- The plan that has the third task stand in for the first. -/
def childPlan : ReplacementPlan :=
  { oneChild with
    children := [⟨3, .base, none⟩]
    mappings := [⟨1, "hash", .redistribute, [⟨3, 1⟩], none, none⟩]
    successors := [⟨2, [3], none⟩] }

/-- The replan of the first task, whose plan was accepted. -/
def childOperation : Replan.PlannedOperation :=
  { oneItem [] [2] with
    taskId := 1
    goalId := some 1
    status := .applying
    proposalId := some 1 }

def childApply : ApplyReads where
  operation := childOperation
  generation := 2
  revision := some ⟨1, 1, childPlan, "hash", some 0⟩
  proposal := some .accepted
  members := [3]
  run := .needsSession
  runLeased := false
  versionOf _ := "version"
  approvedChildren := some (Ordered.empty.insert 3 "version")
  texts _ := ⟨childOperation.conditions.acceptance, ["cargo test"], [], []⟩
  taskVersionNow := "version"
  goalAcceptanceVersionNow := none
  authorities := .empty

/-- The third task was put in the place of the first, and the second waits for it. -/
def appliedStore : QueueStore :=
  (parkedStore.writeReplacement steadyClock openReads 1 childPlan).toOption.getD parkedStore

/-- The third task has left the goal and ended. -/
def endedStore : QueueStore := writtenOr appliedStore [.setGoal 3 none, .claim, .complete 3]

theorem heldStore_reached : Reachable .empty (QueueStep steadyClock) heldStore := by
  have predecessors : waitingStore.dependencies.items = [(2, 1)] := by decide
  have noGoals : waitingStore.goalDependencies.items = [] := by decide
  have noChildren : waitingStore.replacements = [] := by decide
  have apart : waitingStore.view.goalOf 2 = none := by decide
  have misses : waitingStore.waitsFor (.goal 1) (.task 2) = false := by
    rw [Bool.eq_false_iff, Ne, waitsFor_iff]
    intro path
    refine path_invariant path (· ≠ .task 2) (by decide) (fun before after _ edge => ?_) rfl
    cases edge with
    | predecessor edge => simp_all [view]
    | goal edge => rintro ⟨⟩
    | member isStatus isMember =>
      rintro ⟨⟩
      rw [apart] at isMember
      cases isMember
    | replacement edge => simp [view, noChildren] at edge
  have second : waitingStore.tasks.get? 2 = some ⟨2, .draft, none⟩ := by decide
  have goal : waitingStore.goals.get? 1 = some ⟨1, .open_, none, none, rfl⟩ := rfl
  refine waitingStore_reached.step (.done openReads (.addGoalDependency 2 1) ?_)
  simp [write, addGoalDependency, insertGoalDependency, checkStep, checkEditable, require, openReads,
    readTask, readGoal, second, goal, misses, noGoals, heldStore, bind, Except.bind,
    TaskStatus.dependenciesEditable]

theorem parkedStore_reached : Reachable .empty (QueueStep steadyClock) parkedStore :=
  heldStore_reached.trans (reachable_writtenOr (by decide))

theorem childPlan_unclosed :
    closesLoop (parkedStore.waitGraph 1) (parkedStore.applyEdges 1 childPlan) = none := by
  have graph : parkedStore.waitGraph 1 =
      ⟨[(.goal 1, [.task 1, .task 3]), (.task 2, [.goal 1])], by decide⟩ := rfl
  have edges : parkedStore.applyEdges 1 childPlan = [(2, [3]), (1, [3])] := by decide
  rw [graph, edges]
  simp [closesLoop, joinEdges, addNeeds, comesTo, nextOf, Table.get?, Table.insert, Table.erase,
    Table.retain]

/-- Nothing is found against the plan but that it left its planner. -/
theorem childPlan_passes :
    (parkedStore.checkReplacement childApply childPlan).filter (·.code != .notWithPlanner) = [] := by
  have waitsForNone : dependsOn (parkedStore.planContext childApply childPlan) 3 = [] := by decide
  have dependencies :
      checkDependencies (parkedStore.planContext childApply childPlan) [3] = [] := by
    unfold checkDependencies
    rw [List.flatMap_singleton, List.flatMap_singleton, waitsForNone, List.reverse_nil,
      waitsForItself]
    decide
  have unclosed : parkedStore.loopProblems 1 childPlan = [] := by
    rw [loopProblems, childPlan_unclosed]
  show ((_ ++ checkDependencies (parkedStore.planContext childApply childPlan) [3] ++ _) ++
    parkedStore.loopProblems 1 childPlan).filter _ = []
  rw [dependencies, unclosed]
  decide

theorem childApply_state : ∃ state, parkedStore.applyState childApply = .ok state ∧
    applyProblems state = [] := by
  have task : parkedStore.readTask childApply.operation.taskId = .ok ⟨1, .inProgress, some 1⟩ := rfl
  have isState := applyState.eq_1 parkedStore childApply
  rw [task] at isState
  refine ⟨_, isState.trans rfl, ?_⟩
  show operationProblems _ ++ revisionProblems _ ++
    ((parkedStore.checkReplacement childApply childPlan).filter (·.code != .notWithPlanner)).map _ ++
      taskProblems _ ++ childProblems _ ++ versionProblems _ ++ successorProblems _ = []
  rw [childPlan_passes]
  decide

theorem childApply_goes :
    parkedStore.applyReplacement steadyClock openReads childApply = .ok appliedStore := by
  have goesThrough :
      (parkedStore.writeReplacement steadyClock openReads 1 childPlan).toOption.isSome = true := by
    decide
  obtain ⟨state, isState, noProblems⟩ := childApply_state
  rw [applyReplacement, isState]
  simp only [bind, Except.bind, noProblems]
  show parkedStore.writeReplacement steadyClock openReads 1 childPlan = _
  unfold appliedStore
  cases written : parkedStore.writeReplacement steadyClock openReads 1 childPlan with
  | error => rw [written] at goesThrough; cases goesThrough
  | ok after => rfl

theorem appliedStore_reached : Reachable .empty (QueueStep steadyClock) appliedStore :=
  parkedStore_reached.step (.done openReads (.apply childApply) childApply_goes)

theorem endedStore_later : Reachable appliedStore (QueueStep steadyClock) endedStore :=
  reachable_writtenOr (by decide)

theorem endedStore_reached : Reachable .empty (QueueStep steadyClock) endedStore :=
  appliedStore_reached.trans endedStore_later

/-! ### Nothing waits for itself -/

/-- Whatever was written, no goal and no task that was not canceled waits for itself, through
predecessors, goals, their tasks and what tasks were replaced by. -/
theorem live_never_loops {store : QueueStore} (reached : Reachable .empty (QueueStep clock) store)
    (node : Node) : ¬ TransGen store.view.Live node node := by
  obtain ⟨_, run, _⟩ := reachable_run reached
  exact run.live_acyclic node

theorem live_never_loops_appliedStore :
    ¬ TransGen appliedStore.view.Live (.task 2) (.task 2) :=
  live_never_loops appliedStore_reached (.task 2)

/-! ### Replacements can be followed -/

/-- The statuses read for a walk are those of the rows asked for. -/
theorem get?_replacementStatuses {store : QueueStore} {from_ : List Nat} {id : Nat}
    {status : TaskStatus} :
    (store.replacementStatuses from_).get? id = some status ↔
      store.view.status id = some status ∧
        (id ∈ from_ ∨ id ∈ store.replacements.map Prod.snd) := by
  have listed : ∀ (rows : List QueueTask), (rows.map QueueTask.id).Nodup →
      ((rows.foldl (fun statuses task => statuses.insert task.id task.status)
        (Table.empty : Table Nat TaskStatus)).get? id = some status ↔
          ∃ task ∈ rows, task.id = id ∧ task.status = status) := by
    intro rows
    induction rows using List.reverseRecOn with
    | nil => simp
    | append_singleton rows row inductionHypothesis =>
      intro distinct
      rw [List.map_append, List.nodup_append] at distinct
      rw [List.foldl_append, List.foldl_cons, List.foldl_nil]
      by_cases same : id = row.id
      · subst same
        rw [Table.get?_insert_self, Option.some_inj]
        constructor
        · exact fun isStatus => ⟨row, by simp, rfl, isStatus⟩
        · rintro ⟨task, member, named, rfl⟩
          rcases List.mem_append.mp member with before | last
          · have isBefore : task.id ∈ rows.map QueueTask.id := List.mem_map_of_mem before
            exact absurd named (distinct.2.2 _ isBefore _ List.mem_cons_self)
          · rw [List.mem_singleton.mp last]
      · rw [Table.get?_insert_of_ne _ _ same, inductionHypothesis distinct.1]
        constructor
        · rintro ⟨task, member, rest⟩
          exact ⟨task, List.mem_append_left _ member, rest⟩
        · rintro ⟨task, member, named, isStatus⟩
          rcases List.mem_append.mp member with before | last
          · exact ⟨task, before, named, isStatus⟩
          · rw [List.mem_singleton.mp last] at named
            exact absurd named.symm same
  rw [replacementStatuses, listed _ (store.tasks.distinct.sublist (List.filter_sublist.map _))]
  constructor
  · rintro ⟨task, member, rfl, rfl⟩
    obtain ⟨inside, asked⟩ := List.mem_filter.mp member
    exact ⟨status_of_mem inside, of_decide_eq_true asked⟩
  · rintro ⟨isStatus, asked⟩
    obtain ⟨task, member, rfl, rfl⟩ := mem_of_status isStatus
    exact ⟨task, List.mem_filter.mpr ⟨member, decide_eq_true asked⟩, rfl, rfl⟩

theorem live_of_replacedBy {view : QueueView} (rooted : Rooted view) {task child : Nat}
    (edge : view.replacedBy task child) : view.Live (.task task) (.task child) := by
  refine ⟨.replacement edge, fun isCanceled => ?_⟩
  have isReplaced := (rooted.replaced task child edge).1
  rw [show view.status task = some .canceled from isCanceled] at isReplaced
  cases isReplaced

theorem live_of_path {view : QueueView} (rooted : Rooted view) {task child : Nat}
    (path : TransGen view.replacedBy task child) : TransGen view.Live (.task task) (.task child) :=
  path.lift WaitNode.task fun _ _ edge => live_of_replacedBy rooted edge

theorem goalUnresolved_of_run {store : QueueStore} {facts : List QueueFact}
    (run : ViewRun facts store.view) (goal : Nat) : store.goalUnresolved goal = some [] := by
  have rooted := run.rooted
  have leadsTo := leads_replacements store
  have rootStatus : ∀ root ∈ store.replacedTasks goal,
      (store.replacementStatuses (store.replacedTasks goal)).get? root = some .replaced :=
    fun root isRoot => get?_replacementStatuses.mpr ⟨(mem_replacedTasks.mp isRoot).2, Or.inl isRoot⟩
  have resolved : Resolved (tableOf store.replacements)
      (store.replacementStatuses (store.replacedTasks goal)) (store.replacedTasks goal) := by
    refine (resolved_iff_of_replaced rootStatus).mpr fun task _ => ⟨?_, ?_, ?_⟩
    · intro isReplaced
      have status : store.view.status task = some .replaced := by
        rcases isReplaced with isReplaced | isRoot
        · exact (get?_replacementStatuses.mp isReplaced).1
        · exact (mem_replacedTasks.mp isRoot).2
      obtain ⟨child, edge⟩ := run.redirected.named task status
      rw [← leadsTo] at edge
      exact List.ne_nil_of_mem edge
    · intro child edge
      rw [leadsTo] at edge
      obtain ⟨status, held⟩ := Option.ne_none_iff_exists'.mp (rooted.replaced task child edge).2
      have listed : child ∈ store.replacements.map Prod.snd := List.mem_map_of_mem edge
      rw [get?_replacementStatuses.mpr ⟨held, Or.inr listed⟩]
      nofun
    · rw [leadsTo]
      exact fun cycle => run.live_acyclic _ (live_of_path rooted cycle)
  obtain ⟨walked, runs, sofar⟩ := rootsWalked_of_enough (tableOf store.replacements)
    (store.replacementStatuses (store.replacedTasks goal)) (store.replacedTasks goal)
  have nothing := sofar.resolved_iff.mpr resolved
  rw [goalUnresolved, unresolvedReplacements, runs 0, Option.map_some, nothing]
  rfl

/-- Whatever was written, no record of what a goal's tasks were replaced by is ever broken. -/
theorem goalUnresolved_nil {store : QueueStore}
    (reached : Reachable .empty (QueueStep clock) store) (goal : Nat) :
    store.goalUnresolved goal = some [] := by
  obtain ⟨_, run, _⟩ := reachable_run reached
  exact goalUnresolved_of_run run goal

theorem goalUnresolved_nil_appliedStore :
    appliedStore.replacedTasks 1 = [1] ∧ appliedStore.goalUnresolved 1 = some [] :=
  ⟨by decide, goalUnresolved_nil appliedStore_reached 1⟩

/-! ### Achieved goals -/

/-- What holds a goal back in the rows does so in the view. -/
theorem holds_of_row {store : QueueStore} {goal : Nat} {task : QueueTask}
    (member : task ∈ store.tasks.items)
    (holds : task.goalId = some goal ∨ task ∈ store.goalReplacing goal) :
    store.view.Holds goal task.id := by
  rcases holds with isMember | isReplacing
  · exact Or.inl (by rw [goalOf_of_mem member, isMember])
  · obtain ⟨_, root, isRoot, path⟩ := mem_replacementTasks.mp (List.mem_filter.mp isReplacing).1
    obtain ⟨isMember, isReplaced⟩ := mem_replacedTasks.mp isRoot
    exact Or.inr ⟨root, isMember, isReplaced, path⟩

/-- What is counted as holding the goal back does so in the view. -/
theorem holds_of_holding {store : QueueStore} {goal : Nat} {status : TaskStatus}
    (held : 0 < store.holding goal status) :
    ∃ id, store.view.Holds goal id ∧ store.view.status id = some status := by
  rcases Nat.eq_zero_or_pos (store.tasks.items.countP fun task =>
      task.goalId == some goal && task.status == status) with isZero | isPos
  · rw [holding, isZero, Nat.zero_add] at held
    obtain ⟨task, isReplacing, isStatus⟩ := List.countP_pos_iff.mp held
    have member := (mem_replacementTasks.mp (List.mem_filter.mp isReplacing).1).1
    refine ⟨task.id, holds_of_row member (Or.inr isReplacing), ?_⟩
    rw [status_of_mem member, beq_iff_eq.mp isStatus]
  · obtain ⟨task, member, both⟩ := List.countP_pos_iff.mp isPos
    rw [Bool.and_eq_true, beq_iff_eq, beq_iff_eq] at both
    refine ⟨task.id, holds_of_row member (Or.inl both.1), ?_⟩
    rw [status_of_mem member, both.2]

/-- A goal that is not closed and that only ended tasks hold back can be closed as achieved, once
what was found from it is settled. -/
theorem closeGoal_of_ended {store : QueueStore} {facts : List QueueFact}
    (run : ViewRun facts store.view) {goal : QueueGoal} (isGoal : goal ∈ store.goals.items)
    (isOpen : goal.verdict = none)
    (ended : ∀ id, store.view.Holds goal.id id → ¬ store.view.Unended id)
    (settled : reads.settled goal.id = true) :
    store.closeGoal clock reads goal.id .achieved =
      .ok ((store.setGoalRow { goal with
        closedAt := some reads.now
        verdict := some .achieved
        consistent := rfl }).record clock (.goalClosed goal.id .achieved)) := by
  have unblocked : store.blocking goal.id .achieved = [] := by
    refine List.filter_eq_nil_iff.mpr fun held member isBlocking => ?_
    obtain ⟨status, _, rfl⟩ := List.mem_map.mp member
    rw [Bool.and_eq_true, decide_eq_true_eq, Bool.not_eq_true'] at isBlocking
    obtain ⟨id, holds, isStatus⟩ := holds_of_holding isBlocking.1
    exact ended id holds ⟨status, isStatus, isBlocking.2⟩
  have read : store.readGoal goal.id = .ok goal := by
    rw [readGoal, Keyed.get?_eq_some_iff.mpr ⟨isGoal, rfl⟩]
  have notClosed : goal.isClosed = false := by rw [goal.isClosed_eq, isOpen]; rfl
  rw [closeGoal, read]
  simp only [bind, Except.bind, notClosed, unblocked, settled, goalUnresolved_of_run run, require]
  rfl

/-- The goal was achieved once the task that stands in for its own had ended outside it. -/
def achievedStore : QueueStore :=
  (endedStore.setGoalRow ⟨1, .open_, some openReads.now, some .achieved, rfl⟩).record steadyClock
    (.goalClosed 1 .achieved)

/-- The second task is in progress. -/
def startedStore : QueueStore :=
  writtenOr achievedStore [.transition 2 .submit, .transition 2 .approve, .claim]

theorem achievedStore_later : Reachable endedStore (QueueStep steadyClock) achievedStore := by
  have found : endedStore.goals.get? 1 = some ⟨1, .open_, none, none, rfl⟩ := rfl
  have tasks : endedStore.tasks.items =
      [⟨1, .replaced, some 1⟩, ⟨2, .draft, none⟩, ⟨3, .completed, none⟩] := by decide
  have children : endedStore.replacements = [(1, 3)] := by decide
  have apart : endedStore.view.goalOf 2 = none := by decide
  obtain ⟨_, run, _⟩ := reachable_run endedStore_reached
  refine Reachable.start.step (.done openReads (.closeGoal 1 .achieved)
    (closeGoal_of_ended run (Keyed.get?_eq_some_iff.mp found).1 rfl (fun id holds unended => ?_) rfl))
  obtain ⟨status, isStatus, goesOn⟩ := unended
  obtain ⟨task, member, rfl, rfl⟩ := mem_of_status isStatus
  rw [tasks] at member
  -- only the second task goes on, and it is no part of the goal
  fin_cases member
  · cases goesOn
  · rcases holds with isMember | ⟨root, _, _, path⟩
    · rw [apart] at isMember
      cases isMember
    · obtain ⟨_, _, edge⟩ := TransGen.tail'_iff.mp path
      simp [view, children] at edge
  · cases goesOn

theorem achievedStore_reached : Reachable .empty (QueueStep steadyClock) achievedStore :=
  endedStore_reached.trans achievedStore_later

theorem startedStore_later : Reachable appliedStore (QueueStep steadyClock) startedStore :=
  (endedStore_later.trans achievedStore_later).trans (reachable_writtenOr (by decide))

theorem startedStore_reached : Reachable .empty (QueueStep steadyClock) startedStore :=
  appliedStore_reached.trans startedStore_later

/-- Once a goal is achieved, its tasks and all that its replaced tasks were replaced by have ended,
and none of them goes on again until it is reopened. -/
theorem achieved_all_ended {store : QueueStore}
    (reached : Reachable .empty (QueueStep clock) store) {goal : QueueGoal} {task : QueueTask}
    (isGoal : goal ∈ store.goals.items) (isAchieved : goal.verdict = some .achieved)
    (member : task ∈ store.tasks.items)
    (holds : task.goalId = some goal.id ∨ task ∈ store.goalReplacing goal.id) :
    task.status.isTerminal = true := by
  obtain ⟨_, run, _⟩ := reachable_run reached
  obtain ⟨status, isStatus, isTerminal⟩ :=
    run.achieved goal.id _ task.id (goal_of_mem isGoal) isAchieved (holds_of_row member holds)
  rw [status_of_mem member, Option.some_inj] at isStatus
  rwa [isStatus]

theorem achieved_all_ended_achievedStore : ∃ goal ∈ achievedStore.goals.items,
    goal.verdict = some .achieved ∧
      (⟨3, .completed, none⟩ : QueueTask) ∈ achievedStore.goalReplacing 1 ∧
      (⟨3, .completed, none⟩ : QueueTask).status.isTerminal = true := by
  have found : achievedStore.goals.get? 1 =
      some ⟨1, .open_, some openReads.now, some .achieved, rfl⟩ := rfl
  have isGoal := (Keyed.get?_eq_some_iff.mp found).1
  have third : (⟨3, .completed, none⟩ : QueueTask) ∈ achievedStore.tasks.items := by decide
  have replaces : (⟨3, .completed, none⟩ : QueueTask) ∈ achievedStore.goalReplacing 1 := by
    refine List.mem_filter.mpr ⟨mem_replacementTasks.mpr ⟨third, 1, by decide, .single ?_⟩, by decide⟩
    show (1, 3) ∈ achievedStore.replacements
    decide
  exact ⟨_, isGoal, rfl, replaces,
    achieved_all_ended achievedStore_reached isGoal rfl third (Or.inr replaces)⟩

/-! ### Started tasks -/

/-- The predecessors of a task that was ever taken are all completed. -/
theorem started_on_completed {store : QueueStore}
    (reached : Reachable .empty (QueueStep clock) store) {task predecessor : QueueTask}
    (member : task ∈ store.tasks.items) (other : predecessor ∈ store.tasks.items)
    (started : task.status.isStarted = true)
    (edge : (task.id, predecessor.id) ∈ store.dependencies.items) :
    predecessor.status = .completed := by
  obtain ⟨_, run, _⟩ := reachable_run reached
  have completed := run.started task.id predecessor.id task.status (status_of_mem member) started edge
  rw [status_of_mem other] at completed
  exact Option.some.inj completed

theorem started_on_completed_startedStore :
    (2, 3) ∈ startedStore.dependencies.items ∧
      (⟨3, .completed, none⟩ : QueueTask).status = .completed := by
  have second : (⟨2, .inProgress, none⟩ : QueueTask) ∈ startedStore.tasks.items := by decide
  have third : (⟨3, .completed, none⟩ : QueueTask) ∈ startedStore.tasks.items := by decide
  have edge : (2, 3) ∈ startedStore.dependencies.items := by decide
  exact ⟨edge, started_on_completed startedStore_reached second third rfl edge⟩

/-! ### One task can go on -/

/-- A task that goes on waits for none that was replaced. -/
theorem redirected_rows {store : QueueStore} {facts : List QueueFact}
    (run : ViewRun facts store.view) {task predecessor : QueueTask} (member : task ∈ store.tasks.items)
    (other : predecessor ∈ store.tasks.items) (goesOn : task.status.isTerminal = false)
    (edge : (task.id, predecessor.id) ∈ store.dependencies.items) :
    predecessor.status ≠ .replaced := by
  intro isReplaced
  refine run.redirected.waits task.id predecessor.id ⟨_, status_of_mem member, goesOn⟩ edge ?_
  rw [status_of_mem other, isReplaced]

/-- While a task has not ended, one goes on that waits for nothing that does: its predecessors
have completed or were canceled, and each goal it depends on was closed or can be achieved once
what was found from it is settled. -/
theorem one_can_go_on {store : QueueStore} (reached : Reachable .empty (QueueStep clock) store)
    {unended : QueueTask} (isTask : unended ∈ store.tasks.items)
    (unfinished : unended.status.isTerminal = false) :
    ∃ task ∈ store.tasks.items, task.status.isTerminal = false ∧
      (∀ predecessor ∈ store.tasks.items, (task.id, predecessor.id) ∈ store.dependencies.items →
        predecessor.status = .completed ∨ predecessor.status = .canceled) ∧
      ∀ goal ∈ store.goals.items, (task.id, goal.id) ∈ store.goalDependencies.items →
        goal.verdict = none → ∀ reads : QueueReads, reads.settled goal.id = true →
          ∃ after, store.closeGoal clock reads goal.id .achieved = .ok after := by
  obtain ⟨_, run, _⟩ := reachable_run reached
  let going : Finset Node :=
    ((store.tasks.items.filter fun task => !task.status.isTerminal).map fun task =>
      WaitNode.task task.id).toFinset
  have mem_going : ∀ id, store.view.Unended id → WaitNode.task id ∈ going := by
    rintro id ⟨status, isStatus, goesOn⟩
    obtain ⟨task, member, rfl, rfl⟩ := mem_of_status isStatus
    exact List.mem_toFinset.mpr (List.mem_map.mpr
      ⟨task, List.mem_filter.mpr ⟨member, by simp [goesOn]⟩, rfl⟩)
  obtain ⟨last, isLast, waitsForNone⟩ := run.live_acyclic.exists_last going
    ⟨_, mem_going _ ⟨_, status_of_mem isTask, unfinished⟩⟩
  obtain ⟨task, isGoing, rfl⟩ := List.mem_map.mp (List.mem_toFinset.mp isLast)
  obtain ⟨member, goesOn⟩ := List.mem_filter.mp isGoing
  have goesOn : task.status.isTerminal = false := by simpa using goesOn
  have notCanceled : ¬ store.view.Canceled (.task task.id) := by
    intro isCanceled
    have isStatus := status_of_mem member
    rw [show store.view.status task.id = some .canceled from isCanceled] at isStatus
    rw [← Option.some.inj isStatus] at goesOn
    cases goesOn
  refine ⟨task, member, goesOn, fun predecessor other edge => ?_,
    fun goal isGoal edge isOpen reads settled => ?_⟩
  · have ended : predecessor.status.isTerminal = true := by
      by_contra isUnended
      exact waitsForNone _ (mem_going _ ⟨_, status_of_mem other, Bool.not_eq_true _ ▸ isUnended⟩)
        (.single ⟨.predecessor edge, notCanceled⟩)
    have notReplaced := redirected_rows run member other goesOn edge
    revert ended notReplaced
    cases predecessor.status <;> decide
  · refine ⟨_, closeGoal_of_ended run isGoal isOpen (fun other holds isUnended => ?_) settled⟩
    -- the last task would wait for the other one through the goal
    have first : store.view.Live (.task task.id) (.goal goal.id) := ⟨.goal edge, notCanceled⟩
    have fromGoal : ∀ {root : Nat} {status : TaskStatus}, store.view.goalOf root = some goal.id →
        store.view.status root = some status → status ≠ .canceled →
          TransGen store.view.Live (.task task.id) (.task root) := fun isMember isStatus kept =>
      (TransGen.single first).tail ⟨.member isStatus isMember kept, id⟩
    rcases holds with isMember | ⟨root, isMember, isReplaced, path⟩
    · obtain ⟨status, isStatus, unended⟩ := isUnended
      refine waitsForNone _ (mem_going other ⟨status, isStatus, unended⟩)
        (fromGoal isMember isStatus ?_)
      rintro rfl
      cases unended
    · exact waitsForNone _ (mem_going other isUnended)
        ((fromGoal isMember isReplaced nofun).trans (live_of_path run.rooted path))

theorem one_can_go_on_endedStore : ∃ task ∈ endedStore.tasks.items,
    task.status.isTerminal = false ∧
      (∀ predecessor ∈ endedStore.tasks.items,
        (task.id, predecessor.id) ∈ endedStore.dependencies.items →
          predecessor.status = .completed ∨ predecessor.status = .canceled) ∧
      ∀ goal ∈ endedStore.goals.items, (task.id, goal.id) ∈ endedStore.goalDependencies.items →
        goal.verdict = none → ∀ reads : QueueReads, reads.settled goal.id = true →
          ∃ after, endedStore.closeGoal steadyClock reads goal.id .achieved = .ok after := by
  have second : (⟨2, .draft, none⟩ : QueueTask) ∈ endedStore.tasks.items := by decide
  exact one_can_go_on endedStore_reached second rfl

/-! ### What has ended stays -/

/-- Whatever is written later, the row of a task that has ended stays as it is, with all it waited
for and all it was replaced by. -/
theorem ended_for_good {before after : QueueStore}
    (later : Reachable before (QueueStep clock) after) {task : QueueTask}
    (member : task ∈ before.tasks.items) (ended : task.status.isTerminal = true) :
    task ∈ after.tasks.items ∧
      (∀ predecessor, (task.id, predecessor) ∈ after.dependencies.items ↔
        (task.id, predecessor) ∈ before.dependencies.items) ∧
      (∀ goal, (task.id, goal) ∈ after.goalDependencies.items ↔
        (task.id, goal) ∈ before.goalDependencies.items) ∧
      ∀ child, (task.id, child) ∈ after.replacements ↔ (task.id, child) ∈ before.replacements := by
  obtain ⟨_, steps, _⟩ := reachable_written later
  have same := steps.sameTask ⟨_, status_of_mem member, ended⟩
  refine ⟨?_, fun predecessor => iff_of_eq (congrFun same.depends predecessor),
    fun goal => iff_of_eq (congrFun same.dependsOnGoal goal),
    fun child => iff_of_eq (congrFun same.replacedBy child)⟩
  obtain ⟨row, isRow, sameId, sameStatus⟩ :=
    mem_of_status (same.status.trans (status_of_mem member))
  have sameGoal : row.goalId = task.goalId := by
    rw [← goalOf_of_mem isRow, sameId, same.goalOf, goalOf_of_mem member]
  have sameRow : row = task := by
    cases row
    cases task
    simp_all
  exact sameRow ▸ isRow

theorem ended_for_good_startedStore :
    (⟨1, .replaced, some 1⟩ : QueueTask) ∈ startedStore.tasks.items ∧
      (1, 3) ∈ startedStore.replacements := by
  have before : (⟨1, .replaced, some 1⟩ : QueueTask) ∈ appliedStore.tasks.items := by decide
  have child : (1, 3) ∈ appliedStore.replacements := by decide
  obtain ⟨kept, _, _, children⟩ := ended_for_good startedStore_later before rfl
  exact ⟨kept, (children 3).mpr child⟩

end QueueStore

end Dagq.Queue
