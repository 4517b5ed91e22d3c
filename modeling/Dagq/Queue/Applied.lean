/-
This file reads an apply that went through as one step of the view. Nothing was found against it,
so it has children, each successor is given some of them and no edge of it closes a loop; the
children were submitted, since each was approved. Then every write of the queue is steps of its
view, and the rows after any writes are a run of it.
-/

import Dagq.Lib.Transition
import Dagq.Queue.Steps
import Dagq.Replan.PlanChecked

namespace Dagq.Queue

open Dagq.Lib Dagq.Ledger Dagq.Priorities Relation
open Dagq.Replan (WaitNode ReplacementPlan PlanContext PlanProblem PlanSuccessor ApplyState
  ApplyProblem checkPlan checkNeeds checkSuccessor checkSuccessors checkChildren taskSet closesLoop
  joinEdges successorEdges applyProblems pushIf)

namespace QueueStore

variable {clock : Nat → String} {reads : QueueReads}

/-! ### Successors -/

/-- The successors are what depends on the task and has not ended. -/
theorem mem_successorsNow {store : QueueStore} {task : Nat} {entry : Nat × TaskStatus} :
    entry ∈ (store.successorsNow task).entries ↔
      store.view.depends entry.1 task ∧ store.view.status entry.1 = some entry.2 ∧
        entry.2.isTerminal = false := by
  have listed : ∀ item : Nat × TaskStatus,
      item ∈ (store.dependencies.items.filter fun edge => edge.2 = task).filterMap (fun edge =>
        (store.tasks.get? edge.1).bind fun successor =>
          if successor.status.isTerminal then none else some (successor.id, successor.status)) ↔
        store.view.depends item.1 task ∧ store.view.status item.1 = some item.2 ∧
          item.2.isTerminal = false := by
    rintro ⟨id, status⟩
    simp only [List.mem_filterMap, List.mem_filter, decide_eq_true_eq, Option.bind_eq_some_iff, view,
      Option.map_eq_some_iff]
    constructor
    · rintro ⟨⟨first, second⟩, ⟨member, rfl⟩, row, found, isItem⟩
      obtain rfl := (Keyed.get?_eq_some_iff.mp found).2
      split at isItem
      · cases isItem
      · rename_i goesOn
        cases isItem
        exact ⟨member, ⟨row, found, rfl⟩, by simpa using goesOn⟩
    · rintro ⟨member, ⟨row, found, rfl⟩, goesOn⟩
      obtain rfl := (Keyed.get?_eq_some_iff.mp found).2
      exact ⟨(row.id, task), ⟨member, rfl⟩, row, found, by simp [goesOn]⟩
  rw [successorsNow, Ordered.mem_foldl_insert, listed]
  rintro ⟨first, one⟩ firstIn ⟨second, other⟩ secondIn same
  obtain ⟨_, isOne, _⟩ := (listed _).mp firstIn
  obtain ⟨_, isOther, _⟩ := (listed _).mp secondIn
  dsimp only at same isOne isOther
  rw [same, isOther, Option.some_inj] at isOne
  rw [same, isOne]

theorem mem_successors {store : QueueStore} {task id : Nat} :
    id ∈ (store.successorsNow task).entries.map Prod.fst ↔
      store.view.depends id task ∧ store.view.Unended id := by
  simp only [List.mem_map, Prod.exists, exists_and_right, exists_eq_right, mem_successorsNow,
    QueueView.Unended]
  constructor
  · rintro ⟨status, edge, isStatus, goesOn⟩
    exact ⟨edge, status, isStatus, goesOn⟩
  · rintro ⟨edge, status, isStatus, goesOn⟩
    exact ⟨status, edge, isStatus, goesOn⟩

/-! ### What a check without problems says -/

/-- A list of problems none of which is left once those of one code are. -/
theorem eq_nil_of_codes {problems all : List PlanProblem} {code : Replan.PlanProblemCode}
    (none : all.filter (·.code != code) = []) (subset : problems ⊆ all)
    (others : ∀ problem ∈ problems, problem.code ≠ code) : problems = [] := by
  refine List.eq_nil_iff_forall_not_mem.mpr fun problem member => ?_
  have kept : problem ∈ all.filter (·.code != code) :=
    List.mem_filter.mpr ⟨subset member, bne_iff_ne.mpr (others problem member)⟩
  rw [none] at kept
  cases kept

theorem code_of_pushIf {found : Bool} {code : Replan.PlanProblemCode} {task : Option Nat}
    {reason : String} {problem : PlanProblem} (member : problem ∈ pushIf found code task reason) :
    problem.code = code := by
  unfold pushIf at member
  split at member
  · rw [List.mem_singleton.mp member]
  · cases member

theorem code_of_checkNeeds {children : List Nat} {successor : PlanSuccessor} {problem : PlanProblem}
    (member : problem ∈ checkNeeds children successor) : problem.code = .successorNeedsUnclear := by
  dsimp only [checkNeeds] at member
  split at member
  · rw [List.mem_singleton.mp member]
  · exact code_of_pushIf member

theorem code_of_foldl_checkSuccessor {ctx : PlanContext} {children : List Nat}
    {successors : List PlanSuccessor} {listed : List Nat × List PlanProblem}
    (before : ∀ problem ∈ listed.2, problem.code ≠ .notWithPlanner) {problem : PlanProblem}
    (member : problem ∈ (successors.foldl (checkSuccessor ctx children) listed).2) :
    problem.code ≠ .notWithPlanner := by
  induction successors generalizing listed with
  | nil => exact before problem member
  | cons successor rest inductionHypothesis =>
    refine inductionHypothesis (fun other isOther => ?_) member
    dsimp only [checkSuccessor] at isOther
    split at isOther
    · rcases List.mem_append.mp isOther with old | new
      · exact before other old
      · rw [List.mem_singleton.mp new]
        nofun
    · rcases List.mem_append.mp isOther with old | new
      · exact before other old
      · rcases List.mem_append.mp new with needs | started
        · rw [code_of_checkNeeds needs]
          decide
        · unfold Replan.checkStarted at started
          split at started
          · cases started
          · rw [code_of_pushIf started]
            decide

theorem code_of_checkSuccessors {plan : ReplacementPlan} {ctx : PlanContext} {children : List Nat}
    {problem : PlanProblem} (member : problem ∈ checkSuccessors plan ctx children) :
    problem.code ≠ .notWithPlanner := by
  rcases List.mem_append.mp member with listed | unmapped
  · exact code_of_foldl_checkSuccessor (fun _ inside => by cases inside) listed
  · obtain ⟨id, _, pushed⟩ := List.mem_flatMap.mp unmapped
    rw [code_of_pushIf pushed]
    decide

/-- The children named for a successor are children of the plan. -/
theorem mem_children_of_checkNeeds {children : List Nat} {successor : PlanSuccessor}
    (isNil : checkNeeds children successor = []) : ∀ need ∈ successor.needs, need ∈ children := by
  intro need member
  unfold checkNeeds at isNil
  by_cases unclear : ((taskSet successor.needs).isEmpty ||
      !(taskSet successor.needs).all (children.contains ·)) = true
  · rw [if_pos unclear] at isNil
    cases isNil
  · rw [Bool.or_eq_true, not_or, Bool.not_eq_true', Bool.not_eq_false, List.all_eq_true] at unclear
    exact List.contains_iff_mem.mp (unclear.2 need (Replan.mem_taskSet.mpr member))

/-- What the check of a replacement found nothing of. -/
structure Unopposed (store : QueueStore) (apply : ApplyReads) (plan : ReplacementPlan) : Prop where
  nonempty : plan.childIds ≠ []
  needs : ∀ successors, ∀ successor ∈ successorEdges plan successors,
    ∀ need ∈ successor.2, need ∈ plan.childIds
  unclosed : closesLoop (store.waitGraph apply.operation.taskId)
    (store.applyEdges apply.operation.taskId plan) = none

theorem unopposed_of_check {store : QueueStore} {apply : ApplyReads} {plan : ReplacementPlan}
    (clean : (store.checkReplacement apply plan).filter (·.code != .notWithPlanner) = []) :
    store.Unopposed apply plan where
  nonempty := by
    intro isEmpty
    have noChildren : taskSet plan.childIds = [] := by rw [isEmpty]; rfl
    have problem : pushIf (taskSet plan.childIds).isEmpty .noChildren none
        "the plan names no child task; to continue the run, decline the request with --continue-run" =
          [] := by
      refine eq_nil_of_codes clean (fun problem member => ?_) fun problem member => ?_
      · simp only [checkReplacement, checkPlan, checkChildren, List.mem_append]
        exact Or.inl (Or.inl (Or.inl (Or.inl (Or.inl (Or.inl (Or.inr (Or.inl (Or.inl member))))))))
      · rw [code_of_pushIf member]
        decide
    rw [Replan.pushIf_eq_nil, noChildren] at problem
    cases problem
  needs := by
    intro successors successor member need isNeed
    obtain ⟨id, _, rfl⟩ := List.mem_map.mp member
    dsimp only at isNeed
    cases listed : plan.successors.find? fun listed => listed.taskId == id with
    | none => simpa [listed] using isNeed
    | some entry =>
      have isNil : checkSuccessors plan (store.planContext apply plan) (taskSet plan.childIds) = [] := by
        refine eq_nil_of_codes clean (fun problem member => ?_) fun _ => code_of_checkSuccessors
        simp only [checkReplacement, checkPlan, List.mem_append]
        exact Or.inl (Or.inr member)
      obtain ⟨_, each, _⟩ := Replan.foldl_checkSuccessor (List.append_eq_nil_iff.mp isNil).1
      have isEntry := each entry (List.mem_of_find?_eq_some listed)
      rw [listed, Option.map_some, Option.getD_some] at isNeed
      exact Replan.mem_taskSet.mp (mem_children_of_checkNeeds isEntry need isNeed)
  unclosed := by
    have isNil : store.loopProblems apply.operation.taskId plan = [] := by
      refine eq_nil_of_codes clean (List.subset_append_right _ _) fun problem member => ?_
      unfold loopProblems at member
      split at member
      · rw [List.mem_singleton.mp member]
        nofun
      · cases member
    unfold loopProblems at isNil
    split at isNil
    · cases isNil
    · assumption

/-! ### What an apply writes -/

/-- Successors moved off the task wait for what they were given, the others for what they did. -/
theorem mem_repointed {task : Nat} {edges : List (Nat × List Nat)}
    (apart : ∀ successor ∈ edges, task ∉ successor.2) {dependencies : Edges} {first second : Nat} :
    (first, second) ∈ (edges.foldl (repoint task) dependencies).items ↔
      ((first, second) ∈ dependencies.items ∧ ¬ (first ∈ edges.map Prod.fst ∧ second = task)) ∨
        ∃ successor ∈ edges, successor.1 = first ∧ second ∈ successor.2 := by
  have added : ∀ (needs : List Nat) (start : Edges) (source : Nat),
      (first, second) ∈ (needs.foldl (fun dependencies need =>
        dependencies.add (source, need)) start).items ↔
          (first, second) ∈ start.items ∨ (source = first ∧ second ∈ needs) := by
    intro needs
    induction needs with
    | nil => simp
    | cons need rest inductionHypothesis =>
      intro start source
      rw [List.foldl_cons, inductionHypothesis, Edges.mem_add, Prod.mk.injEq, List.mem_cons]
      constructor
      · rintro ((old | ⟨rfl, rfl⟩) | ⟨rfl, later⟩)
        · exact Or.inl old
        · exact Or.inr ⟨rfl, Or.inl rfl⟩
        · exact Or.inr ⟨rfl, Or.inr later⟩
      · rintro (old | ⟨rfl, rfl | later⟩)
        · exact Or.inl (Or.inl old)
        · exact Or.inl (Or.inr ⟨rfl, rfl⟩)
        · exact Or.inr ⟨rfl, later⟩
  induction edges generalizing dependencies with
  | nil => simp
  | cons edge rest inductionHypothesis =>
    have notNeeded : task ∉ edge.2 := apart edge List.mem_cons_self
    rw [List.foldl_cons]
    refine (inductionHypothesis fun successor member =>
      apart successor (List.mem_cons_of_mem _ member)).trans ?_
    rw [repoint, added, Keyed.mem_keep]
    simp only [ne_eq, decide_not, Bool.not_eq_true', decide_eq_false_iff_not, Prod.mk.injEq,
      List.map_cons, List.mem_cons, exists_eq_or_imp]
    grind

theorem record_tasks (store : QueueStore) (fact : QueueFact) :
    (store.record clock fact).tasks = store.tasks := rfl

theorem approve_moves {before after : TaskStatus} {unfinishedRun : Bool}
    (moves : before.transition .approve unfinishedRun = .ok after) :
    before = .submitted ∧ after = .ready := by
  cases before <;> cases unfinishedRun <;> cases moves <;> exact ⟨rfl, rfl⟩

/-- Children approved one after the other were submitted, each once, and are ready. -/
theorem foldlM_approve {children : List Nat} {store after : QueueStore}
    (written : children.foldlM
      (fun store child => store.applyTransition clock reads child .approve) store = .ok after) :
    children.Nodup ∧ (∀ child ∈ children, store.view.status child = some .submitted) ∧
      after.view = { store.view with
        status := fun id => if id ∈ children then some .ready else store.view.status id } ∧
      after.events = recordAll clock store.events
        (children.map fun child => .taskStatusChanged child .submitted .ready) := by
  induction children generalizing store with
  | nil =>
    cases written
    exact ⟨List.nodup_nil, nofun, rfl, rfl⟩
  | cons child rest inductionHypothesis =>
    rw [List.foldlM_cons] at written
    obtain ⟨approved, first, later⟩ := bind_ok written
    obtain ⟨distinct, pending, isView, isEvents⟩ := inductionHypothesis later
    obtain ⟨task, status, found, rfl, moves, result⟩ := applyTransition_ok first
    have isApproved := result.resolve_right nofun
    have submitted := approve_moves moves
    have viewFirst : approved.view = store.view.setStatus task.id .ready := by
      rw [isApproved, view_record, view_setStatus found, submitted.2]
    have notAgain : task.id ∉ rest := fun again => by
      have isSubmitted := pending _ again
      rw [viewFirst] at isSubmitted
      simp at isSubmitted
    refine ⟨List.nodup_cons.mpr ⟨notAgain, distinct⟩, ?_, ?_, ?_⟩
    · intro other member
      rcases List.mem_cons.mp member with rfl | inRest
      · simp [view, found, submitted.1]
      · have isSubmitted := pending other inRest
        have different : other ≠ task.id := fun same => notAgain (same ▸ inRest)
        rwa [viewFirst, QueueView.setStatus_status, if_neg different] at isSubmitted
    · rw [isView, viewFirst]
      simp only [QueueView.setStatus, QueueView.mk.injEq, and_true]
      funext id
      grind
    · rw [isEvents, isApproved, submitted.1, submitted.2]
      rfl

/-- A task that ends in progress leaves the successors as they are, where it is none itself. -/
theorem successorsNow_end {store : QueueStore} {task : QueueTask} {status : TaskStatus}
    (found : store.tasks.get? task.id = some task) (apart : ¬ store.view.depends task.id task.id) :
    (store.setTaskRow { task with status }).successorsNow task.id = store.successorsNow task.id := by
  have sameRow : ∀ edge ∈ store.dependencies.items.filter fun edge => edge.2 = task.id,
      (store.tasks.set { task with status }).get? edge.1 = store.tasks.get? edge.1 := by
    rintro ⟨first, second⟩ member
    obtain ⟨inside, named⟩ := List.mem_filter.mp member
    have different : first ≠ task.id := by
      rintro rfl
      exact apart (of_decide_eq_true named ▸ inside)
    rw [Keyed.get?_set _ _ _ (by rw [found]; rfl), if_neg different]
  dsimp only [successorsNow, setTaskRow]
  rw [List.filterMap_congr fun edge member => by rw [sameRow edge member]]

theorem successorEdges_fst (plan : ReplacementPlan) (successors : List Nat) :
    (successorEdges plan successors).map Prod.fst = successors := by
  rw [successorEdges, List.map_map]
  exact List.map_id _

/-- The edges of an apply close no loop of the view: the search over the rows found none. -/
theorem unclosed_of_closesLoop {store : QueueStore} {task : Nat} {edges : List (Nat × List Nat)}
    (noLoop : closesLoop (store.waitGraph task) edges = none) :
    ∀ edge ∈ edges, ¬ TransGen (fun first second =>
      (store.view.withoutDependents task).Waits first second ∨ Replan.joined edges first second)
        (.task edge.1) (.task edge.1) := by
  intro edge member cycle
  rw [closesLoop, List.find?_eq_none] at noLoop
  refine noLoop edge.1 (List.mem_map_of_mem member) ((Replan.comesTo_joinEdges_iff _ _ _).mpr ?_)
  unfold Replan.waitsAfter
  rwa [leads_waitGraph]

/-- The rows with the task replaced and its successors moved, before the children are approved. -/
def repointed (clock : Nat → String) (store : QueueStore) (task : QueueTask) (children : List Nat)
    (edges : List (Nat × List Nat)) : QueueStore :=
  let ended := (store.setTaskRow { task with status := .replaced }).record clock
    (.taskStatusChanged task.id .inProgress .replaced)
  { ended with
    replacements := store.replacements ++ children.map fun child => (task.id, child)
    dependencies := edges.foldl (repoint task.id) store.dependencies }

theorem view_repointed {store : QueueStore} {task : QueueTask} {children : List Nat}
    {edges : List (Nat × List Nat)} (found : store.tasks.get? task.id = some task)
    (apart : ∀ successor ∈ edges, task.id ∉ successor.2) :
    (store.repointed clock task children edges).view =
      { store.view.replace task.id children edges with
        status := (store.view.setStatus task.id .replaced).status } := by
  have ended : (store.setTaskRow { task with status := .replaced }).view =
      store.view.setStatus task.id .replaced := view_setStatus found .replaced
  have depends : (store.repointed clock task children edges).view.depends =
      (store.view.replace task.id children edges).depends := by
    funext first second
    exact propext (mem_repointed apart)
  have replacedBy : (store.repointed clock task children edges).view.replacedBy =
      (store.view.replace task.id children edges).replacedBy := by
    funext first second
    simp [repointed, view, eq_comm, and_comm]
  have unfolds : (store.repointed clock task children edges).view =
      { (store.setTaskRow { task with status := .replaced }).view with
        depends := (store.repointed clock task children edges).view.depends
        replacedBy := (store.repointed clock task children edges).view.replacedBy } := rfl
  rw [unfolds, ended, depends, replacedBy]
  rfl

/-- An apply written ends the task, moves its successors and approves the children. -/
theorem writeReplacement_ok {store after : QueueStore} {id : Nat} {plan : ReplacementPlan}
    (apart : ¬ store.view.depends id id)
    (written : store.writeReplacement clock reads id plan = .ok after) :
    ∃ task edges approved, store.tasks.get? task.id = some task ∧ task.id = id ∧
      task.status = .inProgress ∧
      edges = successorEdges plan ((store.successorsNow id).entries.map Prod.fst) ∧
      plan.childIds.foldlM (fun store child => store.applyTransition clock reads child .approve)
        (store.repointed clock task plan.childIds edges) = .ok approved ∧
      after = approved.record clock (.replanApplied id plan.childIds edges) := by
  obtain ⟨ended, ends, rest⟩ := bind_ok written
  obtain ⟨task, found, rfl, isStarted, rfl⟩ := endTask_ok ends
  obtain ⟨approved, approves, isAfter⟩ := bind_ok rest
  refine ⟨task, _, approved, found, rfl, isStarted, rfl, ?_⟩
  have sameSuccessors : (store.setTaskRow { task with status := .replaced }).successorsNow task.id =
      store.successorsNow task.id := successorsNow_end found apart
  rw [← sameSuccessors]
  exact ⟨approves, (Except.ok.inj isAfter).symm⟩

/-- What an apply without problems was checked for, and what it writes. -/
theorem written_replacement {store after : QueueStore} {apply : ApplyReads} {plan : ReplacementPlan}
    (unopposed : store.Unopposed apply plan)
    (unstarted : ∀ entry ∈ (store.successorsNow apply.operation.taskId).entries,
      entry.2.dependenciesEditable = true)
    (written : store.writeReplacement clock reads apply.operation.taskId plan = .ok after) :
    ∃ facts, Written clock store facts after := by
  -- the task is no successor of its own, since a successor has not started
  have apart : ¬ store.view.depends apply.operation.taskId apply.operation.taskId := by
    intro edge
    obtain ⟨ended, ends, _⟩ := bind_ok written
    obtain ⟨task, found, _, isStarted, _⟩ := endTask_ok ends
    have editable := unstarted (apply.operation.taskId, .inProgress)
      (mem_successorsNow.mpr ⟨edge, by simp [view, found, isStarted], rfl⟩)
    cases editable
  obtain ⟨task, edges, approved, found, named, isStarted, isEdges, approves, rfl⟩ :=
    writeReplacement_ok apart written
  have needs : ∀ successor ∈ edges, ∀ need ∈ successor.2, need ∈ plan.childIds := by
    rw [isEdges]
    exact unopposed.needs _
  have sources : edges.map Prod.fst =
      (store.successorsNow apply.operation.taskId).entries.map Prod.fst := by
    rw [isEdges, successorEdges_fst]
  have unclosed := unclosed_of_closesLoop unopposed.unclosed
  rw [applyEdges, ← isEdges] at unclosed
  rw [← named] at sources unclosed unstarted ⊢
  obtain ⟨distinct, pending, isView, isEvents⟩ := foldlM_approve approves
  have startedNow : store.view.status task.id = some .inProgress := by simp [view, found, isStarted]
  -- the task is replaced when the children are approved, so it is none of them
  have notChild : task.id ∉ plan.childIds := by
    intro isChild
    have isSubmitted : (store.setTaskRow { task with status := .replaced }).view.status task.id =
        some .submitted := pending _ isChild
    rw [view_setStatus found, QueueView.setStatus_status, if_pos rfl] at isSubmitted
    cases isSubmitted
  rw [view_repointed found fun successor member isNeed => notChild (needs _ member _ isNeed)]
    at isView pending
  have before : ∀ child ∈ plan.childIds, store.view.status child = some .submitted := by
    intro child member
    have different : child ≠ task.id := fun same => notChild (same ▸ member)
    simpa [different] using pending child member
  refine ⟨replacedFacts task.id plan.childIds edges, ?_, ?_⟩
  · have isReplaced : (approved.record clock (.replanApplied task.id plan.childIds edges)).view =
        store.view.replace task.id plan.childIds edges := by
      rw [view_record, isView]
      simp only [QueueView.replace, QueueView.setStatus, QueueView.mk.injEq, and_true]
      funext id
      grind
    rw [isReplaced]
    refine ViewSteps.refl.step (.replaced ⟨startedNow, unopposed.nonempty, distinct, before, ?_, ?_,
      needs, unclosed⟩)
    · intro id
      rw [sources, mem_successors]
    · intro id member
      rw [sources] at member
      obtain ⟨entry, isEntry, rfl⟩ := List.mem_map.mp member
      exact ⟨entry.2, (mem_successorsNow.mp isEntry).2.1, unstarted entry isEntry⟩
  · rw [events_record, isEvents]
    simp only [replacedFacts, recordAll, List.foldl_cons, List.foldl_append, List.foldl_nil]
    rfl

/-- An apply without problems has an accepted plan whose check found nothing, and successors that
have not started. -/
theorem clean_of_applyProblems {state : ApplyState} (clean : applyProblems state = []) :
    state.proposal = some .accepted ∧ state.planProblems.filter (·.code != .notWithPlanner) = [] ∧
      ∀ entry ∈ state.successors.entries, entry.2.dependenciesEditable = true := by
  simp only [applyProblems, List.append_eq_nil_iff] at clean
  obtain ⟨⟨⟨⟨⟨⟨_, revision⟩, check⟩, _⟩, _⟩, _⟩, successors⟩ := clean
  refine ⟨?_, List.map_eq_nil_iff.mp check, ?_⟩
  · unfold Replan.revisionProblems at revision
    split at revision
    · cases revision
    · simp only [List.append_eq_nil_iff, Replan.applyIf_eq_nil, bne_eq_false_iff_eq] at revision
      exact revision.2
  · intro entry member
    have none := List.flatMap_eq_nil_iff.mp successors entry member
    simpa using none

theorem applyReplacement_ok {store after : QueueStore} {apply : ApplyReads}
    (written : store.applyReplacement clock reads apply = .ok after) :
    ∃ facts, Written clock store facts after := by
  obtain ⟨state, isState, rest⟩ := bind_ok written
  obtain ⟨_, passed, replaces⟩ := bind_ok rest
  obtain ⟨accepted, checked, unstarted⟩ :=
    clean_of_applyProblems (List.isEmpty_iff.mp (require_ok passed))
  obtain ⟨task, _, isState⟩ := bind_ok isState
  obtain ⟨statuses, _, isState⟩ := bind_ok isState
  obtain rfl := (Except.ok.inj isState).symm
  cases isRevision : apply.revision with
  | none =>
    rw [isRevision] at replaces
    cases replaces
  | some revision =>
    rw [isRevision] at replaces
    refine written_replacement (unopposed_of_check ?_) unstarted replaces
    dsimp only at accepted checked
    rw [accepted, isRevision] at checked
    exact checked

/-! ### Every write -/

/-- Every write that goes through is steps of the view with what they record. -/
theorem write_ok {store after : QueueStore} {write : QueueWrite}
    (written : store.write clock reads write = .ok after) : ∃ facts, Written clock store facts after := by
  cases write with
  | addGoal => exact addGoal_ok written
  | readyGoal => exact readyGoal_ok written
  | closeGoal => exact closeGoal_ok written
  | reopenGoal => exact reopenGoal_ok written
  | addTask => exact insertTask_ok written
  | addDependency => exact insertDependency_ok written
  | removeDependency => exact removeDependency_ok written
  | addGoalDependency =>
    obtain ⟨_, _, inserted⟩ := bind_ok written
    exact insertGoalDependency_ok inserted
  | removeGoalDependency => exact removeGoalDependency_ok written
  | setGoal => exact setGoal_ok written
  | transition =>
    exact written_transition written
  | claim => exact claim_ok written
  | complete => exact completeTask_ok written
  | apply => exact applyReplacement_ok written
  | note task goal name =>
    cases written
    exact ⟨_, written_record (.noted task goal name) rfl⟩

/-- Whatever is written is steps of the view, and the events recorded are theirs. -/
theorem reachable_written {before after : QueueStore}
    (reached : Reachable before (QueueStep clock) after) : ∃ facts, Written clock before facts after := by
  induction reached with
  | start => exact ⟨[], .refl before⟩
  | step _ next inductionHypothesis =>
    obtain ⟨facts, written⟩ := inductionHypothesis
    cases next with
    | done reads write isWritten =>
      obtain ⟨more, writtenNow⟩ := write_ok isWritten
      exact ⟨facts ++ more, written.trans writtenNow⟩
    | refused => exact ⟨facts, written⟩

theorem view_empty : QueueStore.empty.view = .empty := by
  rw [QueueView.empty, view, QueueView.mk.injEq]
  refine ⟨rfl, rfl, rfl, ?_, ?_, ?_⟩ <;> funext first second <;>
    exact eq_false List.not_mem_nil

/-- The rows that any writes lead to from an empty queue have a run of the view behind them, and the
events recorded are those of the run. -/
theorem reachable_run {store : QueueStore} (reached : Reachable .empty (QueueStep clock) store) :
    ∃ facts, ViewRun facts store.view ∧ store.events = recordAll clock [] facts := by
  obtain ⟨facts, steps, events⟩ := reachable_written reached
  rw [view_empty] at steps
  exact ⟨facts, steps, events⟩

end QueueStore

end Dagq.Queue
