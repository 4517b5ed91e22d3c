/-
This file proves what the local rules of a replacement plan say together of the
tasks once the children stand in for the task: nothing comes to wait for itself, a
successor still waits for what the task waited for, and no acceptance item is lost.
The rules see only what a child waits for directly; that nothing further on waits
for the task is theirs by the graph. They do not see that a successor the operation
fixed may have stopped waiting for the task since.
-/

import Dagq.Lib.Rewire
import Dagq.Replan.PlanChecked

namespace Dagq.Replan

open Dagq.Lib Dagq.Queue Relation

/-- What is read of the tasks is as they are: what each waits for, and what waits for the task. -/
structure ReadsGraph (ctx : PlanContext) (waits : Nat → Nat → Prop) : Prop where
  acyclic : Acyclic waits
  downstream : ∀ task, task ∈ ctx.downstream ↔ TransGen waits task ctx.operation.taskId
  direct : ∀ id task, ctx.tasks.get? id = some task → ∀ on, on ∈ task.dependsOn ↔ waits id on

/-- The tasks once these successors wait for the children the plan names for them. -/
def replaced (plan : ReplacementPlan) (ctx : PlanContext) (waits : Nat → Nat → Prop)
    (moved : Nat → Prop) : Nat → Nat → Prop :=
  rewired waits ctx.operation.taskId moved fun successor => {child | child ∈ needsOf plan successor}

/-- The rules of a plan without problems. -/
structure Checked (plan : ReplacementPlan) (ctx : PlanContext) : Prop where
  children : checkChildren ctx (taskSet plan.childIds) = []
  items : checkItems plan ctx (taskSet plan.childIds) = []
  dependencies : checkDependencies ctx (taskSet plan.childIds) = []
  successors : checkSuccessors plan ctx (taskSet plan.childIds) = []

theorem checked_of_checkPlan {plan : ReplacementPlan} {ctx : PlanContext}
    (passes : checkPlan plan ctx = []) : Checked plan ctx := by
  obtain ⟨rules, successors⟩ := List.append_eq_nil_iff.mp passes
  obtain ⟨rules, dependencies⟩ := List.append_eq_nil_iff.mp rules
  obtain ⟨rules, _⟩ := List.append_eq_nil_iff.mp rules
  obtain ⟨rules, _⟩ := List.append_eq_nil_iff.mp rules
  obtain ⟨rules, items⟩ := List.append_eq_nil_iff.mp rules
  exact ⟨(List.append_eq_nil_iff.mp rules).2, items, dependencies, successors⟩

/-- A child of a plan without problems neither is the task nor waits for it. -/
theorem Checked.free {plan : ReplacementPlan} {ctx : PlanContext} {waits : Nat → Nat → Prop}
    (checked : Checked plan ctx) (reads : ReadsGraph ctx waits) {child : Nat}
    (member : child ∈ taskSet plan.childIds) : Free waits ctx.operation.taskId child := by
  obtain ⟨other, task, found, _⟩ := child_of_clean checked.children member
  refine free_of_next other fun second edge => ?_
  have isDirect := (reads.direct child task found second).mpr edge
  obtain ⟨isOther, outside⟩ :=
    (dependency_of_clean checked.dependencies member found).2 second isDirect
  exact ⟨isOther, fun later => outside ((reads.downstream second).mpr later)⟩

/-- Under a plan without problems, once the successors that the operation fixed and that still wait
for the task wait for the children named for them instead: no task waits for itself; each of them
waits for every predecessor of the task that has not ended; and each acceptance item is held by a
pending child's or deleted on a person's answer, never both. -/
theorem replaced_of_checkPlan {plan : ReplacementPlan} {ctx : PlanContext}
    {waits : Nat → Nat → Prop} (reads : ReadsGraph ctx waits) (passes : checkPlan plan ctx = []) :
    let op := ctx.operation
    let after := replaced plan ctx waits fun task =>
      task ∈ op.conditions.successors ∧ waits task op.taskId
    Acyclic after ∧
      (∀ successor ∈ op.conditions.successors, waits successor op.taskId →
        ∀ predecessor ∈ op.conditions.predecessors, ended ctx predecessor = false →
          TransGen after successor predecessor) ∧
      ∀ item ∈ op.conditions.acceptance.items,
        (HeldBy plan ctx item ∨ DeletedBy plan ctx item) ∧
          ¬ (HeldBy plan ctx item ∧ DeletedBy plan ctx item) := by
  intro op after
  have checked := checked_of_checkPlan passes
  have movedWait : ∀ task, task ∈ op.conditions.successors ∧ waits task op.taskId →
      TransGen waits task op.taskId := fun task moved => TransGen.single moved.2
  have free : ∀ task, task ∈ op.conditions.successors ∧ waits task op.taskId →
      ∀ child ∈ needsOf plan task, Free waits op.taskId child := by
    intro task moved child isNeeded
    exact checked.free reads ((needs_of_clean checked.successors moved.1).2 child isNeeded)
  refine ⟨acyclic_rewired reads.acyclic movedWait free, ?_, fun item member =>
    items_of_clean checked.children checked.items member⟩
  intro successor isFixed stillWaits predecessor isPredecessor goesOn
  obtain ⟨nonempty, areChildren⟩ := needs_of_clean checked.successors isFixed
  obtain ⟨child, isNeeded⟩ := List.exists_mem_of_ne_nil _ nonempty
  obtain ⟨_, task, found, _⟩ := child_of_clean checked.children (areChildren child isNeeded)
  have isDirect := (dependency_of_clean checked.dependencies (areChildren child isNeeded)
    found).1 predecessor isPredecessor goesOn
  exact waits_rewired movedWait ⟨isFixed, stillWaits⟩ isNeeded
    (free successor ⟨isFixed, stillWaits⟩ child isNeeded)
    ((reads.direct child task found predecessor).mp isDirect)

/-! ### A plan of one child -/

/-- The operation of task 10 in a run, which fixed one item. -/
def oneItem (predecessors successors : List Nat) : PlannedOperation where
  id := 1
  taskId := 10
  runId := "run"
  goalId := none
  origin := .manual
  status := .planning
  statusReason := none
  generation := 2
  returnPhase := none
  reason := "too big"
  diagnosis := {}
  snapshotId := some "s"
  requestId := none
  proposalId := none
  requestedBy := "inbox"
  requestedById := "inbox"
  updatedAt := 0
  closedAt := none
  conditions := ⟨⟨[⟨1, "it holds", "hash"⟩], rfl⟩, [], ["cargo test"], some [], predecessors,
    successors⟩
  taskVersion := "version"
  goalAcceptanceVersion := none

def oneItemTask (status : TaskStatus) (dependsOn : List Nat) : PlanTask :=
  ⟨status, none, ⟨[⟨1, "it holds", "hash"⟩], rfl⟩, ["cargo test"], [], [], dependsOn⟩

/-- The plan that has task 11 hold the item, and task 20 wait for it. -/
def oneChild : ReplacementPlan where
  operationId := 1
  taskVersion := "version"
  goalAcceptanceVersion := none
  rationale := "one part"
  children := [⟨11, .base, none⟩]
  mappings := [⟨1, "hash", .redistribute, [⟨11, 1⟩], none, none⟩]
  successors := [⟨20, [11], none⟩]

/-- Task 20 waits for task 10, which waits for task 5, as the child does. -/
def waiting : PlanContext where
  operation := oneItem [5] [20]
  taskVersionNow := "version"
  goalAcceptanceVersionNow := none
  members := [11]
  tasks := ((Ordered.empty.insert 5 (oneItemTask .ready [])).insert 11
    (oneItemTask .submitted [5])).insert 20 (oneItemTask .draft [10])
  downstream := [20]
  authorities := .empty

/-- Task 20 waits for task 10 no more, and the child waits for task 20. -/
def waitingNoMore : PlanContext where
  operation := oneItem [] [20]
  taskVersionNow := "version"
  goalAcceptanceVersionNow := none
  members := [11]
  tasks := (Ordered.empty.insert 11 (oneItemTask .submitted [20])).insert 20
    (oneItemTask .draft [])
  downstream := []
  authorities := .empty

theorem waiting_reads :
    ReadsGraph waiting fun task on => (task, on) ∈ [(10, 5), (20, 10), (11, 5)] where
  acyclic := acyclic_of_rank (fun task => if task = 20 then 2 else if task = 5 then 0 else 1) <| by
    intro first second edge
    fin_cases edge <;> decide
  downstream task := by
    show task ∈ [20] ↔ TransGen _ task 10
    constructor
    · intro member
      rw [List.mem_singleton.mp member]
      exact TransGen.single (by decide)
    · intro path
      obtain ⟨last, before, edge⟩ := TransGen.tail'_iff.mp path
      have isLast : last = 20 := by simpa using edge
      subst isLast
      rcases reflTransGen_iff_eq_or_transGen.mp before with isTask | further
      · exact List.mem_singleton.mpr isTask.symm
      · obtain ⟨other, _, onto⟩ := TransGen.tail'_iff.mp further
        simp at onto
  direct id task found on := by
    simp only [waiting, Ordered.get?_insert, Ordered.get?_empty] at found
    split_ifs at found with is20 is11 is5 <;> cases found
    · simp [oneItemTask, is20]
    · simp [oneItemTask, is11]
    · simp [oneItemTask, is5]

theorem waitingNoMore_reads :
    ReadsGraph waitingNoMore fun task on => (task, on) ∈ [(11, 20)] where
  acyclic := acyclic_of_rank (fun task => if task = 11 then 1 else 0) <| by
    intro first second edge
    fin_cases edge
    decide
  downstream task := by
    show task ∈ [] ↔ TransGen _ task 10
    refine ⟨nofun, fun path => ?_⟩
    obtain ⟨last, _, edge⟩ := TransGen.tail'_iff.mp path
    simp at edge
  direct id task found on := by
    simp only [waitingNoMore, Ordered.get?_insert, Ordered.get?_empty] at found
    split_ifs at found with is20 is11 <;> cases found
    · simp [oneItemTask, is20]
    · simp [oneItemTask, is11]

/-- The plan of one child passes where the child waits for one task, which is no child. -/
theorem oneChild_passes {ctx : PlanContext} {on : Nat} (other : on ≠ 11)
    (isOn : (dependsOn ctx 11).reverse = [on])
    (dependency : checkDependency ctx 11 = [])
    (rest : checkOperation oneChild ctx ++ checkChildren ctx [11] ++
      checkItems oneChild ctx [11] ++ checkChecks ctx [11] ++ checkCarry oneChild ++
      checkSuccessors oneChild ctx [11] = []) : checkPlan oneChild ctx = [] := by
  have loops : waitsForItself ctx [11] 11 (dependsOn ctx 11).reverse [] = false := by
    have notChild : ¬ (on ∈ [11] ∧ on ∉ ([] : List Nat)) :=
      fun isChild => other (List.mem_singleton.mp isChild.1)
    rw [isOn, waitsForItself, if_neg other, dif_neg notChild, waitsForItself]
  have dependencies : checkDependencies ctx [11] = [] := by
    unfold checkDependencies
    rw [List.flatMap_singleton, List.flatMap_singleton, loops, dependency]
    rfl
  show checkOperation oneChild ctx ++ checkChildren ctx [11] ++
    checkItems oneChild ctx [11] ++ checkChecks ctx [11] ++ checkCarry oneChild ++
    checkDependencies ctx [11] ++ checkSuccessors oneChild ctx [11] = []
  rw [dependencies, List.append_nil]
  exact rest

theorem replaced_of_checkPlan_waiting :
    let after := replaced oneChild waiting (fun task on => (task, on) ∈ [(10, 5), (20, 10), (11, 5)])
      fun task => task ∈ [20] ∧ (task, 10) ∈ [(10, 5), (20, 10), (11, 5)]
    Acyclic after ∧ TransGen after 20 5 ∧
      (HeldBy oneChild waiting ⟨1, "it holds", "hash"⟩ ∨
        DeletedBy oneChild waiting ⟨1, "it holds", "hash"⟩) := by
  have passes : checkPlan oneChild waiting = [] :=
    oneChild_passes (by decide : 5 ≠ 11) (by decide) (by decide) (by decide)
  obtain ⟨acyclic, waitsStill, items⟩ := replaced_of_checkPlan waiting_reads passes
  exact ⟨acyclic, waitsStill 20 (by decide) (by decide) 5 (by decide) (by decide),
    (items ⟨1, "it holds", "hash"⟩ List.mem_cons_self).1⟩

/-- A successor the operation fixed that stopped waiting for the task may be waited for by a child:
were it to wait for the child, both would wait for themselves. -/
theorem fixed_successor_closes_cycle : ∃ plan ctx waits, ReadsGraph ctx waits ∧
    checkPlan plan ctx = [] ∧ ¬ Acyclic (replaced plan ctx waits fun task =>
      task ∈ ctx.operation.conditions.successors) := by
  refine ⟨oneChild, waitingNoMore, _, waitingNoMore_reads, ?_, fun acyclic => ?_⟩
  · exact oneChild_passes (by decide : 20 ≠ 11) (by decide) (by decide) (by decide)
  · have onChild : replaced oneChild waitingNoMore (fun task on => (task, on) ∈ [(11, 20)])
        (fun task => task ∈ waitingNoMore.operation.conditions.successors) 20 11 :=
      Or.inr ⟨by decide, by decide⟩
    have onSuccessor : replaced oneChild waitingNoMore (fun task on => (task, on) ∈ [(11, 20)])
        (fun task => task ∈ waitingNoMore.operation.conditions.successors) 11 20 :=
      Or.inl ⟨by decide, fun both => absurd both.2 (by decide)⟩
    exact acyclic 20 ((TransGen.single onChild).tail onSuccessor)

end Dagq.Replan
