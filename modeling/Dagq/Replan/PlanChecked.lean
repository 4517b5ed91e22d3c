/-
This file reads what a plan without problems says, rule by rule: each item is held
by an item of a child that is pending or deleted on a person's answer; a child waits
for the predecessors that have not ended, and for nothing that waits for the task;
each successor is given children to wait for.
-/

import Dagq.Replan.CheckPlan

namespace Dagq.Replan

open Dagq.Lib Dagq.Queue

theorem flatMap_pushIf_eq_nil {Item : Type} {list : List Item} {found : Item → Bool}
    {code : Item → PlanProblemCode} {task : Item → Option Nat} {reason : Item → String}
    (isNil : (list.flatMap fun item => pushIf (found item) (code item) (task item) (reason item)) =
      []) {item : Item} (member : item ∈ list) : found item = false :=
  pushIf_eq_nil.mp (List.flatMap_eq_nil_iff.mp isNil item member)

/-! ### The items -/

/-- A mapping without problems, of an item the task has. -/
structure CleanMapping (ctx : PlanContext) (children : List Nat)
    (items : Ordered Nat AcceptanceItem) (mapping : PlanMapping) : Prop where
  item : ∃ item, items.get? mapping.ordinal = some item ∧ item.hash = mapping.hash ∧
    checkDisposition ctx mapping item = []
  held : checkHeld ctx children mapping = []

/-- A mapping read without a problem is clean, of an item not mapped before. -/
theorem checkMapping_eq_nil {ctx : PlanContext} {children : List Nat}
    {items : Ordered Nat AcceptanceItem} {mapped : Mapped} {mapping : PlanMapping}
    (isNil : (checkMapping ctx children items mapped mapping).problems = []) :
    mapped.problems = [] ∧ CleanMapping ctx children items mapping ∧
      mapping.ordinal ∉ mapped.seen ∧
      (checkMapping ctx children items mapped mapping).seen = mapping.ordinal :: mapped.seen := by
  cases found : items.get? mapping.ordinal with
  | none =>
    simp only [checkMapping, found] at isNil
    exact absurd (List.append_eq_nil_iff.mp isNil).2 (List.cons_ne_nil _ _)
  | some item =>
    by_cases again : mapping.ordinal ∈ mapped.seen
    · simp only [checkMapping, found, List.contains_iff_mem.mpr again, if_true] at isNil
      exact absurd (List.append_eq_nil_iff.mp (List.append_eq_nil_iff.mp isNil).2).2
        (List.cons_ne_nil _ _)
    · have isNew : mapped.seen.contains mapping.ordinal ≠ true :=
        fun contains => again (List.contains_iff_mem.mp contains)
      simp only [checkMapping, found, if_neg isNew] at isNil ⊢
      obtain ⟨isNone, rules⟩ := List.append_eq_nil_iff.mp isNil
      obtain ⟨staleAndHeld, disposition⟩ := List.append_eq_nil_iff.mp rules
      obtain ⟨stale, held⟩ := List.append_eq_nil_iff.mp staleAndHeld
      have sameHash : item.hash = mapping.hash := by simpa using stale
      exact ⟨isNone, ⟨⟨item, found, sameHash, disposition⟩, held⟩, again, trivial⟩

/-- The mappings read without problems: each is clean, and no item is mapped twice. -/
theorem foldl_checkMapping {ctx : PlanContext} {children : List Nat}
    {items : Ordered Nat AcceptanceItem} {mappings : List PlanMapping} {mapped : Mapped}
    (isNil : (mappings.foldl (checkMapping ctx children items) mapped).problems = []) :
    mapped.problems = [] ∧ (∀ mapping ∈ mappings, CleanMapping ctx children items mapping) ∧
      (mappings.map PlanMapping.ordinal).Nodup ∧
      (∀ mapping ∈ mappings, mapping.ordinal ∉ mapped.seen) ∧
      ∀ ordinal, ordinal ∈ (mappings.foldl (checkMapping ctx children items) mapped).seen ↔
        ordinal ∈ mapped.seen ∨ ordinal ∈ mappings.map PlanMapping.ordinal := by
  induction mappings generalizing mapped with
  | nil => exact ⟨isNil, nofun, List.nodup_nil, nofun, fun _ => by simp⟩
  | cons mapping rest inductionHypothesis =>
    rw [List.foldl_cons] at isNil ⊢
    obtain ⟨firstNil, clean, distinct, unseen, seen⟩ := inductionHypothesis isNil
    obtain ⟨isNone, firstClean, isNew, isSeen⟩ := checkMapping_eq_nil firstNil
    rw [isSeen] at unseen seen
    refine ⟨isNone, ?_, ?_, ?_, fun ordinal => ?_⟩
    · intro other member
      rcases List.mem_cons.mp member with rfl | inRest
      · exact firstClean
      · exact clean other inRest
    · rw [List.map_cons, List.nodup_cons]
      refine ⟨fun inRest => ?_, distinct⟩
      obtain ⟨other, member, sameOrdinal⟩ := List.mem_map.mp inRest
      exact unseen other member (sameOrdinal ▸ List.mem_cons_self)
    · intro other member isSeenBefore
      rcases List.mem_cons.mp member with rfl | inRest
      · exact isNew isSeenBefore
      · exact unseen other inRest (List.mem_cons_of_mem _ isSeenBefore)
    · rw [seen ordinal, List.mem_cons, List.map_cons, List.mem_cons]
      tauto

/-- The item is held by an item of a child of the plan that is pending. -/
def HeldBy (plan : ReplacementPlan) (ctx : PlanContext) (item : AcceptanceItem) : Prop :=
  ∃ mapping ∈ plan.mappings, mapping.ordinal = item.ordinal ∧ mapping.hash = item.hash ∧
    ∃ held ∈ mapping.children, held.taskId ∈ plan.childIds ∧
      ∃ task, ctx.tasks.get? held.taskId = some task ∧ pending task.status = true ∧
        ∃ childItem ∈ task.acceptance.items, childItem.ordinal = held.ordinal

/-- The item is deleted under a person's answer to a scope ask about the operation, which is the
item's word among the options offered. -/
def DeletedBy (plan : ReplacementPlan) (ctx : PlanContext) (item : AcceptanceItem) : Prop :=
  ∃ mapping ∈ plan.mappings, mapping.ordinal = item.ordinal ∧ mapping.hash = item.hash ∧
    mapping.disposition = .deleted ∧
      ∃ ask authority, mapping.authorityAskId = some ask ∧
        ctx.authorities.get? ask = some authority ∧ authority.aboutOperation = true ∧
        authority.scope = true ∧ authority.answeredByPerson = true ∧
        trim authority.answer = deletionToken item ∧ deletionToken item ∈ authority.options

theorem authorized_iff {ctx : PlanContext} {mapping : PlanMapping} {item : AcceptanceItem} :
    authorized ctx mapping item = true ↔
      ∃ ask authority, mapping.authorityAskId = some ask ∧
        ctx.authorities.get? ask = some authority ∧ authority.aboutOperation = true ∧
        authority.scope = true ∧ authority.answeredByPerson = true ∧
        trim authority.answer = deletionToken item ∧ deletionToken item ∈ authority.options := by
  unfold authorized approvesDeletion
  simp only [Option.any_eq_true, Option.bind_eq_some_iff, Bool.and_eq_true, beq_iff_eq,
    List.contains_iff_mem]
  constructor
  · rintro ⟨authority, ⟨ask, isAsk, isAuthority⟩, ⟨⟨about, scope⟩, byPerson⟩, isToken, offered⟩
    exact ⟨ask, authority, isAsk, isAuthority, about, scope, byPerson, isToken, offered⟩
  · rintro ⟨ask, authority, isAsk, isAuthority, about, scope, byPerson, isToken, offered⟩
    exact ⟨authority, ⟨ask, isAsk, isAuthority⟩, ⟨⟨about, scope⟩, byPerson⟩, isToken, offered⟩

/-- A child of a plan without problems is there, and pending. -/
theorem child_of_clean {ctx : PlanContext} {children : List Nat}
    (isNil : checkChildren ctx children = []) {child : Nat} (member : child ∈ children) :
    child ≠ ctx.operation.taskId ∧
      ∃ task, ctx.tasks.get? child = some task ∧ pending task.status = true := by
  obtain ⟨rules, _⟩ := List.append_eq_nil_iff.mp isNil
  obtain ⟨_, each⟩ := List.append_eq_nil_iff.mp rules
  have ofChild := List.flatMap_eq_nil_iff.mp each child member
  unfold checkChild at ofChild
  obtain ⟨originalAndMember, ofTask⟩ := List.append_eq_nil_iff.mp ofChild
  obtain ⟨original, _⟩ := List.append_eq_nil_iff.mp originalAndMember
  refine ⟨by simpa using original, ?_⟩
  cases found : ctx.tasks.get? child with
  | none =>
    rw [found] at ofTask
    cases ofTask
  | some task =>
    rw [found] at ofTask
    obtain ⟨_, notPending⟩ := List.append_eq_nil_iff.mp ofTask
    exact ⟨task, rfl, by simpa using notPending⟩

/-- Every item of the task is held by a child's or deleted on a person's answer, and never both. -/
theorem items_of_clean {plan : ReplacementPlan} {ctx : PlanContext}
    (childrenNil : checkChildren ctx (taskSet plan.childIds) = [])
    (itemsNil : checkItems plan ctx (taskSet plan.childIds) = []) {item : AcceptanceItem}
    (member : item ∈ ctx.operation.conditions.acceptance.items) :
    (HeldBy plan ctx item ∨ DeletedBy plan ctx item) ∧
      ¬ (HeldBy plan ctx item ∧ DeletedBy plan ctx item) := by
  obtain ⟨mappedRules, _⟩ := List.append_eq_nil_iff.mp itemsNil
  obtain ⟨mappingsNil, unmapped⟩ := List.append_eq_nil_iff.mp mappedRules
  obtain ⟨_, clean, distinct, _, seen⟩ := foldl_checkMapping mappingsNil
  have found := get?_itemsByOrdinal ctx.operation.conditions.acceptance.nodup member
  -- the item is mapped, and once
  have isSeen := flatMap_pushIf_eq_nil unmapped (Ordered.get?_eq_some_iff.mp found)
  rw [Bool.not_eq_false', List.contains_iff_mem, seen] at isSeen
  obtain ⟨mapping, isMapping, sameOrdinal⟩ := List.mem_map.mp (isSeen.resolve_left nofun)
  obtain ⟨⟨mappedItem, isFound, sameHash, disposition⟩, held⟩ := clean mapping isMapping
  rw [sameOrdinal, found] at isFound
  cases isFound
  have once : ∀ other ∈ plan.mappings, other.ordinal = item.ordinal → other = mapping := by
    intro other isOther sameItem
    exact List.inj_on_of_nodup_map distinct isOther isMapping (sameItem.trans sameOrdinal.symm)
  unfold checkDisposition at disposition
  by_cases deletes : mapping.disposition = .deleted
  · rw [if_pos deletes] at disposition
    obtain ⟨noChildren, isAuthorized⟩ := List.append_eq_nil_iff.mp disposition
    have isEmpty : mapping.children = [] := by simpa using noChildren
    have byPerson : authorized ctx mapping item = true := by simpa using isAuthorized
    refine ⟨Or.inr ⟨mapping, isMapping, sameOrdinal, sameHash.symm, deletes,
      authorized_iff.mp byPerson⟩, ?_⟩
    rintro ⟨⟨other, isOther, sameItem, _, child, isChild, _⟩, _⟩
    rw [once other isOther sameItem, isEmpty] at isChild
    cases isChild
  · rw [if_neg deletes] at disposition
    obtain ⟨someChild, _⟩ := List.append_eq_nil_iff.mp disposition
    have nonempty : mapping.children ≠ [] := by simpa using someChild
    obtain ⟨child, isChild⟩ := List.exists_mem_of_ne_nil _ nonempty
    have isHeld := flatMap_pushIf_eq_nil held isChild
    rw [Bool.not_eq_false'] at isHeld
    unfold holds at isHeld
    rw [Bool.and_eq_true, List.contains_iff_mem] at isHeld
    obtain ⟨isOfPlan, hasItem⟩ := isHeld
    obtain ⟨_, task, isTask, isPending⟩ := child_of_clean childrenNil isOfPlan
    rw [isTask, Option.any_some, List.any_eq_true] at hasItem
    obtain ⟨childItem, isItem, sameNumber⟩ := hasItem
    refine ⟨Or.inl ⟨mapping, isMapping, sameOrdinal, sameHash.symm, child, isChild,
      mem_taskSet.mp isOfPlan, task, isTask, isPending, childItem, isItem,
      beq_iff_eq.mp sameNumber⟩, ?_⟩
    rintro ⟨_, other, isOther, sameItem, _, isDeleted, _⟩
    rw [once other isOther sameItem] at isDeleted
    exact deletes isDeleted

/-! ### What the children wait for -/

/-- A child of a plan without problems waits for what the task waits for, and for nothing that
waits for the task. -/
theorem dependency_of_clean {ctx : PlanContext} {children : List Nat}
    (isNil : checkDependencies ctx children = []) {child : Nat} (member : child ∈ children)
    {task : PlanTask} (found : ctx.tasks.get? child = some task) :
    (∀ predecessor ∈ ctx.operation.conditions.predecessors, ended ctx predecessor = false →
      predecessor ∈ task.dependsOn) ∧
      ∀ on ∈ task.dependsOn, on ≠ ctx.operation.taskId ∧ on ∉ ctx.downstream := by
  obtain ⟨each, _⟩ := List.append_eq_nil_iff.mp isNil
  have ofChild := List.flatMap_eq_nil_iff.mp each child member
  unfold checkDependency at ofChild
  rw [found] at ofChild
  obtain ⟨dropped, cycles⟩ := List.append_eq_nil_iff.mp ofChild
  refine ⟨fun predecessor isPredecessor goesOn => ?_, fun on isOn => ?_⟩
  · have kept := flatMap_pushIf_eq_nil dropped isPredecessor
    rw [goesOn] at kept
    simpa using kept
  · simpa using flatMap_pushIf_eq_nil cycles isOn

/-! ### The successors -/

/-- The children the plan names for a successor. -/
def needsOf (plan : ReplacementPlan) (successor : Nat) : List Nat :=
  ((plan.successors.find? fun listed => listed.taskId == successor).map PlanSuccessor.needs).getD []

theorem checkSuccessor_eq_nil {ctx : PlanContext} {children : List Nat}
    {listed : List Nat × List PlanProblem} {successor : PlanSuccessor}
    (isNil : (checkSuccessor ctx children listed successor).2 = []) :
    listed.2 = [] ∧ checkNeeds children successor = [] ∧
      (checkSuccessor ctx children listed successor).1 = successor.taskId :: listed.1 := by
  by_cases unknown : (!ctx.operation.conditions.successors.contains successor.taskId ||
      listed.1.contains successor.taskId) = true
  · simp only [checkSuccessor, if_pos unknown] at isNil
    exact absurd (List.append_eq_nil_iff.mp isNil).2 (List.cons_ne_nil _ _)
  · simp only [checkSuccessor, if_neg unknown] at isNil ⊢
    obtain ⟨isNone, rules⟩ := List.append_eq_nil_iff.mp isNil
    exact ⟨isNone, (List.append_eq_nil_iff.mp rules).1, trivial⟩

theorem foldl_checkSuccessor {ctx : PlanContext} {children : List Nat}
    {successors : List PlanSuccessor} {listed : List Nat × List PlanProblem}
    (isNil : (successors.foldl (checkSuccessor ctx children) listed).2 = []) :
    listed.2 = [] ∧ (∀ successor ∈ successors, checkNeeds children successor = []) ∧
      ∀ id, id ∈ (successors.foldl (checkSuccessor ctx children) listed).1 ↔
        id ∈ listed.1 ∨ id ∈ successors.map PlanSuccessor.taskId := by
  induction successors generalizing listed with
  | nil => exact ⟨isNil, nofun, fun _ => by simp⟩
  | cons successor rest inductionHypothesis =>
    rw [List.foldl_cons] at isNil ⊢
    obtain ⟨firstNil, needs, isListed⟩ := inductionHypothesis isNil
    obtain ⟨isNone, firstNeeds, first⟩ := checkSuccessor_eq_nil firstNil
    refine ⟨isNone, fun other member => ?_, fun id => ?_⟩
    · rcases List.mem_cons.mp member with rfl | inRest
      · exact firstNeeds
      · exact needs other inRest
    · rw [isListed id, first, List.mem_cons, List.map_cons, List.mem_cons]
      tauto

/-- A successor is given one or more children of the plan. -/
theorem needs_of_clean {plan : ReplacementPlan} {ctx : PlanContext} {children : List Nat}
    (isNil : checkSuccessors plan ctx children = []) {successor : Nat}
    (member : successor ∈ ctx.operation.conditions.successors) :
    needsOf plan successor ≠ [] ∧ ∀ child ∈ needsOf plan successor, child ∈ children := by
  obtain ⟨listedNil, unmapped⟩ := List.append_eq_nil_iff.mp isNil
  obtain ⟨_, needs, isListed⟩ := foldl_checkSuccessor listedNil
  have listed := flatMap_pushIf_eq_nil unmapped (mem_taskSet.mpr member)
  rw [Bool.not_eq_false', List.contains_iff_mem, isListed] at listed
  obtain ⟨entry, isEntry, isSuccessor⟩ := List.mem_map.mp (listed.resolve_left nofun)
  have isFound : (plan.successors.find? fun listed => listed.taskId == successor).isSome := by
    rw [List.find?_isSome]
    exact ⟨entry, isEntry, beq_iff_eq.mpr isSuccessor⟩
  obtain ⟨first, isFirst⟩ := Option.isSome_iff_exists.mp isFound
  have clean := needs first (List.mem_of_find?_eq_some isFirst)
  have isNeeds : needsOf plan successor = first.needs := by rw [needsOf, isFirst]; rfl
  unfold checkNeeds at clean
  by_cases unclear : ((taskSet first.needs).isEmpty ||
      !(taskSet first.needs).all (children.contains ·)) = true
  · rw [if_pos unclear] at clean
    cases clean
  · rw [Bool.or_eq_true, not_or, Bool.not_eq_true', Bool.not_eq_false, List.all_eq_true] at unclear
    rw [isNeeds]
    refine ⟨fun isEmpty => unclear.1 (by rw [isEmpty]; rfl), fun child isChild => ?_⟩
    exact List.contains_iff_mem.mp (unclear.2 child (mem_taskSet.mpr isChild))

end Dagq.Replan
