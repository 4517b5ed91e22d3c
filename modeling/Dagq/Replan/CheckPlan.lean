/-
This file models the one judgment of a replacement plan: rule by rule, the
problems of the plan in what was read of the queue, with their texts.
-/

import Dagq.Replan.Plan

namespace Dagq.Replan

open Dagq.Lib Dagq.Queue

/-! ### Texts -/

/-- A number that may be missing, as it is debugged within a type of that name, if any. -/
def debugOption (show_ : Nat → String) : Option Nat → String
  | none => "None"
  | some value => s!"Some({show_ value})"

def debugGoal (goal : Nat) : String := s!"GoalId({goal})"

def debugTasks (tasks : List Nat) : String :=
  "[" ++ ", ".intercalate (tasks.map fun task => s!"TaskId({task})") ++ "]"

def debugVersion : Option Int → String
  | none => "None"
  | some version => s!"Some({version})"

/-- The problem, where it is found. -/
def pushIf (found : Bool) (code : PlanProblemCode) (task : Option Nat) (reason : String) :
    List PlanProblem :=
  if found then [⟨code, task, reason⟩] else []

@[simp]
theorem pushIf_eq_nil {found : Bool} {code : PlanProblemCode} {task : Option Nat}
    {reason : String} : pushIf found code task reason = [] ↔ found = false := by
  unfold pushIf
  cases found <;> simp

/-! ### The operation and the children -/

/-- The rules of the operation, of the versions and of the rationale. -/
def checkOperation (plan : ReplacementPlan) (ctx : PlanContext) : List PlanProblem :=
  let op := ctx.operation
  pushIf (plan.operationId != op.id) .operationMismatch none
      s!"the plan names replan operation {plan.operationId}, but the proposal replaces task {op.taskId} of operation {op.id}" ++
    pushIf (!op.status.handsToPlanner) .notWithPlanner none
      s!"replan operation {op.id} is {op.status.asStr}, not with its planner" ++
    pushIf (plan.taskVersion != op.taskVersion || ctx.taskVersionNow != op.taskVersion)
      .versionStale none
      s!"the plan was made on the conditions of task {op.taskId} at version {plan.taskVersion}, the operation fixed {op.taskVersion} and they are {ctx.taskVersionNow} now" ++
    pushIf (plan.goalAcceptanceVersion != op.goalAcceptanceVersion ||
        ctx.goalAcceptanceVersionNow != op.goalAcceptanceVersion) .versionStale none
      s!"the plan was made on goal acceptance version {debugVersion plan.goalAcceptanceVersion}, the operation fixed {debugVersion op.goalAcceptanceVersion} and it is {debugVersion ctx.goalAcceptanceVersionNow} now: the goal's acceptance is not the planner's to change" ++
    pushIf (trim plan.rationale == "") .blankRationale none
      "the plan gives no rationale for its choice"

def pending : TaskStatus → Bool
  | .draft | .submitted => true
  | _ => false

/-- The rules of one child: a new task of the proposal and of the goal, not started yet. -/
def checkChild (ctx : PlanContext) (child : Nat) : List PlanProblem :=
  let op := ctx.operation
  pushIf (child == op.taskId) .originalAsChild (some child)
      s!"task {child} is the task being replaced; its children are new tasks" ++
    pushIf (!ctx.members.contains child) .childNotMember (some child)
      s!"child task {child} is not a task of the proposal" ++
    (match ctx.tasks.get? child with
    | none => [⟨.childUnknown, some child, s!"child task {child} does not exist"⟩]
    | some task =>
      pushIf (task.goalId != op.goalId) .goalMismatch (some child)
          s!"child task {child} belongs to goal {debugOption debugGoal task.goalId}, the task being replaced to goal {debugOption debugGoal op.goalId}" ++
        pushIf (!pending task.status) .childNotPending (some child)
          s!"child task {child} is {task.status.asStr}; a child is a task the replacement has not started (draft or submitted), so map what it held to the others")

def checkChildren (ctx : PlanContext) (children : List Nat) : List PlanProblem :=
  pushIf children.isEmpty .noChildren none
      "the plan names no child task; to continue the run, decline the request with --continue-run" ++
    children.flatMap (checkChild ctx) ++
    ctx.members.flatMap fun member =>
      pushIf (!children.contains member) .memberNotChild (some member)
        s!"task {member} is in the proposal but not a child of the plan; a replacement proposal holds its children only"

/-! ### The items -/

/-- Whether this is an item of a child of the plan. -/
def holds (ctx : PlanContext) (children : List Nat) (held : ChildItem) : Bool :=
  children.contains held.taskId && (ctx.tasks.get? held.taskId).any fun task =>
    task.acceptance.items.any fun item => item.ordinal == held.ordinal

/-- Whether a person's answer to a scope ask about the operation deletes the item. -/
def authorized (ctx : PlanContext) (mapping : PlanMapping) (item : AcceptanceItem) : Bool :=
  (mapping.authorityAskId.bind ctx.authorities.get?).any fun authority =>
    authority.aboutOperation && authority.scope && authority.answeredByPerson &&
      approvesDeletion authority item

/-- Whether a completed task other than the one replaced landed the item. -/
def proven (ctx : PlanContext) (mapping : PlanMapping) : Bool :=
  let landed := mapping.landedTaskId.filter (· != ctx.operation.taskId)
  (landed.bind ctx.tasks.get?).any fun task => task.status == .completed

/-- The rules of how one item goes to the children. -/
def checkDisposition (ctx : PlanContext) (mapping : PlanMapping) (item : AcceptanceItem) :
    List PlanProblem :=
  let ordinal := mapping.ordinal
  if mapping.disposition = .deleted then
    pushIf (!mapping.children.isEmpty) .deletionUnauthorized none
        s!"acceptance item {ordinal} is deleted and held by children at once" ++
      pushIf (!authorized ctx mapping item) .deletionUnauthorized none
        s!"acceptance item {ordinal} is deleted without a person's answer `{deletionToken item}` to a scope ask about the operation (authority_ask_id); ask one with --because scope offering that option, or map it to a child"
  else
    pushIf mapping.children.isEmpty .itemUnmapped none
        s!"acceptance item {ordinal} ({mapping.disposition.asStr}) names no child item that holds it" ++
      pushIf (mapping.disposition == .landed && !proven ctx mapping) .landedUnproven none
        s!"acceptance item {ordinal} is called landed without a completed task that landed it (landed_task_id); the parked run's saved work has not landed"

/-- The rules of one mapping of an item the task has. -/
def checkHeld (ctx : PlanContext) (children : List Nat) (mapping : PlanMapping) :
    List PlanProblem :=
  mapping.children.flatMap fun held =>
    pushIf (!holds ctx children held) .childItemMissing (some held.taskId)
      s!"acceptance item {mapping.ordinal} goes to item {held.ordinal} of task {held.taskId}, which is not an item of a child of the plan"

/-- What was read of the mappings so far. -/
structure Mapped where
  seen : List Nat := []
  holding : List Nat := []
  problems : List PlanProblem := []

def checkMapping (ctx : PlanContext) (children : List Nat) (items : Ordered Nat AcceptanceItem)
    (mapped : Mapped) (mapping : PlanMapping) : Mapped :=
  let op := ctx.operation
  let ordinal := mapping.ordinal
  match items.get? ordinal with
  | none =>
    { mapped with problems := mapped.problems ++ [⟨.itemUnknown, none,
        s!"task {op.taskId} has no acceptance item {ordinal} as the operation fixed it"⟩] }
  | some item =>
    let stale := pushIf (item.hash != mapping.hash) .versionStale none
      s!"acceptance item {ordinal} of task {op.taskId} has hash {item.hash}, the plan names {mapping.hash}"
    if mapped.seen.contains ordinal then
      { mapped with problems := mapped.problems ++ (stale ++ [⟨.itemRepeated, none,
          s!"acceptance item {ordinal} is mapped more than once; list its children in one mapping"⟩]) }
    else
      { seen := ordinal :: mapped.seen
        holding := mapped.holding ++ mapping.children.map ChildItem.taskId
        problems := mapped.problems ++
          (stale ++ checkHeld ctx children mapping ++ checkDisposition ctx mapping item) }

/-- Every item is mapped once, to items of children, or deleted on a person's answer; and every
child holds an item. -/
def checkItems (plan : ReplacementPlan) (ctx : PlanContext) (children : List Nat) :
    List PlanProblem :=
  let op := ctx.operation
  let items := itemsByOrdinal op.conditions.acceptance.items
  let mapped := plan.mappings.foldl (checkMapping ctx children items) {}
  mapped.problems ++
    (items.entries.flatMap fun entry =>
      pushIf (!mapped.seen.contains entry.1) .itemUnmapped none
        s!"acceptance item {entry.1} of task {op.taskId} is mapped to no child and not deleted") ++
    children.flatMap fun child =>
      pushIf (!mapped.holding.contains child) .childHoldsNothing (some child)
        s!"child task {child} holds no acceptance item of task {op.taskId}"

/-! ### Verification, evidence and paths -/

def checkChecks (ctx : PlanContext) (children : List Nat) : List PlanProblem :=
  let conditions := ctx.operation.conditions
  let known := children.filterMap ctx.tasks.get?
  ((conditions.evidence.getD []).flatMap fun check =>
    pushIf (!known.any fun task => task.evidence.contains check) .evidenceDropped none
      s!"no child requires the evidence {check} of the task being replaced") ++
  children.flatMap fun child =>
    match ctx.tasks.get? child with
    | none => []
    | some task =>
      (conditions.verify.flatMap fun command =>
        pushIf (!task.verify.contains command) .verificationWeakened (some child)
          s!"child task {child} does not run the verification `{command}` of the task being replaced") ++
        pushIf task.verify.isEmpty .verificationWeakened (some child)
          s!"child task {child} has no verification command" ++
        pushIf (!conditions.paths.isEmpty && task.paths.isEmpty) .pathsMissing (some child)
          s!"child task {child} declares no paths, while the task being replaced declared them"

/-! ### The saved work -/

/-- The rules of the place a child takes saved work in. -/
def checkOrder (taken : Ordered Nat Nat × List PlanProblem) (child : PlanChild) :
    Ordered Nat Nat × List PlanProblem :=
  if child.carry = .base then taken
  else match child.order with
    | none => (taken.1, taken.2 ++ [⟨.carryUnclear, some child.taskId,
        s!"child task {child.taskId} takes {child.carry.asStr} without the order it takes it in"⟩])
    | some order =>
      let shared := match taken.1.get? order with
        | none => []
        | some other => [⟨.carryUnclear, some child.taskId,
            s!"children {other} and {child.taskId} both take saved work in order {order}"⟩]
      (taken.1.insert order child.taskId, taken.2 ++ shared)

/-- Each saved part goes to one child only, in an order of its own. -/
def checkCarry (plan : ReplacementPlan) : List PlanProblem :=
  let ordered := plan.children.foldl checkOrder (Ordered.empty, [])
  let takers := fun source =>
    (plan.children.filter fun child => child.carry == source).map PlanChild.taskId
  ordered.2 ++
    ([CarrySource.snapshotDiff, .snapshotHead].flatMap fun source =>
      match takers source with
      | first :: second :: rest => [⟨.carryUnclear, some second,
          s!"{source.asStr} goes to children {debugTasks (first :: second :: rest)}: each part of the saved work goes to one child, which the others wait for"⟩]
      | _ => []) ++
    plan.children.zipIdx.flatMap fun child =>
      pushIf ((plan.childIds.take child.2).contains child.1.taskId) .carryUnclear
        (some child.1.taskId) s!"child task {child.1.taskId} is named twice"

/-! ### What the children wait for -/

/-- Whether a task waited for has ended so that nothing waits for it any more. -/
def ended (ctx : PlanContext) (task : Nat) : Bool :=
  (ctx.tasks.get? task).any fun task => task.status == .completed || task.status == .canceled

/-- What a task waits for directly, as far as it was read. -/
def dependsOn (ctx : PlanContext) (task : Nat) : List Nat :=
  ((ctx.tasks.get? task).map PlanTask.dependsOn).getD []

/-- Whether a search through the children comes back to where it started; the last task put on
the stack is looked at first. -/
def waitsForItself (ctx : PlanContext) (children : List Nat) (start : Nat)
    (stack seen : List Nat) : Bool :=
  match stack with
  | [] => false
  | next :: rest =>
    if next = start then true
    else if _ : next ∈ children ∧ next ∉ seen then
      waitsForItself ctx children start ((dependsOn ctx next).reverse ++ rest) (next :: seen)
    else waitsForItself ctx children start rest seen
termination_by ((children.filter (· ∉ seen)).length, stack.length)
decreasing_by
  · -- one more child was seen
    rename_i isNew
    refine Prod.Lex.left _ _ ?_
    have fewer : (children.filter fun child => decide (child ∉ next :: seen)) =
        (children.filter fun child => decide (child ∉ seen)).filter (· ≠ next) := by
      rw [List.filter_filter]
      congr 1
      funext child
      simp
    rw [fewer]
    refine List.length_filter_lt_length_iff_exists.mpr ⟨next, ?_, by simp⟩
    exact List.mem_filter.mpr ⟨isNew.1, decide_eq_true isNew.2⟩
  · exact Prod.Lex.right _ (Nat.lt_succ_self _)

/-- Each child waits for every predecessor of the task that has not ended, and for neither the
task nor what waits for it. -/
def checkDependency (ctx : PlanContext) (child : Nat) : List PlanProblem :=
  let op := ctx.operation
  match ctx.tasks.get? child with
  | none => []
  | some task =>
    (op.conditions.predecessors.flatMap fun predecessor =>
      pushIf (!ended ctx predecessor && !task.dependsOn.contains predecessor)
        .predecessorDropped (some child)
        s!"child task {child} does not wait for task {predecessor}, which the task being replaced waits for") ++
      task.dependsOn.flatMap fun on =>
        pushIf (on == op.taskId || ctx.downstream.contains on) .dependencyCycle (some child)
          s!"child task {child} waits for task {on}, which is the task being replaced or waits for it: the replacement would close a loop"

def checkDependencies (ctx : PlanContext) (children : List Nat) : List PlanProblem :=
  children.flatMap (checkDependency ctx) ++
    children.flatMap fun start =>
      pushIf (waitsForItself ctx children start (dependsOn ctx start).reverse []) .dependencyCycle
        (some start) s!"child task {start} waits for itself through the other children"

/-! ### The successors -/

/-- The rules of the children one successor waits for. -/
def checkNeeds (children : List Nat) (successor : PlanSuccessor) : List PlanProblem :=
  let id := successor.taskId
  let needs := taskSet successor.needs
  if needs.isEmpty || !needs.all (children.contains ·) then
    [⟨.successorNeedsUnclear, some id,
      s!"successor {id} must wait for one or more children of the plan, it names {debugTasks successor.needs}"⟩]
  else
    pushIf (decide (needs.length < children.length) &&
        !successor.reason.any fun reason => trim reason != "") .successorNeedsUnclear (some id)
      s!"successor {id} waits for only some of the children without a reason why the others hold nothing it needs"

/-- A successor has not started; one that ended waits for nothing any more. -/
def checkStarted (ctx : PlanContext) (id : Nat) : List PlanProblem :=
  match ctx.tasks.get? id with
  | none => []
  | some task =>
    pushIf (!task.status.dependenciesEditable && !task.status.isTerminal) .successorStarted
      (some id)
      s!"successor {id} is {task.status.asStr} already: its run is not the replacement's to change"

def checkSuccessor (ctx : PlanContext) (children : List Nat)
    (listed : List Nat × List PlanProblem) (successor : PlanSuccessor) :
    List Nat × List PlanProblem :=
  let op := ctx.operation
  let id := successor.taskId
  if !op.conditions.successors.contains id || listed.1.contains id then
    (listed.1, listed.2 ++ [⟨.successorUnknown, some id,
      s!"task {id} is not a successor of task {op.taskId} as the operation fixed it, or is listed twice"⟩])
  else (id :: listed.1, listed.2 ++ (checkNeeds children successor ++ checkStarted ctx id))

/-- Every successor is listed once with the children it waits for in the task's place. -/
def checkSuccessors (plan : ReplacementPlan) (ctx : PlanContext) (children : List Nat) :
    List PlanProblem :=
  let op := ctx.operation
  let listed := plan.successors.foldl (checkSuccessor ctx children) ([], [])
  listed.2 ++ (taskSet op.conditions.successors).flatMap fun id =>
    pushIf (!listed.1.contains id) .successorUnmapped (some id)
      s!"successor {id} of task {op.taskId} is not given the children it waits for in its place"

/-! ### The judgment -/

/-- The problems of a plan, in the order of the rules: with none it may go to plan review. -/
def checkPlan (plan : ReplacementPlan) (ctx : PlanContext) : List PlanProblem :=
  let children := taskSet plan.childIds
  checkOperation plan ctx ++ checkChildren ctx children ++ checkItems plan ctx children ++
    checkChecks ctx children ++ checkCarry plan ++ checkDependencies ctx children ++
    checkSuccessors plan ctx children

end Dagq.Replan
