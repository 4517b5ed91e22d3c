/-
This file models the plan that replaces a task by children: what it names, what
its check reads of the queue, and which answer approves the deletion of an
acceptance item. The hash of a text is a parameter.
-/

import Dagq.Lib.Ordered
import Dagq.Replan.Operation

namespace Dagq.Replan

open Dagq.Lib Dagq.Queue

/-! ### The conditions an operation fixed -/

/-- One item of an acceptance: its place among the lines that say something, and its hash. -/
structure AcceptanceItem where
  ordinal : Nat
  text : String
  hash : String
  deriving DecidableEq, Repr

/-- The items of an acceptance, numbered from 1. -/
structure Acceptance where
  items : List AcceptanceItem
  numbered : items.map AcceptanceItem.ordinal = List.range' 1 items.length

/-- The items of a text, one per line that says something; a line's end is white space, which
goes. -/
def acceptanceItems (sha256 : String → String) (acceptance : String) : Acceptance where
  items := (((acceptance.splitOn "\n").map trim).filter (· ≠ "")).zipIdx.map fun line =>
    ⟨line.2 + 1, line.1, sha256 line.1⟩
  numbered := by
    rw [List.map_map, List.length_map, List.length_zipIdx]
    have ordinals : (AcceptanceItem.ordinal ∘ fun line : String × Nat =>
        (⟨line.2 + 1, line.1, sha256 line.1⟩ : AcceptanceItem)) = (· + 1) ∘ Prod.snd := rfl
    rw [ordinals, ← List.map_map, List.zipIdx_map_snd, List.range'_eq_map_range,
      List.range'_eq_map_range, List.map_map]
    refine List.map_congr_left fun index _ => ?_
    show 0 + index + 1 = 1 + index
    omega

/-- The conditions of the task as the operation began. -/
structure OriginalConditions where
  acceptance : Acceptance
  paths : List String
  verify : List String
  /-- The evidence required, each as its JSON; `none` where it is no list. -/
  evidence : Option (List String)
  predecessors : List Nat
  successors : List Nat

/-- An operation with the conditions it fixed, and their versions. -/
structure PlannedOperation extends ReplanOperation where
  conditions : OriginalConditions
  taskVersion : String
  goalAcceptanceVersion : Option Int

/-! ### The plan -/

inductive ItemDisposition where
  | split
  | redistribute
  | landed
  | deleted
  deriving DecidableEq, Repr

def ItemDisposition.asStr : ItemDisposition → String
  | split => "split"
  | redistribute => "redistribute"
  | landed => "landed"
  | deleted => "deleted"

/-- What a child starts from. -/
inductive CarrySource where
  | base
  | snapshotHead
  | snapshotDiff
  deriving DecidableEq, Repr

def CarrySource.asStr : CarrySource → String
  | base => "base"
  | snapshotHead => "snapshot_head"
  | snapshotDiff => "snapshot_diff"

structure PlanChild where
  taskId : Nat
  carry : CarrySource
  order : Option Nat
  deriving DecidableEq, Repr

/-- A child item that holds an item of the task's acceptance. -/
structure ChildItem where
  taskId : Nat
  ordinal : Nat
  deriving DecidableEq, Repr

/-- How one item of the task's acceptance goes to the children. -/
structure PlanMapping where
  ordinal : Nat
  hash : String
  disposition : ItemDisposition
  children : List ChildItem
  landedTaskId : Option Nat
  authorityAskId : Option Nat
  deriving DecidableEq, Repr

/-- Which children a successor of the task waits for in its place. -/
structure PlanSuccessor where
  taskId : Nat
  needs : List Nat
  reason : Option String
  deriving DecidableEq, Repr

structure ReplacementPlan where
  operationId : Nat
  taskVersion : String
  goalAcceptanceVersion : Option Int
  rationale : String
  children : List PlanChild
  mappings : List PlanMapping
  successors : List PlanSuccessor
  deriving DecidableEq, Repr

def ReplacementPlan.childIds (plan : ReplacementPlan) : List Nat :=
  plan.children.map PlanChild.taskId

/-! ### What the check reads -/

inductive PlanProblemCode where
  | operationMismatch
  | notWithPlanner
  | versionStale
  | blankRationale
  | noChildren
  | childUnknown
  | childNotMember
  | childNotPending
  | memberNotChild
  | originalAsChild
  | goalMismatch
  | itemUnmapped
  | itemUnknown
  | itemRepeated
  | childItemMissing
  | deletionUnauthorized
  | landedUnproven
  | childHoldsNothing
  | verificationWeakened
  | evidenceDropped
  | pathsMissing
  | carryUnclear
  | predecessorDropped
  | dependencyCycle
  | successorUnmapped
  | successorUnknown
  | successorNeedsUnclear
  | successorStarted
  deriving DecidableEq, Repr

structure PlanProblem where
  code : PlanProblemCode
  taskId : Option Nat
  reason : String
  deriving DecidableEq, Repr

/-- A task the plan names as the check sees it. -/
structure PlanTask where
  status : TaskStatus
  goalId : Option Nat
  acceptance : Acceptance
  verify : List String
  paths : List String
  evidence : List String
  dependsOn : List Nat

/-- What an ask a deletion names is. -/
structure DeletionAuthority where
  aboutOperation : Bool
  /-- Whether it asked for a person because of scope. -/
  scope : Bool
  answeredByPerson : Bool
  answer : String
  options : List String
  deriving DecidableEq, Repr

/-- The word a person's answer approves the deletion of an item with. -/
def deletionToken (item : AcceptanceItem) : String :=
  let hash := String.ofList (item.hash.toList.take 12)
  s!"delete:{item.ordinal}:{hash}"

/-- Whether the answer is the item's word, whole, and one of the options offered. -/
def approvesDeletion (authority : DeletionAuthority) (item : AcceptanceItem) : Bool :=
  let token := deletionToken item
  trim authority.answer == token && authority.options.contains token

structure PlanContext where
  operation : PlannedOperation
  taskVersionNow : String
  goalAcceptanceVersionNow : Option Int
  members : List Nat
  tasks : Ordered Nat PlanTask
  /-- The tasks that wait for the task, directly or not. -/
  downstream : List Nat
  authorities : Ordered Nat DeletionAuthority

/-! ### Sets of tasks -/

/-- The tasks of a list as a set: each once, by ascending number. -/
def taskSet (tasks : List Nat) : List Nat := tasks.dedup.insertionSort (· ≤ ·)

@[simp]
theorem mem_taskSet {tasks : List Nat} {task : Nat} : task ∈ taskSet tasks ↔ task ∈ tasks := by
  rw [taskSet, List.mem_insertionSort, List.mem_dedup]

/-- The items by their number. -/
def itemsByOrdinal (items : List AcceptanceItem) : Ordered Nat AcceptanceItem :=
  items.foldl (fun byOrdinal item => byOrdinal.insert item.ordinal item) Ordered.empty

/-- What is found of items with distinct numbers, put one after the other. -/
theorem get?_itemsByOrdinal {items : List AcceptanceItem}
    (distinct : (items.map AcceptanceItem.ordinal).Nodup) {item : AcceptanceItem}
    (member : item ∈ items) : (itemsByOrdinal items).get? item.ordinal = some item := by
  have general : ∀ start : Ordered Nat AcceptanceItem,
      (items.foldl (fun byOrdinal item => byOrdinal.insert item.ordinal item) start).get?
        item.ordinal = some item := by
    induction items with
    | nil => cases member
    | cons first rest inductionHypothesis =>
      intro start
      rw [List.map_cons, List.nodup_cons] at distinct
      rcases List.mem_cons.mp member with rfl | inRest
      · -- the numbers put later are others, and leave it where it is
        have others : ∀ (list : List AcceptanceItem) (map : Ordered Nat AcceptanceItem),
            item.ordinal ∉ list.map AcceptanceItem.ordinal →
            (list.foldl (fun byOrdinal item => byOrdinal.insert item.ordinal item) map).get?
              item.ordinal = map.get? item.ordinal := by
          intro list
          induction list with
          | nil => exact fun _ _ => rfl
          | cons next more innerHypothesis =>
            intro map outside
            rw [List.map_cons, List.mem_cons, not_or] at outside
            rw [List.foldl_cons, innerHypothesis _ outside.2,
              Ordered.get?_insert_of_ne _ _ outside.1]
        rw [List.foldl_cons, others rest _ distinct.1, Ordered.get?_insert_self]
      · exact inductionHypothesis distinct.2 inRest _
  exact general _

theorem Acceptance.nodup (acceptance : Acceptance) :
    (acceptance.items.map AcceptanceItem.ordinal).Nodup :=
  acceptance.numbered ▸ List.nodup_range'

end Dagq.Replan
