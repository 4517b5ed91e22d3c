/-
This file says which tasks wait for which, apart from how the view gathers it, and that
the view gathers just that: what a task blocks directly, all that wait for it, how many
these are, and the highest priority that reaches it. Without a cycle fewer wait for a
task than for one that it waits for.
-/

import Dagq.Graph.Dependency
import Dagq.Lib.Pieces
import Mathlib.Data.Set.Card

namespace Dagq.Graph

open Dagq.Claim Dagq.Lib Dagq.Priorities Dagq.Queue

/-- A task waits for another that is one of its predecessors, or that belongs to a goal it depends
on and that has no verdict. -/
def WaitsFor (tasks : List GraphTask) (waiter blocker : Int) : Prop :=
  ∃ task ∈ tasks, task.id = waiter ∧ ∃ other ∈ tasks, other.id = blocker ∧
    (blocker ∈ task.dependsOn ∨
      ∃ dependency ∈ task.goalDependencies,
        dependency.verdict = none ∧ other.goalId = some dependency.goalId)

/-- A task waits for another, directly or not. -/
abbrev Waits (tasks : List GraphTask) (waiter blocker : Int) : Prop :=
  Relation.TransGen (WaitsFor tasks) waiter blocker

variable {tasks : List GraphTask}

/-! ### Direct waiters -/

theorem mem_membersOf {goalId id : Int} :
    id ∈ (membersOf tasks).held goalId ↔
      ∃ task ∈ tasks, task.goalId = some goalId ∧ task.id = id := by
  rw [membersOf, Ordered.mem_held_foldl _
    (fun task goalId id => task.goalId = some goalId ∧ task.id = id)]
  · simp
  · intro members task goalId id
    cases isGoal : task.goalId with
    | none => simp
    | some own =>
      simp only [Ordered.mem_held_push, Option.some.injEq]
      rw [eq_comm, eq_comm (a := id)]

theorem mem_addBlocks {blocks : Ordered Int (List Int)} {task : GraphTask}
    {blocker waiter : Int} :
    waiter ∈ (addBlocks tasks blocks task).held blocker ↔
      (task.id = waiter ∧ ∃ other ∈ tasks, other.id = blocker ∧
        (blocker ∈ task.dependsOn ∨
          ∃ dependency ∈ task.goalDependencies,
            dependency.verdict = none ∧ other.goalId = some dependency.goalId)) ∨
        waiter ∈ blocks.held blocker := by
  rw [addBlocks, Ordered.mem_held_foldl _
    (fun dependency blocker waiter =>
      task.id = waiter ∧ blocker ∈ (membersOf tasks).held dependency.goalId)]
  rotate_left
  · intro map dependency key value
    rw [Ordered.mem_held_foldl _ (fun member key value => key = member ∧ value = task.id)
      fun map member key value => Ordered.mem_held_push map member key value task.id]
    refine or_congr_left ⟨?_, ?_⟩
    · rintro ⟨member, isMember, rfl, rfl⟩
      exact ⟨rfl, isMember⟩
    · rintro ⟨rfl, isMember⟩
      exact ⟨key, isMember, rfl, rfl⟩
  rw [Ordered.mem_held_foldl _
    (fun predecessor blocker waiter =>
      (blocker = predecessor ∧ task.id = waiter) ∧ predecessor ∈ tasks.map (·.id))]
  rotate_left
  · intro map predecessor key value
    split
    · rename_i isOpen
      rw [Ordered.mem_held_push, eq_comm (a := value)]
      simp [isOpen]
    · rename_i notOpen
      simp [notOpen]
  simp only [List.mem_filter, Option.isNone_iff_eq_none, mem_membersOf, List.mem_map]
  constructor
  · rintro (⟨dependency, ⟨isDependency, noVerdict⟩, isWaiter, other, isTask, isMember, isBlocker⟩ |
      ⟨predecessor, depends, ⟨rfl, isWaiter⟩, other, isTask, isBlocker⟩ | wasHeld)
    · exact Or.inl ⟨isWaiter, other, isTask, isBlocker,
        Or.inr ⟨dependency, isDependency, noVerdict, isMember⟩⟩
    · exact Or.inl ⟨isWaiter, other, isTask, isBlocker, Or.inl depends⟩
    · exact Or.inr wasHeld
  · rintro (⟨isWaiter, other, isTask, isBlocker, depends |
      ⟨dependency, isDependency, noVerdict, isMember⟩⟩ | wasHeld)
    · exact Or.inr (Or.inl ⟨blocker, depends, ⟨rfl, isWaiter⟩, other, isTask, isBlocker⟩)
    · exact Or.inl ⟨dependency, ⟨isDependency, noVerdict⟩, isWaiter, other, isTask, isMember,
        isBlocker⟩
    · exact Or.inr (Or.inr wasHeld)

theorem direct_eq (id : Int) :
    direct tasks id =
      (((tasks.foldl (addBlocks tasks) Ordered.empty).held id).insertionSort (· ≤ ·)).dedup :=
  Ordered.held_mapValues _ rfl id

/-- The tasks that a task blocks are those that wait for it. -/
theorem mem_direct {id waiter : Int} : waiter ∈ direct tasks id ↔ WaitsFor tasks waiter id := by
  rw [direct_eq, List.mem_dedup, List.mem_insertionSort,
    Ordered.mem_held_foldl (addBlocks tasks) _ fun _ _ _ _ => mem_addBlocks]
  simp [WaitsFor]

theorem direct_ascending (id : Int) : (direct tasks id).Pairwise (· < ·) := by
  rw [direct_eq]
  exact sorted_dedup _

/-! ### All waiters -/

theorem waits_iff_leadsTo {waiter blocker : Int} :
    LeadsTo (direct tasks) blocker waiter ↔ Waits tasks waiter blocker := by
  have edges : (fun one other => other ∈ direct tasks one) = Function.swap (WaitsFor tasks) := by
    funext one other
    exact propext mem_direct
  rw [LeadsTo, edges, Relation.transGen_swap]

theorem Waits.ids {waiter blocker : Int} (waits : Waits tasks waiter blocker) :
    waiter ∈ tasks.map (·.id) ∧ blocker ∈ tasks.map (·.id) := by
  constructor
  · obtain ⟨_, ⟨task, isTask, isId, _⟩, _⟩ := Relation.TransGen.head'_iff.mp waits
    exact List.mem_map.mpr ⟨task, isTask, isId⟩
  · obtain ⟨_, _, _, _, _, other, isTask, isId, _⟩ := Relation.TransGen.tail'_iff.mp waits
    exact List.mem_map.mpr ⟨other, isTask, isId⟩

/-- The search for the waiters of a task ends. -/
theorem waitersSearch_ends (id : Int) :
    (waitersSearch tasks id).step (direct tasks) = none := by
  refine search_ends (fun other blocks => ?_) le_rfl
  obtain ⟨waiter, isDirect⟩ := List.exists_mem_of_ne_nil _ blocks
  exact List.mem_toFinset.mpr (Waits.ids (.single (mem_direct.mp isDirect))).2

/-- It finds all that wait for the task. -/
theorem mem_waiters {id waiter : Int} :
    waiter ∈ (waitersSearch tasks id).reached ↔ Waits tasks waiter id :=
  (mem_reached (waitersSearch_ends id)).trans waits_iff_leadsTo

/-- How many tasks wait for a task, directly or not. -/
noncomputable def waiterCount (tasks : List GraphTask) (id : Int) : Nat :=
  {waiter | Waits tasks waiter id}.ncard

theorem card_reached (id : Int) :
    (waitersSearch tasks id).reached.card = waiterCount tasks id := by
  rw [waiterCount, ← Set.ncard_coe_finset]
  refine congrArg Set.ncard (Set.ext fun waiter => ?_)
  exact mem_waiters

/-- Fewer wait for a task than for one that it waits for. -/
theorem waiterCount_lt (acyclic : ∀ id, ¬ Waits tasks id id) {waiter blocker : Int}
    (waits : Waits tasks waiter blocker) :
    waiterCount tasks waiter < waiterCount tasks blocker := by
  rw [← card_reached, ← card_reached]
  have isReached : ∀ one other, other ∈ (waitersSearch tasks one).reached ↔
      Relation.TransGen (Function.swap (WaitsFor tasks)) one other := fun one other =>
    mem_waiters.trans Relation.transGen_swap.symm
  have noCycle : ∀ id, ¬ Relation.TransGen (Function.swap (WaitsFor tasks)) id id :=
    fun id back => acyclic id (Relation.transGen_swap.mp back)
  exact Finset.card_lt_card
    (reached_ssubset isReached noCycle (Relation.transGen_swap.mpr waits))

/-! ### The counts and priorities of the view -/

section Distinct

variable (distinct : (tasks.map (·.id)).Nodup)

include distinct

theorem get?_byId {id : Int} {task : GraphTask} :
    (byId tasks).get? id = some task ↔ task ∈ tasks ∧ task.id = id := by
  rw [byId, Ordered.get?_collect (by rwa [List.map_map])]
  simp only [List.mem_map, Prod.mk.injEq]
  constructor
  · rintro ⟨other, isTask, isId, rfl⟩
    exact ⟨isTask, isId⟩
  · rintro ⟨isTask, isId⟩
    exact ⟨task, isTask, isId, rfl⟩

theorem get?_reachOf {task : GraphTask} (isTask : task ∈ tasks) :
    (reachOf tasks).get? task.id = some (waiterCount tasks task.id,
      effectivePriority task.priority
        (((waitersSearch tasks task.id).reached.sort (· ≤ ·)).filterMap (byId tasks).get?)) := by
  rw [reachOf, Ordered.get?_collect (by rwa [List.map_map]), List.mem_map]
  exact ⟨task, isTask, by rw [← card_reached]⟩

theorem get?_reachOf_eq_none {id : Int} (absent : id ∉ tasks.map (·.id)) :
    (reachOf tasks).get? id = none := by
  cases found : (reachOf tasks).get? id with
  | none => rfl
  | some reach =>
    rw [reachOf, Ordered.get?_collect (by rwa [List.map_map]), List.mem_map] at found
    obtain ⟨task, isTask, isEntry⟩ := found
    exact absurd (List.mem_map.mpr ⟨task, isTask, congrArg Prod.fst isEntry⟩) absent

/-- What the view counts for a task are those that wait for it. -/
theorem count_eq (id : Int) : count tasks id = waiterCount tasks id := by
  by_cases isId : id ∈ tasks.map (·.id)
  · obtain ⟨task, isTask, rfl⟩ := List.mem_map.mp isId
    rw [count, get?_reachOf distinct isTask]
    rfl
  · rw [count, get?_reachOf_eq_none distinct isId, Option.elim_none, waiterCount]
    have noWaiter : {waiter | Waits tasks waiter id} = ∅ :=
      Set.eq_empty_iff_forall_notMem.mpr fun waiter waits => isId (Waits.ids waits).2
    rw [noWaiter, Set.ncard_empty]

end Distinct

/-- The priorities that reach a task: its own, and those of its waiters that pass theirs on. -/
def Reaching (tasks : List GraphTask) (task : GraphTask) : Set Priority :=
  {priority | priority = task.priority ∨ ∃ waiter ∈ tasks, Waits tasks waiter.id task.id ∧
    waiter.passesOn = true ∧ waiter.priority = priority}

/-- A task's effective priority is the highest that reaches it. -/
theorem effective_isGreatest (distinct : (tasks.map (·.id)).Nodup) {task : GraphTask}
    (isTask : task ∈ tasks) : IsGreatest (Reaching tasks task) (effective tasks task.id) := by
  rw [effective, get?_reachOf distinct isTask, Option.elim_some, effectivePriority]
  obtain ⟨among, bounds⟩ := List.max?_eq_some_iff.mp (@List.max?_cons' _ task.priority _
    (((((waitersSearch tasks task.id).reached.sort (· ≤ ·)).filterMap (byId tasks).get?).filter
      GraphTask.passesOn).map (·.priority)))
  have reaching : ∀ priority, priority ∈ Reaching tasks task ↔ priority ∈ task.priority ::
      (((((waitersSearch tasks task.id).reached.sort (· ≤ ·)).filterMap (byId tasks).get?).filter
        GraphTask.passesOn).map (·.priority)) := by
    intro priority
    rw [List.mem_cons]
    refine or_congr_right ?_
    simp only [List.mem_map, List.mem_filter, List.mem_filterMap, Finset.mem_sort, mem_waiters,
      get?_byId distinct]
    constructor
    · rintro ⟨waiter, isWaiter, waits, passes, isPriority⟩
      exact ⟨waiter, ⟨⟨waiter.id, waits, isWaiter, rfl⟩, passes⟩, isPriority⟩
    · rintro ⟨waiter, ⟨⟨_, waits, isWaiter, rfl⟩, passes⟩, isPriority⟩
      exact ⟨waiter, isWaiter, waits, passes, isPriority⟩
  exact ⟨(reaching _).mpr among, fun priority reaches =>
    bounds priority ((reaching priority).mp reaches)⟩

theorem passesOn_iff (task : GraphTask) :
    task.passesOn = true ↔ task.status = .ready ∧ task.goalStatus ≠ some .draft ∧
      ∀ dependency ∈ task.goalDependencies, dependency.verdict ≠ some .abandoned := by
  simp [GraphTask.passesOn, and_assoc]

end Dagq.Graph
