/-
This file proves what the dependency view shows where no task waits for itself: each
task's waiters counted and its effective priority, the candidates in the order of the
claim rule and so none after one of its own waiters that passes its priority on, and the
critical chain, which ends since fewer wait for each task of it than for the one before.
The order the tasks are given in changes none of it.
-/

import Dagq.Graph.Waiters

namespace Dagq.Graph

open Dagq.Claim Dagq.Lib Dagq.Priorities Dagq.Queue

/-! ### What the view is to show -/

/-- A node shows its task: how many wait for it, the highest priority that reaches it, and those
that wait for it directly, ascending. -/
structure Shows (tasks : List GraphTask) (task : GraphTask) (node : GraphNode) : Prop where
  id : node.id = task.id
  unblocks : node.unblocks = waiterCount tasks task.id
  effectivePriority : IsGreatest (Reaching tasks task) node.effectivePriority
  ascending : node.blocks.Pairwise (· < ·)
  blocks : ∀ waiter, waiter ∈ node.blocks ↔ WaitsFor tasks waiter task.id

/-- The claim rule's order: highest effective priority, most unblocks, lowest id. -/
def Precedes (one two : GraphNode) : Prop :=
  two.effectivePriority < one.effectivePriority ∨
    two.effectivePriority = one.effectivePriority ∧
      (two.unblocks < one.unblocks ∨ two.unblocks = one.unblocks ∧ one.id ≤ two.id)

/-- More wait for the first task than for the second, or as many and its id is not greater. -/
def Ahead (tasks : List GraphTask) (one two : Int) : Prop :=
  waiterCount tasks two < waiterCount tasks one ∨
    waiterCount tasks two = waiterCount tasks one ∧ one ≤ two

/-- A chain of direct waits: it starts with the task shown that most wait for, where any waits, goes
on to the direct waiter that most wait for, and ends where nothing waits. -/
structure IsCritical (tasks shown : List GraphTask) (critical : List Int) : Prop where
  steps : critical.IsChain fun id next =>
    WaitsFor tasks next id ∧ waiterCount tasks next < waiterCount tasks id ∧
      ∀ other, WaitsFor tasks other id → Ahead tasks next other
  empty : critical = [] ↔ ∀ task ∈ shown, waiterCount tasks task.id = 0
  start : ∀ first ∈ critical.head?, first ∈ shown.map (·.id) ∧
    ∀ task ∈ shown, Ahead tasks first task.id
  last : ∀ last ∈ critical.getLast?, ∀ other, ¬ WaitsFor tasks other last

variable {tasks : List GraphTask}

/-! ### Ranks -/

section Ranks

variable (distinct : (tasks.map (·.id)).Nodup)

include distinct

theorem rank_le_iff {one two : Int} : rank tasks one ≤ rank tasks two ↔ Ahead tasks one two := by
  rw [rank, rank, Prod.Lex.toLex_le_toLex, Ahead, count_eq distinct, count_eq distinct]
  simp only [OrderDual.toDual_lt_toDual, OrderDual.toDual_inj, eq_comm]

omit distinct in
theorem claimRank_le_iff {one two : Int} : claimRank tasks one ≤ claimRank tasks two ↔
    effective tasks two < effective tasks one ∨ effective tasks two = effective tasks one ∧
      (count tasks two < count tasks one ∨ count tasks two = count tasks one ∧ one ≤ two) := by
  rw [claimRank, claimRank, ClaimRank.new, ClaimRank.new, Prod.Lex.toLex_le_toLex,
    Prod.Lex.toLex_le_toLex]
  simp only [OrderDual.toDual_lt_toDual, OrderDual.toDual_inj, eq_comm]

/-- A task ranks before a waiter of its own that passes its priority on. -/
theorem claimRank_lt (acyclic : ∀ id, ¬ Waits tasks id id) {waiter task : GraphTask}
    (isWaiter : waiter ∈ tasks) (isTask : task ∈ tasks) (passes : waiter.passesOn = true)
    (waits : Waits tasks waiter.id task.id) :
    claimRank tasks task.id < claimRank tasks waiter.id := by
  -- Whatever reaches the waiter reaches the task through it.
  have higher : effective tasks waiter.id ≤ effective tasks task.id := by
    refine (effective_isGreatest distinct isTask).2 ?_
    rcases (effective_isGreatest distinct isWaiter).1 with isOwn | further
    · exact Or.inr ⟨waiter, isWaiter, waits, passes, isOwn.symm⟩
    · obtain ⟨other, isOther, otherWaits, otherPasses, isPriority⟩ := further
      exact Or.inr ⟨other, isOther, otherWaits.trans waits, otherPasses, isPriority⟩
  have fewer := waiterCount_lt acyclic waits
  rw [← count_eq distinct, ← count_eq distinct] at fewer
  rw [lt_iff_not_ge, claimRank_le_iff]
  rintro (lower | ⟨_, fewerStill | ⟨same, _⟩⟩)
  · exact absurd higher (not_le.mpr lower)
  · exact lt_asymm fewer fewerStill
  · exact absurd same fewer.ne'

end Ranks

/-! ### The critical chain -/

/-- The step from a task of the chain to the next. -/
def Next (tasks : List GraphTask) (id next : Int) : Prop :=
  next ∈ direct tasks id ∧ ∀ other ∈ direct tasks id, rank tasks next ≤ rank tasks other

/-- What the rounds of the chain keep. -/
structure Chain.Kept (tasks : List GraphTask) (goalIds : List Int) (chain : Chain) : Prop where
  steps : (chain.critical ++ chain.step.toList).IsChain (Next tasks)
  start : (chain.critical ++ chain.step.toList).head? = (Chain.start tasks goalIds).step
  last : chain.step = none → ∀ last ∈ chain.critical.getLast?, direct tasks last = []

theorem Chain.kept_start (goalIds : List Int) :
    (Chain.start tasks goalIds).Kept tasks goalIds := by
  have noneYet : (Chain.start tasks goalIds).critical = [] := rfl
  refine ⟨?_, ?_, fun _ last isLast => ?_⟩
  · rw [noneYet, List.nil_append]
    cases (Chain.start tasks goalIds).step with
    | none => exact List.isChain_nil
    | some id => exact List.isChain_singleton id
  · rw [noneYet, List.nil_append, Option.head?_toList]
  · rw [noneYet] at isLast
    cases isLast

theorem Chain.Kept.next {goalIds : List Int} {before after : Chain}
    (kept : before.Kept tasks goalIds) (steps : before.next tasks = some after) :
    after.Kept tasks goalIds := by
  obtain ⟨step, critical⟩ := before
  cases step with
  | none => cases steps
  | some id =>
    obtain rfl := Option.some.inj steps
    obtain ⟨chained, starts, _⟩ := kept
    dsimp only [Option.toList_some] at chained starts ⊢
    cases least : leastBy (rank tasks) (direct tasks id) with
    | none =>
      refine ⟨by simpa using chained, by simpa using starts, fun _ last isLast => ?_⟩
      rw [List.getLast?_concat, Option.mem_some_iff] at isLast
      rw [← isLast]
      exact leastBy_eq_none.mp least
    | some next =>
      refine ⟨?_, ?_, fun ended => by cases ended⟩
      · rw [Option.toList_some, List.append_assoc, List.singleton_append,
          List.isChain_append_cons_cons]
        exact ⟨chained, leastBy_spec least, List.isChain_singleton next⟩
      · rw [Option.toList_some, List.head?_append_of_ne_nil _ (by simp), starts]

/-- The rounds left to a chain are no more than wait for the task it goes on with. -/
noncomputable def Chain.rounds (tasks : List GraphTask) (chain : Chain) : Nat :=
  chain.step.elim 0 fun id => waiterCount tasks id + 1

theorem Chain.rounds_next (acyclic : ∀ id, ¬ Waits tasks id id) {before after : Chain}
    (steps : before.next tasks = some after) : after.rounds tasks < before.rounds tasks := by
  obtain ⟨step, critical⟩ := before
  cases step with
  | none => cases steps
  | some id =>
    obtain rfl := Option.some.inj steps
    dsimp only [Chain.rounds, Option.elim_some]
    cases least : leastBy (rank tasks) (direct tasks id) with
    | none => exact Nat.succ_pos _
    | some next =>
      have isDirect := mem_direct.mp (leastBy_spec least).1
      exact Nat.succ_lt_succ (waiterCount_lt acyclic (.single isDirect))

theorem waiterCount_le_length (id : Int) : waiterCount tasks id ≤ tasks.length := by
  have among : {waiter | Waits tasks waiter id} ⊆ ((tasks.map (·.id)).toFinset : Set Int) :=
    fun waiter waits => List.mem_toFinset.mpr (Waits.ids waits).1
  calc waiterCount tasks id
      ≤ ((tasks.map (·.id)).toFinset : Set Int).ncard :=
        Set.ncard_le_ncard among (Finset.finite_toSet _)
    _ = (tasks.map (·.id)).toFinset.card := Set.ncard_coe_finset _
    _ ≤ (tasks.map (·.id)).length := List.toFinset_card_le _
    _ = tasks.length := List.length_map _

/-- The chain ends. -/
theorem chainOf_ends (acyclic : ∀ id, ¬ Waits tasks id id) (goalIds : List Int) :
    (chainOf tasks goalIds).next tasks = none := by
  refine @loop_ends _ (Chain.next tasks) _ _ (fun _ => True) (Chain.rounds tasks)
    (fun before after _ steps => ⟨trivial, Chain.rounds_next acyclic steps⟩) trivial ?_
  rw [Chain.rounds]
  cases (Chain.start tasks goalIds).step with
  | none => exact Nat.zero_le _
  | some id => exact Nat.succ_le_succ (waiterCount_le_length id)

theorem mem_goalIdsOf {goalId : Option Int} {id : Int} :
    id ∈ goalIdsOf tasks goalId ↔ id ∈ (tasks.filter (inGoal goalId)).map (·.id) := by
  rw [goalIdsOf, List.mem_dedup, List.mem_insertionSort]

/-- Where the chain starts. -/
theorem start_step (distinct : (tasks.map (·.id)).Nodup) (goalIds : List Int) :
    ((Chain.start tasks goalIds).step = none ↔ ∀ id ∈ goalIds, waiterCount tasks id = 0) ∧
      ∀ first ∈ (Chain.start tasks goalIds).step,
        first ∈ goalIds ∧ ∀ id ∈ goalIds, Ahead tasks first id := by
  rw [Chain.start]
  cases least : leastBy (rank tasks) goalIds with
  | none =>
    rw [leastBy_eq_none.mp least]
    simp
  | some first =>
    obtain ⟨isGoal, isLeast⟩ := leastBy_spec least
    have ahead : ∀ id ∈ goalIds, Ahead tasks first id := fun id member =>
      (rank_le_iff distinct).mp (isLeast id member)
    simp only [Option.any_some, count_eq distinct]
    split
    · rename_i noWaiter
      refine ⟨iff_of_true rfl fun id member => ?_, fun _ isNone => by cases isNone⟩
      have isZero := of_decide_eq_true noWaiter
      rcases ahead id member with fewer | ⟨same, _⟩
      · omega
      · exact same.trans isZero
    · rename_i waiters
      refine ⟨iff_of_false nofun fun noWaiter => waiters (decide_eq_true (noWaiter first isGoal)),
        fun other isFirst => ?_⟩
      obtain rfl := Option.some.inj isFirst
      exact ⟨isGoal, ahead⟩

/-- The chain is critical. -/
theorem chainOf_isCritical (distinct : (tasks.map (·.id)).Nodup)
    (acyclic : ∀ id, ¬ Waits tasks id id) (goalId : Option Int) :
    IsCritical tasks (tasks.filter (inGoal goalId))
      (chainOf tasks (goalIdsOf tasks goalId)).critical := by
  have ended := chainOf_ends acyclic (goalIdsOf tasks goalId)
  obtain ⟨steps, starts, lasts⟩ : (chainOf tasks (goalIdsOf tasks goalId)).Kept tasks
      (goalIdsOf tasks goalId) :=
    loop_keeps (fun _ _ kept steps => kept.next steps) (Chain.kept_start _)
  have stepNone : (chainOf tasks (goalIdsOf tasks goalId)).step = none :=
    Option.map_eq_none_iff.mp ended
  rw [stepNone, Option.toList_none, List.append_nil] at steps starts
  obtain ⟨noStart, isStart⟩ := start_step distinct (goalIdsOf tasks goalId)
  refine ⟨steps.imp fun id next isNext => ?_, ?_, fun first isFirst => ?_,
    fun last isLast other waits => ?_⟩
  · obtain ⟨isDirect, isLeast⟩ := isNext
    exact ⟨mem_direct.mp isDirect, waiterCount_lt acyclic (.single (mem_direct.mp isDirect)),
      fun other waits => (rank_le_iff distinct).mp (isLeast other (mem_direct.mpr waits))⟩
  · rw [← List.head?_eq_none_iff, starts, noStart]
    simp only [mem_goalIdsOf, List.forall_mem_map]
  · rw [starts] at isFirst
    obtain ⟨isGoal, ahead⟩ := isStart first isFirst
    exact ⟨mem_goalIdsOf.mp isGoal, fun task shown =>
      ahead task.id (mem_goalIdsOf.mpr (List.mem_map_of_mem shown))⟩
  · have none_ := lasts stepNone last isLast
    rw [← mem_direct, none_] at waits
    cases waits

/-! ### The same tasks in another order -/

section Permuted

variable {other : List GraphTask} (permuted : other.Perm tasks)

include permuted

theorem WaitsFor.perm : WaitsFor other = WaitsFor tasks := by
  funext waiter blocker
  simp only [WaitsFor, permuted.mem_iff]

theorem direct_perm : direct other = direct tasks := by
  funext id
  refine @eq_of_ascending_of_mem_iff _ _ _ (fun waiter : Int => waiter) _ _
    (direct_ascending id) (direct_ascending id) fun waiter => ?_
  rw [mem_direct, mem_direct, WaitsFor.perm permuted]

theorem goalIdsOf_perm (goalId : Option Int) : goalIdsOf other goalId = goalIdsOf tasks goalId := by
  refine @eq_of_ascending_of_mem_iff _ _ _ (fun id : Int => id) _ _
    (sorted_dedup _) (sorted_dedup _) fun id => ?_
  rw [mem_goalIdsOf, mem_goalIdsOf, ((permuted.filter _).map _).mem_iff]

variable (distinct : (tasks.map (·.id)).Nodup)

include distinct

theorem count_perm : count other = count tasks := by
  funext id
  rw [count_eq ((permuted.map _).nodup_iff.mpr distinct), count_eq distinct]
  simp only [waiterCount, Waits, WaitsFor.perm permuted]

theorem effective_perm : effective other = effective tasks := by
  have otherDistinct : (other.map (·.id)).Nodup := (permuted.map _).nodup_iff.mpr distinct
  funext id
  by_cases isId : id ∈ tasks.map (·.id)
  · obtain ⟨task, isTask, rfl⟩ := List.mem_map.mp isId
    have same : Reaching other task = Reaching tasks task := by
      simp only [Reaching, Waits, WaitsFor.perm permuted, permuted.mem_iff]
    have greatest := effective_isGreatest otherDistinct (permuted.mem_iff.mpr isTask)
    rw [same] at greatest
    exact greatest.unique (effective_isGreatest distinct isTask)
  · have otherAbsent : id ∉ other.map (·.id) := by
      rwa [(permuted.map _).mem_iff]
    rw [effective, effective, get?_reachOf_eq_none distinct isId,
      get?_reachOf_eq_none otherDistinct otherAbsent]

theorem rank_perm : rank other = rank tasks := by
  funext id
  rw [rank, rank, count_perm permuted distinct]

theorem claimRank_perm : claimRank other = claimRank tasks := by
  funext id
  rw [claimRank, claimRank, count_perm permuted distinct, effective_perm permuted distinct]

theorem nodeOf_perm : nodeOf other = nodeOf tasks := by
  funext task
  simp only [nodeOf, count_perm permuted distinct, effective_perm permuted distinct,
    direct_perm permuted, (permuted.map _).mem_iff]

theorem chainOf_perm (goalIds : List Int) : chainOf other goalIds = chainOf tasks goalIds := by
  have next : Chain.next other = Chain.next tasks := by
    funext chain
    rw [Chain.next, Chain.next, rank_perm permuted distinct, direct_perm permuted]
  have start : Chain.start other goalIds = Chain.start tasks goalIds := by
    rw [Chain.start, Chain.start, rank_perm permuted distinct, count_perm permuted distinct]
  rw [chainOf, chainOf, next, start, permuted.length_eq]

end Permuted

/-! ### The view -/

/-- Whether both loops of the view end: the search for each task's waiters, and the chain. -/
def Ends (input : GraphInput) (goalId : Option Int) : Prop :=
  (∀ task ∈ input.tasks,
    (waitersSearch input.tasks task.id).step (direct input.tasks) = none) ∧
  (chainOf input.tasks (goalIdsOf input.tasks goalId)).next input.tasks = none

/-- Of tasks with ids of their own, the candidates among them, none of which waits for itself: the
view ends and shows each task of the goal asked for; its candidates are those given of that goal,
each as often as given, in the order of the claim rule, none after one of its own waiters that
passes its priority on; its chain is critical. Given in another order, the tasks have the same
nodes, candidates and chain. -/
theorem dependencyGraph_correct (input : GraphInput) (goalId : Option Int)
    (distinct : (input.tasks.map (·.id)).Nodup)
    (among : ∀ id ∈ input.candidates, id ∈ input.tasks.map (·.id))
    (acyclic : ∀ id, ¬ Waits input.tasks id id) :
    let graph := dependencyGraph input goalId
    let shown := input.tasks.filter (inGoal goalId)
    Ends input goalId ∧
    List.Forall₂ (Shows input.tasks) shown graph.tasks ∧
    (graph.candidates.Perm (input.candidates.filter fun id => id ∈ shown.map (·.id)) ∧
      (graph.candidates.Pairwise fun first second => ∀ one ∈ graph.tasks, ∀ two ∈ graph.tasks,
        one.id = first → two.id = second → Precedes one two) ∧
      graph.candidates.Pairwise fun first second => ∀ task ∈ input.tasks, task.id = first →
        task.passesOn = true → ¬ Waits input.tasks first second) ∧
    IsCritical input.tasks shown graph.critical ∧
    ∀ tasks, tasks.Perm input.tasks →
      let other := dependencyGraph { input with tasks := tasks } goalId
      other.tasks.Perm graph.tasks ∧ other.candidates = graph.candidates ∧
        other.critical = graph.critical := by
  intro graph shown
  have shownTasks : input.tasks.filter (fun task => task.id ∈ goalIdsOf input.tasks goalId) =
      shown := by
    refine List.filter_congr fun task isTask => ?_
    rw [Bool.eq_iff_iff, decide_eq_true_eq, mem_goalIdsOf]
    constructor
    · intro isShown
      obtain ⟨other, otherShown, sameId⟩ := List.mem_map.mp isShown
      obtain ⟨isOther, isGoal⟩ := List.mem_filter.mp otherShown
      rwa [← List.inj_on_of_nodup_map distinct isOther isTask sameId]
    · intro isGoal
      exact List.mem_map_of_mem (List.mem_filter.mpr ⟨isTask, isGoal⟩)
  have nodes : graph.tasks = shown.map (nodeOf input.tasks) := by
    show (input.tasks.filter _).map _ = _
    rw [shownTasks]
  have candidates : graph.candidates =
      (input.candidates.filter fun id => id ∈ shown.map (·.id)).insertionSort
        fun first second => claimRank input.tasks first ≤ claimRank input.tasks second := by
    show (input.candidates.filter _).insertionSort _ = _
    refine congrArg (List.insertionSort _) (List.filter_congr fun id isCandidate => ?_)
    rw [Bool.eq_iff_iff, Bool.or_eq_true, decide_eq_true_eq, decide_eq_true_eq, mem_goalIdsOf]
    refine or_iff_right_of_imp fun isAll => ?_
    obtain ⟨task, isTask, isId⟩ := List.mem_map.mp (among id isCandidate)
    exact List.mem_map.mpr ⟨task, List.mem_filter.mpr ⟨isTask, by rw [inGoal, isAll]; rfl⟩, isId⟩
  have ordered : graph.candidates.Pairwise fun first second =>
      claimRank input.tasks first ≤ claimRank input.tasks second := by
    have total : Std.Total fun first second : Int =>
        claimRank input.tasks first ≤ claimRank input.tasks second := ⟨fun _ _ => le_total _ _⟩
    have transitive : IsTrans Int fun first second =>
        claimRank input.tasks first ≤ claimRank input.tasks second := ⟨fun _ _ _ => le_trans⟩
    rw [candidates]
    exact List.pairwise_insertionSort _ _
  refine ⟨⟨fun task _ => waitersSearch_ends task.id, chainOf_ends acyclic _⟩, ?_,
    ⟨?_, ?_, ?_⟩, chainOf_isCritical distinct acyclic goalId, fun tasks permuted => ⟨?_, ?_, ?_⟩⟩
  · rw [nodes, List.forall₂_map_right_iff]
    refine List.forall₂_same.mpr fun task isShown => ?_
    exact
      { id := rfl
        unblocks := count_eq distinct task.id
        effectivePriority := effective_isGreatest distinct (List.mem_filter.mp isShown).1
        ascending := direct_ascending task.id
        blocks := fun waiter => mem_direct }
  · rw [candidates]
    exact List.perm_insertionSort _ _
  · refine ordered.imp fun {first second} isLe one isOne two isTwo oneId twoId => ?_
    rw [nodes] at isOne isTwo
    obtain ⟨oneTask, _, rfl⟩ := List.mem_map.mp isOne
    obtain ⟨twoTask, _, rfl⟩ := List.mem_map.mp isTwo
    rw [← oneId, ← twoId] at isLe
    exact claimRank_le_iff.mp isLe
  · refine ordered.imp fun {first second} isLe task isTask isId passes waits => ?_
    obtain ⟨_, isSecond⟩ := waits.ids
    obtain ⟨blocker, isBlocker, rfl⟩ := List.mem_map.mp isSecond
    obtain rfl := isId
    exact absurd isLe (not_le.mpr
      (claimRank_lt distinct acyclic isTask isBlocker passes waits))
  · show ((tasks.filter _).map _).Perm ((input.tasks.filter _).map _)
    rw [nodeOf_perm permuted distinct, goalIdsOf_perm permuted]
    exact (permuted.filter _).map _
  · show (input.candidates.filter _).insertionSort _ = (input.candidates.filter _).insertionSort _
    rw [claimRank_perm permuted distinct, goalIdsOf_perm permuted]
  · show (chainOf tasks _).critical = (chainOf input.tasks _).critical
    rw [chainOf_perm permuted distinct, goalIdsOf_perm permuted]

/-! ### Four tasks -/

/-- A ready task of a goal; a draft that depends on it; an urgent one that depends on the draft and on
the goal, not closed; and one apart. -/
def fourTasks : GraphInput where
  tasks :=
    [⟨1, .ready, .normal, .default, .ai, .implementation, "groundwork", some 7, some .open_, [], []⟩,
      ⟨2, .draft, .normal, .default, .ai, .implementation, "proposal", none, none, [1], []⟩,
      ⟨3, .ready, .urgent, .task, .human, .implementation, "fix", none, none, [2], [⟨7, none⟩]⟩,
      ⟨4, .ready, .normal, .default, .ai, .spike, "look", none, none, [], []⟩]
  candidates := [4, 1]

/-- In each wait the waiter has the greater id, so none of the four waits for itself. -/
theorem fourTasks_acyclic (id : Int) : ¬ Waits fourTasks.tasks id id := by
  have descends : ∀ waiter blocker, WaitsFor fourTasks.tasks waiter blocker → blocker < waiter := by
    rintro waiter blocker ⟨task, isTask, rfl, other, isOther, rfl, depends⟩
    revert depends
    fin_cases isTask <;> fin_cases isOther <;> decide
  intro waits
  have further : ∀ waiter, Waits fourTasks.tasks waiter id → id < waiter := by
    intro waiter waits
    induction waits using Relation.TransGen.head_induction_on with
    | single waitsFor => exact descends _ _ waitsFor
    | head waitsFor _ inductionHypothesis =>
      exact inductionHypothesis.trans (descends _ _ waitsFor)
  exact lt_irrefl id (further id waits)

/-- The chain goes from the groundwork over the draft to the urgent task; of the candidates none comes
after one of its own waiters. -/
theorem dependencyGraph_correct_fourTasks :
    (dependencyGraph fourTasks none).critical = [1, 2, 3] ∧
      (dependencyGraph fourTasks none).candidates.Perm [4, 1] ∧
      IsCritical fourTasks.tasks fourTasks.tasks (dependencyGraph fourTasks none).critical := by
  obtain ⟨_, _, ⟨permuted, _⟩, isCritical, _⟩ :=
    dependencyGraph_correct fourTasks none (by decide) (by decide) fourTasks_acyclic
  exact ⟨by decide +kernel, permuted, isCritical⟩

end Dagq.Graph
