/-
This file checks the wait graph an apply would leave: tasks wait for tasks and goals,
goals for their tasks, and the edges onto the children join them all at once. The
search starts only at the sources of those edges. A graph without cycles gets one
only through an edge that joined it, so no other start is needed, and the successor
reported is one that does wait for itself.
-/

import Dagq.Lib.Rewire
import Dagq.Lib.Search

namespace Dagq.Replan

open Dagq.Lib Relation

/-- A vertex of the wait graph: a task waits for its predecessors and for the goals it depends on,
and a goal waits for its tasks. -/
inductive WaitNode (TaskId GoalId : Type) where
  | task (id : TaskId)
  | goal (id : GoalId)
deriving DecidableEq

section Loop

variable {TaskId GoalId : Type} [DecidableEq TaskId] [DecidableEq GoalId]

/-- The vertices of an entry with those a task then waits for, each once more only where it is not
there yet. -/
def addNeeds (entry : List (WaitNode TaskId GoalId)) (needs : List TaskId) :
    List (WaitNode TaskId GoalId) :=
  needs.foldl
    (fun entry need => if .task need ∈ entry then entry else entry ++ [.task need]) entry

/-- The wait graph once the edges join it. -/
def joinEdges (waits : Table (WaitNode TaskId GoalId) (List (WaitNode TaskId GoalId)))
    (edges : List (TaskId × List TaskId)) :
    Table (WaitNode TaskId GoalId) (List (WaitNode TaskId GoalId)) :=
  edges.foldl
    (fun graph edge =>
      graph.insert (.task edge.1) (addNeeds (nextOf graph (.task edge.1)) edge.2)) waits

/-- The successor that would wait for itself once the edges join the wait graph. -/
def closesLoop (waits : Table (WaitNode TaskId GoalId) (List (WaitNode TaskId GoalId)))
    (edges : List (TaskId × List TaskId)) : Option TaskId :=
  let graph := joinEdges waits edges
  (edges.map Prod.fst).find? fun task =>
    comesTo graph (.task task) (nextOf graph (.task task)).reverse []

/-! ### The graph with the edges -/

/-- A task listed by an edge waits for each of its children. -/
def joined (edges : List (TaskId × List TaskId)) (first second : WaitNode TaskId GoalId) : Prop :=
  ∃ edge ∈ edges, first = .task edge.1 ∧ ∃ need ∈ edge.2, second = .task need

/-- What waits for what once the edges join the wait graph. -/
def waitsAfter (waits : Table (WaitNode TaskId GoalId) (List (WaitNode TaskId GoalId)))
    (edges : List (TaskId × List TaskId)) (first second : WaitNode TaskId GoalId) : Prop :=
  leads waits first second ∨ joined edges first second

theorem mem_addNeeds (entry : List (WaitNode TaskId GoalId)) (needs : List TaskId)
    (vertex : WaitNode TaskId GoalId) :
    vertex ∈ addNeeds entry needs ↔ vertex ∈ entry ∨ ∃ need ∈ needs, vertex = .task need := by
  induction needs generalizing entry with
  | nil => simp [addNeeds]
  | cons need rest inductionHypothesis =>
    have unfolds : addNeeds entry (need :: rest) =
        addNeeds (if .task need ∈ entry then entry else entry ++ [.task need]) rest := rfl
    rw [unfolds, inductionHypothesis]
    by_cases held : WaitNode.task need ∈ entry
    · rw [if_pos held]
      simp only [List.mem_cons, exists_eq_or_imp]
      constructor
      · rintro (before | later)
        · exact Or.inl before
        · exact Or.inr (Or.inr later)
      · rintro (before | same | later)
        · exact Or.inl before
        · exact Or.inl (same ▸ held)
        · exact Or.inr later
    · rw [if_neg held]
      simp only [List.mem_append, List.mem_cons, List.not_mem_nil, or_false, exists_eq_or_imp,
        or_assoc]

/-- The graph built for the search has the edges of the wait graph and those that join it. -/
theorem leads_joinEdges (waits : Table (WaitNode TaskId GoalId) (List (WaitNode TaskId GoalId)))
    (edges : List (TaskId × List TaskId)) : leads (joinEdges waits edges) = waitsAfter waits edges := by
  funext first second
  refine propext ?_
  induction edges generalizing waits with
  | nil => simp [joinEdges, waitsAfter, joined]
  | cons edge rest inductionHypothesis =>
    have unfolds : joinEdges waits (edge :: rest) =
        joinEdges (waits.insert (.task edge.1)
          (addNeeds (nextOf waits (.task edge.1)) edge.2)) rest := rfl
    rw [unfolds, inductionHypothesis]
    have one : leads (waits.insert (.task edge.1)
        (addNeeds (nextOf waits (.task edge.1)) edge.2)) first second ↔
        leads waits first second ∨
          first = .task edge.1 ∧ ∃ need ∈ edge.2, second = .task need := by
      by_cases same : first = .task edge.1
      · subst same
        rw [leads, nextOf, Table.get?_insert_self, Option.getD_some, mem_addNeeds]
        simp [leads]
      · rw [leads, nextOf, Table.get?_insert_of_ne _ _ same]
        simp [leads, nextOf, same]
    simp only [waitsAfter, joined, one, List.mem_cons, exists_eq_or_imp, or_assoc]

/-- The search from a task finds whether it would wait for itself. -/
theorem comesTo_joinEdges_iff
    (waits : Table (WaitNode TaskId GoalId) (List (WaitNode TaskId GoalId)))
    (edges : List (TaskId × List TaskId)) (start : WaitNode TaskId GoalId) :
    comesTo (joinEdges waits edges) start (nextOf (joinEdges waits edges) start).reverse [] = true ↔
      TransGen (waitsAfter waits edges) start start := by
  rw [comesTo_iff, leads_joinEdges]

/-- On a wait graph without cycles, the check finds nothing exactly where the edges that join it
leave it without cycles, and a task found is the source of an edge and waits for itself then. -/
theorem closesLoop_correct
    (waits : Table (WaitNode TaskId GoalId) (List (WaitNode TaskId GoalId)))
    (edges : List (TaskId × List TaskId)) (acyclic : Acyclic (leads waits)) :
    (closesLoop waits edges = none ↔ Acyclic (waitsAfter waits edges)) ∧
      ∀ task, closesLoop waits edges = some task →
        task ∈ edges.map Prod.fst ∧
          TransGen (waitsAfter waits edges) (.task task) (.task task) := by
  constructor
  · rw [closesLoop, List.find?_eq_none]
    refine Iff.trans ?_ (acyclic_added_iff acyclic).symm
    constructor
    · rintro misses source target ⟨edge, member, isSource, _⟩ cycle
      have listed : edge.1 ∈ edges.map Prod.fst := List.mem_map.mpr ⟨edge, member, rfl⟩
      refine misses edge.1 listed ((comesTo_joinEdges_iff waits edges _).mpr ?_)
      exact isSource ▸ cycle
    · intro unclosed task _ comes
      have cycle := (comesTo_joinEdges_iff waits edges _).mp comes
      exact (acyclic_added_iff acyclic).mpr unclosed _ cycle
  · intro task found
    refine ⟨List.mem_of_find?_eq_some found, ?_⟩
    exact (comesTo_joinEdges_iff waits edges _).mp (List.find?_some found :)

end Loop

/-! ### A loop through a goal -/

/-- Task 10 waits for goal 3, which waits for its tasks 20 and 21. -/
def throughGoal : Table (WaitNode Nat Nat) (List (WaitNode Nat Nat)) where
  entries := [(.task 10, [.goal 3]), (.goal 3, [.task 20, .task 21])]
  distinct := by decide

theorem throughGoal_acyclic : Acyclic (leads throughGoal) := by
  refine acyclic_of_rank (fun vertex => match vertex with
    | .task 10 => 2
    | .goal 3 => 1
    | _ => 0) fun first second edge => ?_
  have held : ∃ entry ∈ throughGoal.entries, first = entry.1 ∧ second ∈ entry.2 := by
    rw [leads, nextOf] at edge
    cases found : throughGoal.get? first with
    | none => simp [found] at edge
    | some targets =>
      rw [found] at edge
      exact ⟨_, (Table.get?_eq_some_iff _ _ _).mp found, rfl, edge⟩
  simp only [throughGoal, List.mem_cons, List.not_mem_nil, or_false, exists_eq_or_imp,
    exists_eq_left] at held
  rcases held with ⟨rfl, rfl⟩ | ⟨rfl, rfl | rfl⟩ <;> decide

/-- A child that waits for a goal whose task is a successor closes a loop through the goal. -/
theorem closesLoop_correct_throughGoal :
    Acyclic (leads throughGoal) ∧ closesLoop throughGoal [(20, [10])] = some 20 ∧
      ¬ Acyclic (waitsAfter throughGoal [(20, [10])]) := by
  have found : closesLoop throughGoal [(20, [10])] = some 20 := by
    simp [closesLoop, joinEdges, addNeeds, throughGoal, comesTo, nextOf, Table.get?, Table.insert,
      Table.erase, Table.retain]
  refine ⟨throughGoal_acyclic, found, fun after => ?_⟩
  have clean := (closesLoop_correct throughGoal [(20, [10])] throughGoal_acyclic).1.mpr after
  rw [found] at clean
  cases clean

end Dagq.Replan
