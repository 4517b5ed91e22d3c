/-
This file searches a finite graph with a stack and a set of the vertices seen: the
graph is a table from each vertex to those it leads to, and the search asks whether
one vertex leads back to itself. The search ends on every graph, since a vertex that
is no key of the table adds nothing to the stack, and it answers yes exactly where
there is a cycle through the vertex. A search that goes depth first settles a vertex
once it has settled all those it leads to: nothing reached from one settled is on a
cycle.
-/

import Dagq.Lib.Table
import Mathlib.Logic.Relation

namespace Dagq.Lib

open Relation

variable {Vertex : Type}

section Search

variable [DecidableEq Vertex]

/-! ### The edges of a table -/

/-- The vertices that one leads to directly. -/
def nextOf (graph : Table Vertex (List Vertex)) (vertex : Vertex) : List Vertex :=
  (graph.get? vertex).getD []

/-- The edges of the graph. -/
def leads (graph : Table Vertex (List Vertex)) (first second : Vertex) : Prop :=
  second ∈ nextOf graph first

theorem nextOf_of_not_mem_keys {graph : Table Vertex (List Vertex)} {vertex : Vertex}
    (absent : vertex ∉ graph.keys) : nextOf graph vertex = [] := by
  rw [nextOf, (Table.get?_eq_none_iff graph vertex).mpr absent]
  rfl

/-- How many keys of the graph are not among these vertices. -/
def unseen (graph : Table Vertex (List Vertex)) (seen : List Vertex) : Nat :=
  graph.count fun key => key ∉ seen

theorem unseen_mono (graph : Table Vertex (List Vertex)) {seen more : List Vertex}
    (subset : seen ⊆ more) : unseen graph more ≤ unseen graph seen := by
  refine List.countP_mono_left fun key _ notSeen => ?_
  simp only [decide_eq_true_eq] at notSeen ⊢
  exact fun member => notSeen (subset member)

/-- Seeing a key for the first time leaves fewer keys unseen. -/
theorem unseen_cons_lt {graph : Table Vertex (List Vertex)} {vertex : Vertex} {seen : List Vertex}
    (held : vertex ∈ graph.keys) (fresh : vertex ∉ seen) :
    unseen graph (vertex :: seen) < unseen graph seen := by
  have splits : ∀ keys : List Vertex, vertex ∈ keys →
      keys.countP (fun key => decide (key ∉ vertex :: seen)) <
        keys.countP fun key => decide (key ∉ seen) := by
    intro keys member
    induction keys with
    | nil => cases member
    | cons key rest inductionHypothesis =>
      have le : rest.countP (fun key => decide (key ∉ vertex :: seen)) ≤
          rest.countP fun key => decide (key ∉ seen) := by
        refine List.countP_mono_left fun other _ notSeen => ?_
        simp only [decide_eq_true_eq, List.mem_cons, not_or] at notSeen ⊢
        exact notSeen.2
      by_cases same : key = vertex
      · subst same
        rw [List.countP_cons_of_neg (by simp), List.countP_cons_of_pos (by simpa using fresh)]
        omega
      · have inside : vertex ∈ rest := by
          rcases List.mem_cons.mp member with isKey | inside
          · exact absurd isKey.symm same
          · exact inside
        have smaller := inductionHypothesis inside
        rw [List.countP_cons, List.countP_cons]
        have alike : (decide (key ∉ vertex :: seen)) = decide (key ∉ seen) := by
          simp [same]
        rw [alike]
        omega
  exact splits graph.keys held

/-! ### The search -/

/-- Whether the search from the vertices of the stack comes to `start`: the top vertex is popped;
one seen for the first time pushes those it leads to, its last on top. -/
def comesTo (graph : Table Vertex (List Vertex)) (start : Vertex) (stack seen : List Vertex) :
    Bool :=
  match stack with
  | [] => false
  | vertex :: rest =>
    if vertex = start then true
    else if vertex ∈ seen then comesTo graph start rest seen
    else comesTo graph start ((nextOf graph vertex).reverse ++ rest) (vertex :: seen)
termination_by (unseen graph seen, stack.length)
decreasing_by
  · exact Prod.Lex.right _ (Nat.lt_succ_self _)
  · rename_i fresh
    by_cases held : vertex ∈ graph.keys
    · exact Prod.Lex.left _ _ (unseen_cons_lt held fresh)
    · rw [nextOf_of_not_mem_keys held]
      rcases (unseen_mono graph (List.subset_cons_self vertex seen)).lt_or_eq with fewer | same
      · exact Prod.Lex.left _ _ fewer
      · rw [same]
        exact Prod.Lex.right _ (Nat.lt_succ_self _)

/-- Where the search comes to the start, a vertex of the stack leads to it. -/
theorem reaches_of_comesTo {graph : Table Vertex (List Vertex)} {start : Vertex}
    {stack seen : List Vertex} (comes : comesTo graph start stack seen = true) :
    ∃ vertex ∈ stack, ReflTransGen (leads graph) vertex start := by
  induction stack, seen using comesTo.induct graph start with
  | case1 seen =>
    rw [comesTo] at comes
    cases comes
  | case2 seen rest =>
    exact ⟨start, List.mem_cons_self, .refl⟩
  | case3 seen vertex rest other isSeen inductionHypothesis =>
    rw [comesTo, if_neg other, if_pos isSeen] at comes
    obtain ⟨found, member, path⟩ := inductionHypothesis comes
    exact ⟨found, List.mem_cons_of_mem _ member, path⟩
  | case4 seen vertex rest other fresh inductionHypothesis =>
    rw [comesTo, if_neg other, if_neg fresh] at comes
    obtain ⟨found, member, path⟩ := inductionHypothesis comes
    rcases List.mem_append.mp member with pushed | below
    · have edge : leads graph vertex found := List.mem_reverse.mp pushed
      exact ⟨vertex, List.mem_cons_self, path.head edge⟩
    · exact ⟨found, List.mem_cons_of_mem _ below, path⟩

/-- Where the search does not come to the start, what it went through is closed under the edges:
the certificate that nothing was missed. -/
theorem closed_of_not_comesTo {graph : Table Vertex (List Vertex)} {start : Vertex}
    {stack seen : List Vertex} (misses : comesTo graph start stack seen = false)
    (notSeen : start ∉ seen) :
    ∃ reached : Set Vertex, start ∉ reached ∧ (∀ vertex ∈ stack, vertex ∈ reached) ∧
      (∀ vertex ∈ seen, vertex ∈ reached) ∧
      ∀ vertex ∈ reached, vertex ∉ seen → ∀ next, leads graph vertex next → next ∈ reached := by
  induction stack, seen using comesTo.induct graph start with
  | case1 seen =>
    refine ⟨{vertex | vertex ∈ seen}, notSeen, ?_, fun _ member => member, ?_⟩
    · exact fun _ member => absurd member List.not_mem_nil
    · exact fun vertex member fresh => absurd member fresh
  | case2 seen rest =>
    rw [comesTo, if_pos rfl] at misses
    cases misses
  | case3 seen vertex rest other isSeen inductionHypothesis =>
    rw [comesTo, if_neg other, if_pos isSeen] at misses
    obtain ⟨reached, outside, stacked, covered, closed⟩ := inductionHypothesis misses notSeen
    refine ⟨reached, outside, fun found member => ?_, covered, closed⟩
    rcases List.mem_cons.mp member with isVertex | below
    · exact isVertex ▸ covered vertex isSeen
    · exact stacked found below
  | case4 seen vertex rest other fresh inductionHypothesis =>
    rw [comesTo, if_neg other, if_neg fresh] at misses
    have stillNotSeen : start ∉ vertex :: seen := by
      rw [List.mem_cons, not_or]
      exact ⟨Ne.symm other, notSeen⟩
    obtain ⟨reached, outside, stacked, covered, closed⟩ := inductionHypothesis misses stillNotSeen
    have inside : vertex ∈ reached := covered vertex List.mem_cons_self
    refine ⟨reached, outside, fun found member => ?_,
      fun found member => covered found (List.mem_cons_of_mem _ member), ?_⟩
    · rcases List.mem_cons.mp member with isVertex | below
      · exact isVertex ▸ inside
      · exact stacked found (List.mem_append_right _ below)
    · intro found member notBefore next edge
      by_cases same : found = vertex
      · subst same
        exact stacked next (List.mem_append_left _ (List.mem_reverse.mpr edge))
      · refine closed found member ?_ next edge
        rw [List.mem_cons, not_or]
        exact ⟨same, notBefore⟩

/-- Started at those that a vertex leads to, the search comes back to it exactly where the vertex
is on a cycle. -/
theorem comesTo_iff (graph : Table Vertex (List Vertex)) (start : Vertex) :
    comesTo graph start (nextOf graph start).reverse [] = true ↔
      TransGen (leads graph) start start := by
  constructor
  · intro comes
    obtain ⟨vertex, member, path⟩ := reaches_of_comesTo comes
    have edge : leads graph start vertex := List.mem_reverse.mp member
    exact TransGen.head' edge path
  · intro cycle
    by_contra misses
    obtain ⟨reached, outside, stacked, _, closed⟩ :=
      closed_of_not_comesTo (Bool.eq_false_iff.mpr misses) List.not_mem_nil
    have stays : ∀ vertex, TransGen (leads graph) start vertex → vertex ∈ reached := by
      intro vertex path
      induction path with
      | single edge => exact stacked _ (List.mem_reverse.mpr edge)
      | tail _ edge inductionHypothesis =>
        exact closed _ inductionHypothesis List.not_mem_nil _ edge
    exact outside (stays start cycle)

/-- Started at these vertices, the search comes to another exactly where a path from one of them
leads there. -/
theorem comesTo_stack_iff (graph : Table Vertex (List Vertex)) (stack : List Vertex)
    (target : Vertex) :
    comesTo graph target stack [] = true ↔
      ∃ source ∈ stack, ReflTransGen (leads graph) source target := by
  refine ⟨reaches_of_comesTo, ?_⟩
  rintro ⟨source, member, path⟩
  by_contra misses
  obtain ⟨reached, outside, stacked, _, closed⟩ :=
    closed_of_not_comesTo (Bool.eq_false_iff.mpr misses) List.not_mem_nil
  have stays : ∀ vertex, ReflTransGen (leads graph) source vertex → vertex ∈ reached := by
    intro vertex path
    induction path with
    | refl => exact stacked _ member
    | tail _ edge inductionHypothesis =>
      exact closed _ inductionHypothesis List.not_mem_nil _ edge
  exact outside (stays target path)

/-! ### A table from edges -/

/-- The graph of a list of edges. -/
def tableOf (edges : List (Vertex × Vertex)) : Table Vertex (List Vertex) :=
  edges.foldl (fun graph edge => graph.insert edge.1 (nextOf graph edge.1 ++ [edge.2])) Table.empty

theorem leads_insert (graph : Table Vertex (List Vertex)) (edge : Vertex × Vertex)
    (first second : Vertex) :
    leads (graph.insert edge.1 (nextOf graph edge.1 ++ [edge.2])) first second ↔
      leads graph first second ∨ (first, second) = edge := by
  obtain ⟨source, target⟩ := edge
  by_cases same : first = source
  · subst same
    simp [leads, nextOf]
  · simp [leads, nextOf, Table.get?_insert_of_ne _ _ same, same]

/-- The graph leads along the edges of the list. -/
theorem leads_tableOf (edges : List (Vertex × Vertex)) (first second : Vertex) :
    leads (tableOf edges) first second ↔ (first, second) ∈ edges := by
  induction edges using List.reverseRecOn with
  | nil => simp [tableOf, leads, nextOf]
  | append_singleton edges edge inductionHypothesis =>
    have unfolds : tableOf (edges ++ [edge]) =
        (tableOf edges).insert edge.1 (nextOf (tableOf edges) edge.1 ++ [edge.2]) := by
      rw [tableOf, List.foldl_append]
      rfl
    rw [unfolds, leads_insert, inductionHypothesis, List.mem_append, List.mem_singleton]

end Search

/-! ### Vertices settled -/

/-- A vertex is settled where it is good and all those it leads to are settled before it. -/
inductive Settled (leadsTo : Vertex → Vertex → Prop) (good : Vertex → Prop) : Vertex → Prop
  | intro (vertex : Vertex) (isGood : good vertex)
      (next : ∀ other, leadsTo vertex other → Settled leadsTo good other) :
      Settled leadsTo good vertex

section Settled

variable {leadsTo : Vertex → Vertex → Prop} {good : Vertex → Prop}

theorem Settled.isGood {vertex : Vertex} (settled : Settled leadsTo good vertex) : good vertex := by
  cases settled with
  | intro _ isGood _ => exact isGood

/-- No vertex settled is on a cycle: the one settled first would have to be settled before itself. -/
theorem Settled.not_cycle {vertex : Vertex} (settled : Settled leadsTo good vertex) :
    ¬ TransGen leadsTo vertex vertex := by
  induction settled with
  | intro vertex _ next inductionHypothesis =>
    intro cycle
    obtain ⟨other, edge, rest⟩ := TransGen.head'_iff.mp cycle
    exact inductionHypothesis other edge (TransGen.tail' rest edge)

end Settled

end Dagq.Lib
