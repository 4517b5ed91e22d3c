/-
This file changes the edges of a graph. Edges added close a cycle only through one of
them. Then it takes a vertex out: what waits for it waits for others in its place.
Where those that stand in for it neither are it nor wait for what waits for it, no
cycle is closed, and who waits for a stand-in waits for all it waits for.
-/

import Mathlib.Data.Finset.Insert
import Mathlib.Data.Set.Basic
import Mathlib.Logic.Relation

namespace Dagq.Lib

open Relation

variable {Vertex : Type*}

/-- No vertex waits for itself, directly or not. -/
def Acyclic (waits : Vertex → Vertex → Prop) : Prop := ∀ vertex, ¬ TransGen waits vertex vertex

/-- A graph whose edges lead to lower ranks has no cycle. -/
theorem acyclic_of_rank {waits : Vertex → Vertex → Prop} (rank : Vertex → Nat)
    (lower : ∀ first second, waits first second → rank second < rank first) : Acyclic waits := by
  have path : ∀ {first second : Vertex}, TransGen waits first second → rank second < rank first := by
    intro first second steps
    induction steps with
    | single edge => exact lower _ _ edge
    | tail _ edge inductionHypothesis => exact (lower _ _ edge).trans inductionHypothesis
  exact fun vertex cycle => lt_irrefl _ (path cycle)

/-- A graph of fewer edges has no more cycles. -/
theorem Acyclic.mono {waits fewer : Vertex → Vertex → Prop} (acyclic : Acyclic waits)
    (subset : ∀ first second, fewer first second → waits first second) : Acyclic fewer :=
  fun vertex cycle => acyclic vertex (TransGen.mono (fun _ _ => subset _ _) _ _ cycle)

/-- Of finitely many vertices, one waits for none of the others. -/
theorem Acyclic.exists_last {waits : Vertex → Vertex → Prop} (acyclic : Acyclic waits)
    (vertices : Finset Vertex) (nonempty : vertices.Nonempty) :
    ∃ last ∈ vertices, ∀ other ∈ vertices, ¬ TransGen waits last other := by
  classical
  induction vertices using Finset.induction_on with
  | empty => exact absurd nonempty Finset.not_nonempty_empty
  | insert vertex rest fresh inductionHypothesis =>
    rcases rest.eq_empty_or_nonempty with rfl | restNonempty
    · refine ⟨vertex, Finset.mem_insert_self _ _, fun other member => ?_⟩
      rw [Finset.mem_insert] at member
      rcases member with rfl | inEmpty
      · exact acyclic other
      · exact absurd inEmpty (Finset.notMem_empty other)
    · obtain ⟨last, isIn, waitsForNone⟩ := inductionHypothesis restNonempty
      by_cases waitsForVertex : TransGen waits last vertex
      · -- what `vertex` waits for, `last` waits for too, and that is none of the rest
        refine ⟨vertex, Finset.mem_insert_self _ _, fun other member path => ?_⟩
        rw [Finset.mem_insert] at member
        rcases member with rfl | inRest
        · exact acyclic other path
        · exact waitsForNone other inRest (waitsForVertex.trans path)
      · refine ⟨last, Finset.mem_insert_of_mem isIn, fun other member path => ?_⟩
        rw [Finset.mem_insert] at member
        rcases member with rfl | inRest
        · exact waitsForVertex path
        · exact waitsForNone other inRest path

/-! ### Edges added -/

/-- A path of a graph with edges added is a path of the graph, or passes an edge added. -/
theorem path_of_added {waits added : Vertex → Vertex → Prop} {first second : Vertex}
    (path : TransGen (fun one other => waits one other ∨ added one other) first second) :
    TransGen waits first second ∨ ∃ source target, added source target ∧
      ReflTransGen (fun one other => waits one other ∨ added one other) first source ∧
      ReflTransGen (fun one other => waits one other ∨ added one other) target second := by
  induction path with
  | single edge =>
    rcases edge with edge | isAdded
    · exact Or.inl (.single edge)
    · exact Or.inr ⟨_, _, isAdded, .refl, .refl⟩
  | tail before edge inductionHypothesis =>
    rcases inductionHypothesis with path | ⟨source, target, isAdded, start, rest⟩
    · rcases edge with edge | isAdded
      · exact Or.inl (path.tail edge)
      · exact Or.inr ⟨_, _, isAdded, before.to_reflTransGen, .refl⟩
    · exact Or.inr ⟨source, target, isAdded, start, rest.tail edge⟩

/-- Edges added to a graph without cycles close one exactly where they lead a source of theirs back
to itself. -/
theorem acyclic_added_iff {waits added : Vertex → Vertex → Prop} (acyclic : Acyclic waits) :
    Acyclic (fun one other => waits one other ∨ added one other) ↔
      ∀ source target, added source target →
        ¬ TransGen (fun one other => waits one other ∨ added one other) source source := by
  refine ⟨fun after source _ _ => after source, fun unclosed vertex cycle => ?_⟩
  rcases path_of_added cycle with before | ⟨source, target, isAdded, start, rest⟩
  · exact acyclic vertex before
  · -- the cycle, read from the source of the edge it passes
    exact unclosed source target isAdded (TransGen.head' (Or.inr isAdded) (rest.trans start))

/-- A path to the source of the one edge added needs no edge added. -/
theorem path_to_source {waits : Vertex → Vertex → Prop} {source target first : Vertex}
    (path : ReflTransGen (fun one other => waits one other ∨ (one = source ∧ other = target)) first
      source) : ReflTransGen waits first source := by
  induction path using ReflTransGen.head_induction_on with
  | refl => exact .refl
  | head edge _ inductionHypothesis =>
    rcases edge with edge | ⟨rfl, rfl⟩
    · exact inductionHypothesis.head edge
    · exact .refl

/-- One edge added closes no cycle where its target does not lead to its source. -/
theorem acyclic_add_edge {waits : Vertex → Vertex → Prop} (acyclic : Acyclic waits)
    {source target : Vertex} (unclosed : ¬ ReflTransGen waits target source) :
    Acyclic fun one other => waits one other ∨ (one = source ∧ other = target) := by
  refine (acyclic_added_iff acyclic).mpr ?_
  rintro _ _ ⟨rfl, rfl⟩ cycle
  obtain ⟨next, edge, rest⟩ := TransGen.head'_iff.mp cycle
  have back := path_to_source rest
  rcases edge with edge | ⟨_, rfl⟩
  · exact acyclic _ (TransGen.head' edge back)
  · exact unclosed back

/-! ### A vertex replaced -/

/-- The graph in which the vertices moved wait for those that stand in for `out` instead of it. -/
def rewired (waits : Vertex → Vertex → Prop) (out : Vertex) (moved : Vertex → Prop)
    (standIns : Vertex → Set Vertex) (first second : Vertex) : Prop :=
  (waits first second ∧ ¬ (moved first ∧ second = out)) ∨ (moved first ∧ second ∈ standIns first)

/-- A vertex that neither is this one nor waits for it. -/
def Free (waits : Vertex → Vertex → Prop) (out vertex : Vertex) : Prop :=
  vertex ≠ out ∧ ¬ TransGen waits vertex out

section Rewired

variable {waits : Vertex → Vertex → Prop} {out : Vertex} {moved : Vertex → Prop}
  {standIns : Vertex → Set Vertex}

/-- What a free vertex waits for is free. -/
theorem Free.next {first second : Vertex} (free : Free waits out first)
    (edge : waits first second) : Free waits out second :=
  ⟨fun isOut => free.2 (isOut ▸ TransGen.single edge), fun later => free.2 (later.head edge)⟩

/-- A vertex other than `out` that waits for free ones only is free. -/
theorem free_of_next {vertex : Vertex} (other : vertex ≠ out)
    (next : ∀ second, waits vertex second → Free waits out second) : Free waits out vertex := by
  refine ⟨other, fun waitsFor => ?_⟩
  obtain ⟨second, edge, later⟩ := TransGen.head'_iff.mp waitsFor
  rcases reflTransGen_iff_eq_or_transGen.mp later with isOut | later
  · exact (next second edge).1 isOut.symm
  · exact (next second edge).2 later

/-- A free vertex keeps its edges, since only what waits for `out` is moved. -/
theorem Free.rewired_iff (movedWait : ∀ vertex, moved vertex → TransGen waits vertex out)
    {first second : Vertex} (free : Free waits out first) :
    rewired waits out moved standIns first second ↔ waits first second := by
  have unmoved : ¬ moved first := fun isMoved => free.2 (movedWait first isMoved)
  constructor
  · rintro (⟨edge, _⟩ | ⟨isMoved, _⟩)
    · exact edge
    · exact absurd isMoved unmoved
  · exact fun edge => Or.inl ⟨edge, fun both => unmoved both.1⟩

theorem Free.reach (movedWait : ∀ vertex, moved vertex → TransGen waits vertex out)
    {first second : Vertex} (free : Free waits out first)
    (path : ReflTransGen (rewired waits out moved standIns) first second) :
    Free waits out second := by
  induction path with
  | refl => exact free
  | tail _ edge inductionHypothesis =>
    exact inductionHypothesis.next ((inductionHypothesis.rewired_iff movedWait).mp edge)

/-- A path after the rewiring is one before it, or passes from a vertex moved to a stand-in. -/
theorem path_cases {first second : Vertex}
    (path : TransGen (rewired waits out moved standIns) first second) :
    TransGen waits first second ∨ ∃ vertex standIn, moved vertex ∧ standIn ∈ standIns vertex ∧
      ReflTransGen (rewired waits out moved standIns) first vertex ∧
      ReflTransGen (rewired waits out moved standIns) standIn second := by
  rcases path_of_added path with kept | ⟨vertex, standIn, ⟨isMoved, isStandIn⟩, before, after⟩
  · exact Or.inl (kept.lift id fun _ _ edge => edge.1)
  · exact Or.inr ⟨vertex, standIn, isMoved, isStandIn, before, after⟩

/-- Where the stand-ins are free, the rewiring closes no cycle. -/
theorem acyclic_rewired (acyclic : Acyclic waits)
    (movedWait : ∀ vertex, moved vertex → TransGen waits vertex out)
    (free : ∀ vertex, moved vertex → ∀ standIn ∈ standIns vertex, Free waits out standIn) :
    Acyclic (rewired waits out moved standIns) := by
  intro vertex cycle
  rcases path_cases cycle with before | ⟨start, standIn, isMoved, isStandIn, before, after⟩
  · exact acyclic vertex before
  · -- the cycle leads from the stand-in, which is free, back to one that waits for `out`
    have isFree := (free start isMoved standIn isStandIn).reach movedWait (after.trans before)
    exact isFree.2 (movedWait start isMoved)

/-- One moved waits for all that a stand-in of its own waits for. -/
theorem waits_rewired (movedWait : ∀ vertex, moved vertex → TransGen waits vertex out)
    {vertex standIn second : Vertex} (isMoved : moved vertex) (isStandIn : standIn ∈ standIns vertex)
    (free : Free waits out standIn) (edge : waits standIn second) :
    TransGen (rewired waits out moved standIns) vertex second := by
  have first : rewired waits out moved standIns vertex standIn := Or.inr ⟨isMoved, isStandIn⟩
  exact (TransGen.single first).tail ((free.rewired_iff movedWait).mpr edge)

end Rewired

end Dagq.Lib
