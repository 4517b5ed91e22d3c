/-
This file searches a graph: a stack of vertices yet to look at and the set of those
reached. Every vertex is looked at once, so the search ends after as many rounds as
there are edges; it has then reached exactly what some path of edges leads to.
-/

import Mathlib.Algebra.BigOperators.Group.Finset.Basic
import Mathlib.Logic.Relation
import Mathlib.Tactic
import Dagq.Lib.Loop

namespace Dagq.Lib

/-- The vertices reached, and the stack of those yet to look at, its top first. -/
structure Search (Vertex : Type) where
  pending : List Vertex
  reached : Finset Vertex

section Reach

variable {Vertex : Type} [DecidableEq Vertex] (next : Vertex → List Vertex)

/-- Take a vertex off the stack; one not reached before puts those after it onto the stack. -/
def Search.step (search : Search Vertex) : Option (Search Vertex) :=
  match search.pending with
  | [] => none
  | vertex :: rest =>
    if vertex ∈ search.reached then some { search with pending := rest }
    else some
      { pending := (next vertex).reverse ++ rest
        reached := insert vertex search.reached }

def Search.start (vertex : Vertex) : Search Vertex := ⟨(next vertex).reverse, ∅⟩

/-- The search from a vertex. -/
def search (fuel : Nat) (vertex : Vertex) : Search Vertex :=
  loop (Search.step next) fuel (Search.start next vertex)

/-! ### What a search keeps -/

/-- A path of one edge or more leads from the first vertex to the second. -/
abbrev LeadsTo (first second : Vertex) : Prop :=
  Relation.TransGen (fun one other => other ∈ next one) first second

/-- All that the search has found is led to, and nothing is after what it has looked at but what it
has found. -/
structure Search.Sound (first : Vertex) (search : Search Vertex) : Prop where
  leads : ∀ vertex, vertex ∈ search.pending ∨ vertex ∈ search.reached →
    LeadsTo next first vertex
  first : ∀ vertex ∈ next first, vertex ∈ search.pending ∨ vertex ∈ search.reached
  later : ∀ one ∈ search.reached, ∀ vertex ∈ next one,
    vertex ∈ search.pending ∨ vertex ∈ search.reached

variable {next} {first : Vertex}

omit [DecidableEq Vertex] in
theorem Search.sound_start : Search.Sound next first (Search.start next first) where
  leads vertex found := by
    refine .single ?_
    simpa [Search.start] using found
  first vertex after := Or.inl (List.mem_reverse.mpr after)
  later one reached := absurd reached (Finset.notMem_empty one)

theorem Search.Sound.step {before after : Search Vertex} (sound : before.Sound next first)
    (steps : before.step next = some after) : after.Sound next first := by
  obtain ⟨pending, reached⟩ := before
  cases pending with
  | nil => cases steps
  | cons vertex rest =>
    have isLed : LeadsTo next first vertex := sound.leads vertex (Or.inl List.mem_cons_self)
    dsimp only [Search.step] at steps
    split at steps
    · rename_i isReached
      obtain rfl := Option.some.inj steps
      -- What was on top of the stack is reached, so nothing found is lost.
      have found : ∀ other, other ∈ vertex :: rest ∨ other ∈ reached →
          other ∈ rest ∨ other ∈ reached := by
        rintro other (onStack | isIn)
        · rcases List.mem_cons.mp onStack with rfl | onRest
          · exact Or.inr isReached
          · exact Or.inl onRest
        · exact Or.inr isIn
      exact
        { leads := fun other isFound =>
            sound.leads other (isFound.imp_left (List.mem_cons_of_mem vertex))
          first := fun other isAfter => found other (sound.first other isAfter)
          later := fun one isIn other isAfter => found other (sound.later one isIn other isAfter) }
    · obtain rfl := Option.some.inj steps
      have found : ∀ other, other ∈ vertex :: rest ∨ other ∈ reached →
          other ∈ (next vertex).reverse ++ rest ∨ other ∈ insert vertex reached := by
        intro other
        simp only [List.mem_cons, List.mem_append, List.mem_reverse, Finset.mem_insert]
        tauto
      refine ⟨fun other isFound => ?_, fun other isAfter => found other (sound.first other isAfter),
        fun one isIn other isAfter => ?_⟩
      · simp only [List.mem_append, List.mem_reverse, Finset.mem_insert] at isFound
        rcases isFound with (isAfter | onRest) | rfl | isIn
        · exact isLed.tail isAfter
        · exact sound.leads other (Or.inl (List.mem_cons_of_mem vertex onRest))
        · exact isLed
        · exact sound.leads other (Or.inr isIn)
      · rcases Finset.mem_insert.mp isIn with rfl | wasIn
        · exact Or.inl (List.mem_append_left rest (List.mem_reverse.mpr isAfter))
        · exact found other (sound.later one wasIn other isAfter)

/-! ### The rounds of a search -/

/-- The rounds left: the stack, and the edges of the vertices not yet looked at. -/
def Search.rounds (next : Vertex → List Vertex) (vertices : Finset Vertex)
    (search : Search Vertex) : Nat :=
  search.pending.length + ∑ vertex ∈ vertices \ search.reached, (next vertex).length

/-- A round leaves one fewer, where the vertices are all that have edges. -/
theorem Search.rounds_step {vertices : Finset Vertex}
    (all : ∀ vertex, next vertex ≠ [] → vertex ∈ vertices) {before after : Search Vertex}
    (steps : before.step next = some after) :
    after.rounds next vertices + 1 = before.rounds next vertices := by
  obtain ⟨pending, reached⟩ := before
  cases pending with
  | nil => cases steps
  | cons vertex rest =>
    dsimp only [Search.step] at steps
    split at steps
    · obtain rfl := Option.some.inj steps
      simp only [Search.rounds, List.length_cons]
      omega
    · rename_i isNew
      obtain rfl := Option.some.inj steps
      simp only [Search.rounds, List.length_append, List.length_reverse, List.length_cons,
        Finset.sdiff_insert]
      by_cases isVertex : vertex ∈ vertices
      · have among : vertex ∈ vertices \ reached := Finset.mem_sdiff.mpr ⟨isVertex, isNew⟩
        have sum := Finset.add_sum_erase _ (fun other => (next other).length) among
        omega
      · have noEdges : next vertex = [] := by
          by_contra hasEdges
          exact isVertex (all vertex hasEdges)
        have notAmong : vertex ∉ vertices \ reached := fun among =>
          isVertex (Finset.mem_sdiff.mp among).1
        rw [Finset.erase_eq_of_notMem notAmong, noEdges, List.length_nil]
        omega

/-- The search ends. -/
theorem search_ends {vertices : Finset Vertex}
    (all : ∀ vertex, next vertex ≠ [] → vertex ∈ vertices) {fuel : Nat}
    (enough : (next first).length + ∑ vertex ∈ vertices, (next vertex).length ≤ fuel) :
    (search next fuel first).step next = none := by
  refine @loop_ends _ (Search.step next) fuel _ (fun _ => True) (Search.rounds next vertices)
    (fun before after _ steps => ⟨trivial, ?_⟩) trivial ?_
  · have fewer := Search.rounds_step all steps
    omega
  · simpa [Search.rounds, Search.start] using enough

/-- What a search that has ended has reached is what the edges lead to. -/
theorem mem_reached {fuel : Nat} (ended : (search next fuel first).step next = none)
    {vertex : Vertex} :
    vertex ∈ (search next fuel first).reached ↔ LeadsTo next first vertex := by
  have sound : (search next fuel first).Sound next first :=
    loop_keeps (fun _ _ kept steps => kept.step steps) Search.sound_start
  have nothingPending : (search next fuel first).pending = [] := by
    cases isPending : (search next fuel first).pending with
    | nil => rfl
    | cons top rest =>
      rw [Search.step, isPending] at ended
      dsimp only at ended
      split at ended <;> cases ended
  refine ⟨fun reached => sound.leads vertex (Or.inr reached), fun leads => ?_⟩
  have found : ∀ other, other ∈ (search next fuel first).pending ∨
      other ∈ (search next fuel first).reached → other ∈ (search next fuel first).reached := by
    rintro other (isPending | reached)
    · rw [nothingPending] at isPending
      cases isPending
    · exact reached
  induction leads with
  | single isAfter => exact found _ (sound.first _ isAfter)
  | tail _ isAfter inductionHypothesis =>
    exact found _ (sound.later _ inductionHypothesis _ isAfter)

end Reach

/-! ### Walks without a cycle -/

section Acyclic

variable {Vertex : Type} {edge : Vertex → Vertex → Prop} {reached : Vertex → Finset Vertex}

/-- Where no path comes back to its start, less is reached from a vertex further on. -/
theorem reached_ssubset
    (isReached : ∀ one other, other ∈ reached one ↔ Relation.TransGen edge one other)
    (acyclic : ∀ one, ¬ Relation.TransGen edge one one) {one other : Vertex}
    (leads : Relation.TransGen edge one other) : reached other ⊂ reached one := by
  rw [Finset.ssubset_iff_of_subset fun third further =>
    (isReached one third).mpr (leads.trans ((isReached other third).mp further))]
  exact ⟨other, (isReached one other).mpr leads, fun back =>
    acyclic other ((isReached other other).mp back)⟩

end Acyclic

end Dagq.Lib
