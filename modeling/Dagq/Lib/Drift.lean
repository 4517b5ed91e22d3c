/-
This file moves items of a list back past others: a mover goes past a stretch
without blocks, and every mover is a block itself, so movers never pass each other.
However many such moves are made, the blocks keep their order among themselves, and
so do the items that are no movers, and each mover only ever comes to a later place.
-/

import Mathlib.Tactic

namespace Dagq.Lib

variable {Item : Type*}

/-! ### The places of the items a test takes -/

/-- The places of the items that the test takes, in order. -/
def placesOf (takes : Item → Bool) (items : List Item) : List Nat :=
  (items.zipIdx.filter fun placed => takes placed.1).map Prod.snd

theorem placesOf_append (takes : Item → Bool) (first second : List Item) :
    placesOf takes (first ++ second) =
      placesOf takes first ++ (placesOf takes second).map (· + first.length) := by
  have shifted : ∀ items : List Item, ∀ start, ((items.zipIdx start).filter fun placed =>
      takes placed.1).map Prod.snd = (placesOf takes items).map (· + start) := by
    intro items
    induction items with
    | nil => exact fun _ => rfl
    | cons item rest inductionHypothesis =>
      intro start
      simp only [placesOf, List.zipIdx_cons, List.filter_cons]
      split <;> simp [inductionHypothesis, Nat.add_comm, Nat.add_left_comm]
  unfold placesOf
  rw [List.zipIdx_append, List.filter_append, List.map_append, shifted second]
  simp [placesOf]

theorem placesOf_cons (takes : Item → Bool) (item : Item) (rest : List Item) :
    placesOf takes (item :: rest) =
      (if takes item then [0] else []) ++ (placesOf takes rest).map (· + 1) := by
  rw [← List.singleton_append, placesOf_append]
  congr 1
  cases isTaken : takes item <;> simp [placesOf, isTaken]

theorem placesOf_eq_nil {takes : Item → Bool} {items : List Item}
    (none_ : ∀ item ∈ items, takes item = false) : placesOf takes items = [] := by
  induction items with
  | nil => rfl
  | cons item rest inductionHypothesis =>
    obtain ⟨notTaken, others⟩ := List.forall_mem_cons.mp none_
    simp [placesOf_cons, notTaken, inductionHypothesis others]

theorem forall₂_le_trans {first second third : List Nat}
    (isLess : List.Forall₂ (· ≤ ·) first second) (isMore : List.Forall₂ (· ≤ ·) second third) :
    List.Forall₂ (· ≤ ·) first third := by
  induction isLess generalizing third with
  | nil => exact isMore
  | cons head _ inductionHypothesis =>
    cases isMore with
    | cons next rest => exact .cons (head.trans next) (inductionHypothesis rest)

/-! ### Moves back -/

/-- A mover is moved back past a stretch without blocks. -/
inductive MovedBack (moves blocks : Item → Bool) : List Item → List Item → Prop
  | past (front : List Item) (mover : Item) (stretch back : List Item)
      (isMover : moves mover = true) (isFree : ∀ item ∈ stretch, blocks item = false) :
      MovedBack moves blocks (front ++ mover :: (stretch ++ back))
        (front ++ (stretch ++ mover :: back))

/-- Any number of such moves. -/
def Drifts (moves blocks : Item → Bool) : List Item → List Item → Prop :=
  Relation.ReflTransGen (MovedBack moves blocks)

namespace Drifts

variable {moves blocks : Item → Bool} {before after : List Item}

theorem cons (item : Item) (drifts : Drifts moves blocks before after) :
    Drifts moves blocks (item :: before) (item :: after) := by
  induction drifts with
  | refl => exact .refl
  | tail _ step inductionHypothesis =>
    refine inductionHypothesis.tail ?_
    cases step with
    | past front mover stretch back isMover isFree =>
      exact .past (item :: front) mover stretch back isMover isFree

/-- What a move keeps, any number of moves keep. -/
theorem keeps {Result : Type*} (reading : List Item → Result)
    (each : ∀ front mover stretch back, moves mover = true →
      (∀ item ∈ stretch, blocks item = false) →
      reading (front ++ (stretch ++ mover :: back)) =
        reading (front ++ mover :: (stretch ++ back)))
    (drifts : Drifts moves blocks before after) : reading after = reading before := by
  induction drifts with
  | refl => rfl
  | tail _ step inductionHypothesis =>
    cases step with
    | past front mover stretch back isMover isFree =>
      rw [each front mover stretch back isMover isFree, inductionHypothesis]

theorem perm (drifts : Drifts moves blocks before after) : after.Perm before := by
  induction drifts with
  | refl => exact List.Perm.refl _
  | tail _ step inductionHypothesis =>
    cases step with
    | past front mover stretch back _ _ =>
      exact (List.perm_middle.append_left front).trans inductionHypothesis

/-- The items that are no movers keep their order. -/
theorem filter_others (drifts : Drifts moves blocks before after) :
    (after.filter fun item => !moves item) = before.filter fun item => !moves item := by
  refine drifts.keeps (fun items => items.filter fun item => !moves item) ?_
  intro front mover stretch back isMover _
  simp [isMover]

/-- Blocks keep their order, and so does any kind of block. -/
theorem filter_blocks (drifts : Drifts moves blocks before after) {kind : Item → Bool}
    (areBlocks : ∀ item, kind item = true → blocks item = true) :
    after.filter kind = before.filter kind := by
  refine drifts.keeps (fun items => items.filter kind) ?_
  intro front mover stretch back _ isFree
  have passedAll : stretch.filter kind = [] := by
    refine List.filter_eq_nil_iff.mpr fun item member isKind => ?_
    have isBlock := areBlocks item isKind
    rw [isFree item member] at isBlock
    cases isBlock
  simp [passedAll, List.filter_cons]

/-- The mover that comes first before comes first after, and so on: each is at its place or a
later one. -/
theorem places_le (drifts : Drifts moves blocks before after)
    (moversBlock : ∀ item, moves item = true → blocks item = true) :
    List.Forall₂ (· ≤ ·) (placesOf moves before) (placesOf moves after) := by
  induction drifts with
  | refl => exact List.forall₂_same.mpr fun _ _ => le_rfl
  | tail _ step inductionHypothesis =>
    cases step with
    | past front mover stretch back isMover isFree =>
      have passedNone : placesOf moves stretch = [] := by
        refine placesOf_eq_nil fun item member => ?_
        by_contra isMoving
        have free := isFree item member
        rw [moversBlock item (by simpa using isMoving)] at free
        cases free
      refine forall₂_le_trans inductionHypothesis ?_
      have same : ∀ places : List Nat, List.Forall₂ (· ≤ ·) places places :=
        fun places => List.forall₂_same.mpr fun _ _ => le_rfl
      simp only [placesOf_append, placesOf_cons, passedNone, isMover, if_true, List.map_nil,
        List.map_append, List.map_map, List.nil_append, List.map_cons]
      refine List.rel_append (same _) (List.rel_append (.cons ?_ .nil) ?_)
      · omega
      · refine List.forall₂_map_left_iff.mpr (List.forall₂_map_right_iff.mpr ?_)
        refine List.forall₂_same.mpr fun place _ => ?_
        show place + stretch.length + 1 + front.length ≤
          place + 1 + stretch.length + front.length
        omega

end Drifts

end Dagq.Lib
