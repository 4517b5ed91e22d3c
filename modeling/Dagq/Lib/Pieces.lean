/-
This file cuts a line into pieces: points in ascending order make a piece from each
to the next, with a label read at its start. Pieces cut at a time are the pieces of the
points before it and of that time; the last piece made longer is the piece to another
last point.
-/

import Mathlib.Data.List.Sort
import Mathlib.Data.List.Dedup
import Mathlib.Tactic
import Dagq.Lib.Tiles

namespace Dagq.Lib

/-! ### Points -/

section

variable {Time : Type*} [LinearOrder Time]

theorem sorted_dedup (times : List Time) :
    ((times.insertionSort (· ≤ ·)).dedup).Pairwise (· < ·) := by
  have sorted := (List.pairwise_insertionSort (· ≤ ·) times).sublist (List.dedup_sublist _)
  exact (sorted.and (List.nodup_dedup (times.insertionSort (· ≤ ·)))).imp
    fun both => lt_of_le_of_ne both.1 both.2

theorem mem_sorted_dedup {times : List Time} {time : Time} :
    time ∈ (times.insertionSort (· ≤ ·)).dedup ↔ time ∈ times := by
  rw [List.mem_dedup, List.mem_insertionSort]

/-- The last point not after a time. -/
theorem exists_floor {points : List Time} {first time : Time} (among : first ∈ points)
    (reached : first ≤ time) :
    ∃ point ∈ points, point ≤ time ∧ ∀ other ∈ points, other ≤ time → other ≤ point := by
  obtain ⟨point, isPoint, greatest⟩ := (points.toFinset.filter (· ≤ time)).exists_max_image id
    ⟨first, Finset.mem_filter.mpr ⟨List.mem_toFinset.mpr among, reached⟩⟩
  obtain ⟨isAmong, isReached⟩ := Finset.mem_filter.mp isPoint
  exact ⟨point, List.mem_toFinset.mp isAmong, isReached, fun other otherAmong otherReached =>
    greatest other (Finset.mem_filter.mpr ⟨List.mem_toFinset.mpr otherAmong, otherReached⟩)⟩

/-- No point lies between a point and the next. -/
theorem zip_tail_gap {points : List Time} (ascending : points.Pairwise (· < ·))
    {start end_ : Time} (piece : (start, end_) ∈ points.zip points.tail) :
    start < end_ ∧ ∀ point ∈ points, point ≤ start ∨ end_ ≤ point := by
  induction points with
  | nil => cases piece
  | cons first rest inductionHypothesis =>
    obtain ⟨firstLess, restAscending⟩ := List.pairwise_cons.mp ascending
    cases rest with
    | nil => cases piece
    | cons second rest =>
      rw [List.tail_cons, List.zip_cons_cons] at piece
      rcases List.mem_cons.mp piece with isFirst | later
      · obtain ⟨rfl, rfl⟩ := Prod.mk.inj isFirst
        refine ⟨firstLess _ List.mem_cons_self, List.forall_mem_cons.mpr
          ⟨Or.inl le_rfl, List.forall_mem_cons.mpr ⟨Or.inr le_rfl, fun point among => ?_⟩⟩⟩
        exact Or.inr ((List.pairwise_cons.mp restAscending).1 point among).le
      · obtain ⟨less, gap⟩ := inductionHypothesis restAscending later
        have isRest : start ∈ second :: rest := (List.of_mem_zip later).1
        exact ⟨less, List.forall_mem_cons.mpr ⟨Or.inl (firstLess start isRest).le, gap⟩⟩

end

/-! ### Pieces -/

section

variable {Time Label : Type*}

/-- The pieces between points, each with the label of its start. -/
def pieces (label : Time → Label) (points : List Time) : List (Time × Time × Label) :=
  (points.zip points.tail).map fun ends => (ends.1, ends.2, label ends.1)

/-- The last piece with another end. -/
def endLast (change : Time → Time) : List (Time × Time × Label) → List (Time × Time × Label)
  | [] => []
  | [(start, end_, label)] => [(start, change end_, label)]
  | piece :: next :: rest => piece :: endLast change (next :: rest)

variable {label other : Time → Label} {points : List Time} {last far : Time}

theorem pieces_cons_cons (first second : Time) (rest : List Time) :
    pieces label (first :: second :: rest) =
      (first, second, label first) :: pieces label (second :: rest) := rfl

theorem pieces_ne_nil (isStarted : points ≠ []) : pieces label (points ++ [last]) ≠ [] := by
  cases points with
  | nil => exact absurd rfl isStarted
  | cons first rest => cases rest <;> exact List.cons_ne_nil _ _

theorem endLast_cons {change : Time → Time} (piece : Time × Time × Label)
    {rest : List (Time × Time × Label)} (isLonger : rest ≠ []) :
    endLast change (piece :: rest) = piece :: endLast change rest := by
  cases rest with
  | nil => exact absurd rfl isLonger
  | cons next rest => rfl

/-- Pieces of the same points are the same where the labels of all but the last are. -/
theorem pieces_eq_iff :
    pieces label (points ++ [last]) = pieces other (points ++ [last]) ↔
      ∀ point ∈ points, label point = other point := by
  induction points with
  | nil => simp [pieces]
  | cons first rest inductionHypothesis =>
    have sameEnds : ∃ second, ∀ label : Time → Label, pieces label (first :: rest ++ [last]) =
        (first, second, label first) :: pieces label (rest ++ [last]) := by
      cases rest with
      | nil => exact ⟨last, fun _ => rfl⟩
      | cons second rest => exact ⟨second, fun _ => rfl⟩
    obtain ⟨second, isCons⟩ := sameEnds
    rw [isCons, isCons, List.cons.injEq, inductionHypothesis, List.forall_mem_cons]
    simp

/-- The last piece made longer ends at the other last point. -/
theorem endLast_pieces (isStarted : points ≠ []) :
    endLast (fun _ => far) (pieces label (points ++ [last])) = pieces label (points ++ [far]) := by
  induction points with
  | nil => exact absurd rfl isStarted
  | cons first rest inductionHypothesis =>
    cases rest with
    | nil => rfl
    | cons second rest =>
      have isLonger : pieces label (second :: rest ++ [last]) ≠ [] :=
        pieces_ne_nil (List.cons_ne_nil _ _)
      show endLast _ ((first, second, label first) :: pieces label (second :: rest ++ [last])) = _
      rw [endLast_cons _ isLonger, inductionHypothesis (List.cons_ne_nil _ _)]
      rfl

/-- The pieces of ascending points tile the line from the first of them to the last. -/
theorem tiles_pieces [LinearOrder Time] {first : Time}
    (ascending : (first :: points).Pairwise (· < ·)) :
    Tiles (·.1) (·.2.1) first (pieces label (first :: points))
      ((first :: points).getLast (List.cons_ne_nil _ _)) := by
  induction points generalizing first with
  | nil => exact laid_nil
  | cons second rest inductionHypothesis =>
    obtain ⟨firstLess, restAscending⟩ := List.pairwise_cons.mp ascending
    exact ⟨rfl, firstLess second List.mem_cons_self, inductionHypothesis restAscending⟩

/-- Points of a span, both ends of it among them, cut it into pieces. -/
theorem tiles_pieces_span [LinearOrder Time] {lower upper : Time}
    (ascending : points.Pairwise (· < ·)) (hasLower : lower ∈ points) (hasUpper : upper ∈ points)
    (inSpan : ∀ point ∈ points, lower ≤ point ∧ point ≤ upper) :
    Tiles (·.1) (·.2.1) lower (pieces label points) upper := by
  cases points with
  | nil => cases hasLower
  | cons first rest =>
    have firstIs : first = lower := by
      rcases List.mem_cons.mp hasLower with isFirst | later
      · exact isFirst.symm
      · exact absurd (inSpan first List.mem_cons_self).1
          (not_le.mpr ((List.pairwise_cons.mp ascending).1 lower later))
    have lastIs : (first :: rest).getLast (List.cons_ne_nil _ _) = upper := by
      have isLast := List.getLast_mem (List.cons_ne_nil first rest)
      refine le_antisymm (inSpan _ isLast).2 ?_
      exact (ascending.imp le_of_lt).rel_getLast hasUpper
    have tiles := @tiles_pieces _ _ label _ _ _ ascending
    rw [lastIs, firstIs] at tiles
    rwa [firstIs]

/-- Pieces cut at a time the points reach. -/
theorem endLast_filter_pieces [LinearOrder Time] {cut : Time} (ascending : points.Pairwise (· < ·))
    (reaches : ∃ point ∈ points, cut ≤ point) :
    endLast (min · cut) ((pieces label points).filter (·.1 < cut)) =
      pieces label (points.filter (· < cut) ++ [cut]) := by
  induction points with
  | nil =>
    obtain ⟨point, among, _⟩ := reaches
    cases among
  | cons first rest inductionHypothesis =>
    obtain ⟨firstLess, restAscending⟩ := List.pairwise_cons.mp ascending
    cases rest with
    | nil =>
      obtain ⟨point, among, reached⟩ := reaches
      obtain rfl := List.mem_singleton.mp among
      rw [List.filter_cons_of_neg (by simpa using reached)]
      rfl
    | cons second rest =>
      have restReaches : ∃ point ∈ second :: rest, cut ≤ point := by
        obtain ⟨point, among, reached⟩ := reaches
        rcases List.mem_cons.mp among with rfl | inRest
        · exact ⟨second, List.mem_cons_self,
            reached.trans (firstLess second List.mem_cons_self).le⟩
        · exact ⟨point, inRest, reached⟩
      have cutRest := inductionHypothesis restAscending restReaches
      have secondLess := (List.pairwise_cons.mp restAscending).1
      rw [pieces_cons_cons]
      by_cases secondBefore : second < cut
      · -- The cut falls in a later piece.
        have firstBefore := (firstLess second List.mem_cons_self).trans secondBefore
        rw [List.filter_cons_of_pos (by simpa using secondBefore)] at cutRest
        have isLonger : (pieces label (second :: rest)).filter (·.1 < cut) ≠ [] := by
          intro isNil
          rw [isNil] at cutRest
          cases h : rest.filter (· < cut) <;> rw [h] at cutRest <;> cases cutRest
        rw [List.filter_cons_of_pos (by simpa using firstBefore), endLast_cons _ isLonger, cutRest,
          List.filter_cons_of_pos (by simpa using firstBefore),
          List.filter_cons_of_pos (by simpa using secondBefore)]
        rfl
      · -- Nothing after the second point is left.
        have after : ∀ later ∈ second :: rest, ¬later < cut :=
          List.forall_mem_cons.mpr ⟨secondBefore, fun later among isBefore =>
            secondBefore ((secondLess later among).trans isBefore)⟩
        have noPieces : (pieces label (second :: rest)).filter (·.1 < cut) = [] := by
          refine List.filter_eq_nil_iff.mpr fun piece among => ?_
          obtain ⟨ends, isEnds, rfl⟩ := List.mem_map.mp among
          simpa using after ends.1 (List.of_mem_zip (a := ends.1) (b := ends.2) isEnds).1
        have noPoints : (second :: rest).filter (· < cut) = [] :=
          List.filter_eq_nil_iff.mpr fun later among => by simpa using after later among
        by_cases firstBefore : first < cut
        · rw [List.filter_cons_of_pos (by simpa using firstBefore), noPieces,
            List.filter_cons_of_pos (by simpa using firstBefore), noPoints]
          show [(first, min second cut, label first)] = [(first, cut, label first)]
          rw [min_eq_right (not_lt.mp secondBefore)]
        · rw [List.filter_cons_of_neg (by simpa using firstBefore), noPieces,
            List.filter_cons_of_neg (by simpa using firstBefore), noPoints]
          rfl

end

end Dagq.Lib
