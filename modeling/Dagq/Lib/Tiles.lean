/-
This file builds tilings: pieces of a line laid one after another, each starting
where the one before ends. Laid pieces are the pieces of a span and no more, so
their lengths add up to its length; and a tiling whose every piece is tiled
again, whole or cut to a part of the line, is a tiling of the span or of the part.
-/

import Mathlib.Algebra.BigOperators.Group.List.Basic
import Mathlib.Algebra.Order.Interval.Finset.SuccPred
import Mathlib.Data.Int.Interval
import Mathlib.Data.List.Chain
import Mathlib.Order.Interval.Finset.Basic
import Mathlib.Order.Lattice
import Mathlib.Tactic

namespace Dagq.Lib

/-! ### Pieces laid one after another -/

section Laid

variable {Time Piece Other : Type*}

/-- Pieces laid from `lower` to `upper`, each from its first time to its last, as long as
`long` asks. -/
def Laid (long : Time → Time → Prop) (first last : Piece → Time) :
    Time → List Piece → Time → Prop
  | lower, [], upper => lower = upper
  | lower, piece :: rest, upper =>
    first piece = lower ∧ long lower (last piece) ∧ Laid long first last (last piece) rest upper

variable {long longer : Time → Time → Prop} {first last : Piece → Time}
  {otherFirst otherLast : Other → Time} {lower middle upper : Time} {pieces more : List Piece}

theorem laid_nil : Laid long first last lower [] lower := rfl

theorem laid_single {piece : Piece} (isLong : long (first piece) (last piece)) :
    Laid long first last (first piece) [piece] (last piece) := ⟨rfl, isLong, rfl⟩

theorem Laid.append (laid : Laid long first last lower pieces middle)
    (after : Laid long first last middle more upper) :
    Laid long first last lower (pieces ++ more) upper := by
  induction pieces generalizing lower with
  | nil => exact (show lower = middle from laid) ▸ after
  | cons piece rest inductionHypothesis =>
    obtain ⟨starts, isLong, rest⟩ := laid
    exact ⟨starts, isLong, inductionHypothesis rest⟩

/-- Laid pieces end where the last of them does. -/
theorem Laid.upper_eq (laid : Laid long first last lower pieces upper) :
    upper = (pieces.getLast?.map last).getD lower := by
  induction pieces generalizing lower with
  | nil => exact (show lower = upper from laid).symm
  | cons piece rest inductionHypothesis =>
    rw [inductionHypothesis laid.2.2, List.getLast?_cons]
    cases rest.getLast? <;> rfl

/-- A piece laid again by pieces of its own, at the times `moved` of its ends. -/
theorem Laid.flatMap (moved : Time → Time) {laying : Piece → List Other}
    (laid : Laid long first last lower pieces upper)
    (each : ∀ piece ∈ pieces, long (first piece) (last piece) →
      Laid longer otherFirst otherLast (moved (first piece)) (laying piece) (moved (last piece))) :
    Laid longer otherFirst otherLast (moved lower) (pieces.flatMap laying) (moved upper) := by
  induction pieces generalizing lower with
  | nil => exact congrArg moved (show lower = upper from laid)
  | cons piece rest inductionHypothesis =>
    obtain ⟨starts, isLong, rest⟩ := laid
    rw [List.flatMap_cons]
    refine Laid.append ?_ (inductionHypothesis rest fun other among =>
      each other (List.mem_cons_of_mem _ among))
    rw [← starts]
    exact each piece (List.mem_cons_self ..) (starts ▸ isLong)

theorem Laid.head (laid : Laid long first last lower pieces upper) :
    ∀ piece, pieces.head? = some piece → first piece = lower := by
  intro piece isHead
  cases pieces with
  | nil => cases isHead
  | cons _ _ => exact (Option.some.inj isHead) ▸ laid.1

theorem Laid.last_ends (laid : Laid long first last lower pieces upper) :
    ∀ piece, pieces.getLast? = some piece → last piece = upper := by
  intro piece isLast
  rw [laid.upper_eq, isLast]
  rfl

theorem Laid.chain (laid : Laid long first last lower pieces upper) :
    pieces.IsChain fun before after => first after = last before := by
  induction pieces generalizing lower with
  | nil => exact List.isChain_nil
  | cons piece rest inductionHypothesis =>
    cases rest with
    | nil => exact List.isChain_singleton piece
    | cons next rest =>
      exact List.isChain_cons_cons.mpr ⟨laid.2.2.1, inductionHypothesis laid.2.2⟩

theorem Laid.long_of_mem (laid : Laid long first last lower pieces upper) :
    ∀ piece ∈ pieces, long (first piece) (last piece) := by
  induction pieces generalizing lower with
  | nil => exact fun _ among => by cases among
  | cons piece rest inductionHypothesis =>
    intro other among
    rcases List.mem_cons.mp among with isHead | inRest
    · rw [isHead, laid.1]
      exact laid.2.1
    · exact inductionHypothesis laid.2.2 other inRest

/-- The lengths of laid pieces add up to the length of their span. -/
theorem Laid.sum [AddCommGroup Time] (laid : Laid long first last lower pieces upper) :
    (pieces.map fun piece => last piece - first piece).sum = upper - lower := by
  induction pieces generalizing lower with
  | nil => rw [List.map_nil, List.sum_nil, show lower = upper from laid, sub_self]
  | cons piece rest inductionHypothesis =>
    rw [List.map_cons, List.sum_cons, inductionHypothesis laid.2.2, laid.1]
    abel

end Laid

/-! ### Tilings of a line -/

section Line

variable {Time Piece : Type*} [LinearOrder Time] {first last : Piece → Time}
  {lower upper : Time} {pieces : List Piece}

/-- Pieces one after another, some of them of no length. -/
abbrev Contiguous (first last : Piece → Time) : Time → List Piece → Time → Prop :=
  Laid (· ≤ ·) first last

/-- Pieces one after another, each of some length. -/
abbrev Tiles (first last : Piece → Time) : Time → List Piece → Time → Prop :=
  Laid (· < ·) first last

theorem Laid.contiguous (laid : Tiles first last lower pieces upper) :
    Contiguous first last lower pieces upper := by
  induction pieces generalizing lower with
  | nil => exact laid
  | cons piece rest inductionHypothesis =>
    exact ⟨laid.1, laid.2.1.le, inductionHypothesis laid.2.2⟩

theorem Contiguous.le (laid : Contiguous first last lower pieces upper) : lower ≤ upper := by
  induction pieces generalizing lower with
  | nil => exact (show lower = upper from laid).le
  | cons piece rest inductionHypothesis => exact laid.2.1.trans (inductionHypothesis laid.2.2)

/-- The pieces of a span lie in it. -/
theorem Contiguous.mem_span (laid : Contiguous first last lower pieces upper) {piece : Piece}
    (among : piece ∈ pieces) : lower ≤ first piece ∧ last piece ≤ upper := by
  induction pieces generalizing lower with
  | nil => cases among
  | cons head rest inductionHypothesis =>
    obtain ⟨rfl, isLong, restLaid⟩ := laid
    rcases List.mem_cons.mp among with rfl | inRest
    · exact ⟨le_rfl, Contiguous.le restLaid⟩
    · obtain ⟨isAfter, isBefore⟩ := inductionHypothesis restLaid inRest
      exact ⟨isLong.trans isAfter, isBefore⟩

/-- Every time of a span is in one of its pieces. -/
theorem Contiguous.exists_piece (laid : Contiguous first last lower pieces upper) {time : Time}
    (isAfter : lower ≤ time) (isBefore : time < upper) :
    ∃ piece ∈ pieces, first piece ≤ time ∧ time < last piece := by
  induction pieces generalizing lower with
  | nil => exact absurd (isAfter.trans_lt isBefore) (ne_of_gt · laid.symm)
  | cons head rest inductionHypothesis =>
    obtain ⟨rfl, isLong, restLaid⟩ := laid
    rcases lt_or_ge time (last head) with inHead | later
    · exact ⟨head, List.mem_cons_self, isAfter, inHead⟩
    · obtain ⟨piece, among, isOver⟩ := inductionHypothesis restLaid later
      exact ⟨piece, List.mem_cons_of_mem _ among, isOver⟩

/-- A piece of some length, or none where the ends meet. -/
theorem tiles_optional {piece : Piece} (order : first piece ≤ last piece) :
    Tiles first last (first piece) (if first piece < last piece then [piece] else [])
      (last piece) := by
  by_cases isLong : first piece < last piece
  · rw [if_pos isLong]
    exact laid_single isLong
  · rw [if_neg isLong]
    exact le_antisymm order (not_lt.mp isLong)

/-- A span is the part of it before one of its times and the part from there. -/
theorem card_filter_split [LocallyFiniteOrder Time] {middle : Time} (wanted : Time → Prop)
    [DecidablePred wanted] (after : lower ≤ middle) (before : middle ≤ upper) :
    ((Finset.Ico lower upper).filter wanted).card =
      ((Finset.Ico lower middle).filter wanted).card +
        ((Finset.Ico middle upper).filter wanted).card := by
  rw [← Finset.Ico_union_Ico_eq_Ico after before, Finset.filter_union,
    Finset.card_union_of_disjoint]
  exact Finset.disjoint_filter_filter (Finset.Ico_disjoint_Ico_consecutive lower middle upper)

/-- A time moved into the span from `low` to `high`. -/
def clip (low high time : Time) : Time := max low (min time high)

variable {low high time : Time}

theorem clip_of_le (after : low ≤ high) (below : time ≤ low) : clip low high time = low := by
  rw [clip, min_eq_left (below.trans after), max_eq_left below]

theorem clip_of_ge (after : low ≤ high) (above : high ≤ time) : clip low high time = high := by
  rw [clip, min_eq_right above, max_eq_right after]

theorem clip_mono {other : Time} (order : time ≤ other) :
    clip low high time ≤ clip low high other :=
  max_le_max le_rfl (min_le_min order le_rfl)

/-- What is left of a span cut to another runs between its ends moved into it. -/
theorem clip_cut {start stop : Time} (cut : max start low < min stop high) :
    clip low high start = max start low ∧ clip low high stop = min stop high := by
  obtain ⟨startStop, startHigh⟩ := lt_min_iff.mp ((le_max_left start low).trans_lt cut)
  have lowCut : low ≤ min stop high := (le_max_right start low).trans cut.le
  refine ⟨?_, ?_⟩
  · rw [clip, min_eq_left startHigh.le, max_comm]
  · rw [clip, max_eq_right lowCut]

/-- A span of which nothing is left has both ends at one time. -/
theorem clip_empty {start stop : Time} (order : start ≤ stop)
    (empty : ¬max start low < min stop high) : clip low high start = clip low high stop := by
  refine le_antisymm (clip_mono order) ?_
  have covered : min stop high ≤ max start low := not_lt.mp empty
  refine max_le (le_max_left _ _) ?_
  rcases le_max_iff.mp covered with inStart | inLow
  · exact (le_min inStart (min_le_right _ _)).trans (le_max_right _ _)
  · exact inLow.trans (le_max_left _ _)

end Line

/-! ### Whole times -/

section Whole

variable {Piece Label : Type*} [DecidableEq Label] {first last : Piece → ℤ} {lower upper : ℤ}
  {pieces : List Piece} {kind : Piece → Label} {label : ℤ → Label}

/-- The pieces of a kind are as long together as the times whose label it is are many. -/
theorem Contiguous.card_filter (laid : Contiguous first last lower pieces upper)
    (labelled : ∀ piece ∈ pieces, ∀ time, first piece ≤ time → time < last piece →
      label time = kind piece) (wanted : Label) :
    ((pieces.filter fun piece => kind piece = wanted).map fun piece =>
      last piece - first piece).sum =
        (((Finset.Ico lower upper).filter fun time => label time = wanted).card : ℤ) := by
  induction pieces generalizing lower with
  | nil =>
    rw [show lower = upper from laid, Finset.Ico_self]
    rfl
  | cons piece rest inductionHypothesis =>
    obtain ⟨rfl, isLong, restLaid⟩ := laid
    have ofRest := inductionHypothesis restLaid fun other among =>
      labelled other (List.mem_cons_of_mem _ among)
    have ofPiece := labelled piece List.mem_cons_self
    rw [card_filter_split _ isLong (Contiguous.le restLaid), Nat.cast_add, ← ofRest]
    by_cases isWanted : kind piece = wanted
    · have all : ((Finset.Ico (first piece) (last piece)).filter fun time =>
          label time = wanted) = Finset.Ico (first piece) (last piece) := by
        refine Finset.filter_true_of_mem fun time among => ?_
        obtain ⟨after, before⟩ := Finset.mem_Ico.mp among
        rw [ofPiece time after before, isWanted]
      rw [List.filter_cons, if_pos (decide_eq_true isWanted), List.map_cons, List.sum_cons, all,
        Int.card_Ico, Int.toNat_of_nonneg (sub_nonneg.mpr isLong)]
    · have none_ : ((Finset.Ico (first piece) (last piece)).filter fun time =>
          label time = wanted) = ∅ := by
        refine Finset.filter_false_of_mem fun time among => ?_
        obtain ⟨after, before⟩ := Finset.mem_Ico.mp among
        rw [ofPiece time after before]
        exact isWanted
      rw [List.filter_cons, if_neg (by simpa using isWanted), none_, Finset.card_empty,
        Nat.cast_zero, zero_add]

end Whole

end Dagq.Lib
