/-
This file models how a path is matched against a glob of the paths a task may change:
both are split at `/`, a segment `**` takes any run of segments, and every other
segment is matched against the bytes of its own. Beside it stands what a glob means,
in characters.
-/

import Dagq.Lib.Utf8
import Dagq.Lib.Wildcard

namespace Dagq.Scope

open Lib

/-! ### The matcher -/

def star : UInt8 := 42

def question : UInt8 := 63

/-- The bytes of a text. -/
def asBytes (text : List Char) : List UInt8 := text.flatMap String.utf8EncodeChar

/-- Whether the bytes of a text match those of a segment of a glob. A `?` is meant to take one
character: as many bytes as the first says. -/
def segmentMatches : List UInt8 → List UInt8 → Bool
  | [], text => text.isEmpty
  | c :: rest, text =>
    if c = star then (List.range (text.length + 1)).any fun skip =>
      segmentMatches rest (text.drop skip)
    else if c = question then
      let width := (text.head?.map saidWidth).getD 0
      decide (0 < width) && decide (width ≤ text.length) &&
        segmentMatches rest (text.drop width)
    else text.head? == some c && segmentMatches rest (text.drop 1)

def segmentsMatch : List (List Char) → List (List Char) → Bool
  | [], path => path.isEmpty
  | first :: rest, path =>
    if first = ['*', '*'] then (List.range (path.length + 1)).any fun skip =>
      segmentsMatch rest (path.drop skip)
    else
      match path with
      | segment :: tail =>
        segmentMatches (asBytes first) (asBytes segment) && segmentsMatch rest tail
      | [] => false

def segments (text : String) : List (List Char) := text.toList.splitOn '/'

/-- Whether `path` matches `glob`. -/
def globMatches (glob path : String) : Bool := segmentsMatch (segments glob) (segments path)

/-! ### What a glob means -/

/-- A character of a glob that takes any run of characters. -/
abbrev IsStar (pattern : Char) : Prop := pattern = '*'

/-- A segment of a glob that takes any run of segments. -/
abbrev IsDoubleStar (segment : List Char) : Prop := segment = ['*', '*']

/-- A text matches a segment of a glob by its characters: `*` any run of them, `?` one, and every
other character itself. -/
def SegmentMatches : List Char → List Char → Prop :=
  Matching IsStar fun pattern char => pattern = '?' ∨ pattern = char

/-- A path matches a glob: a segment `**` any run of segments, and every other one segment by its
characters. -/
def GlobMatches (glob path : String) : Prop :=
  Matching IsDoubleStar SegmentMatches (segments glob) (segments path)

/-! ### The segments of a path -/

theorem any_range_iff {Item : Type} (items : List Item) (matches_ : List Item → Bool) :
    ((List.range (items.length + 1)).any fun skip => matches_ (items.drop skip)) = true ↔
      ∃ skip ≤ items.length, matches_ (items.drop skip) = true := by
  simp

/-- The segments match one by one, whatever matches a segment. -/
theorem segmentsMatch_iff {one : List Char → List Char → Prop}
    (matches_ : ∀ first segment,
      segmentMatches (asBytes first) (asBytes segment) = true ↔ one first segment)
    (glob path : List (List Char)) :
    segmentsMatch glob path = true ↔ Matching IsDoubleStar one glob path := by
  induction glob generalizing path with
  | nil => rw [segmentsMatch, List.isEmpty_iff, matching_nil]
  | cons first rest inductionHypothesis =>
    unfold segmentsMatch
    by_cases isMany : IsDoubleStar first
    · rw [if_pos isMany, any_range_iff path (segmentsMatch rest), matching_run isMany]
      simp only [inductionHypothesis]
    · rw [if_neg isMany]
      cases path with
      | nil => exact iff_of_false Bool.false_ne_true (not_matching_nil isMany)
      | cons segment tail =>
        dsimp only
        rw [matching_item isMany, Bool.and_eq_true, matches_, inductionHypothesis]

end Dagq.Scope
