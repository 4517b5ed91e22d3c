/-
This file builds what it is to match a list against patterns of which some take any
run of items and every other one takes one. Nothing is assumed of the items: a pattern
may be a character and the items the characters of a text, or a pattern may match a
text itself.
-/

import Mathlib.Data.List.Basic
import Mathlib.Tactic

namespace Dagq.Lib

variable {Pattern Item : Type*}

/-- Items that match patterns: a pattern that `many` holds of takes any run of items, any other
one item that `one` allows it. -/
inductive Matching (many : Pattern → Prop) (one : Pattern → Item → Prop) :
    List Pattern → List Item → Prop
  | nil : Matching many one [] []
  | run {pattern : Pattern} {patterns : List Pattern} (skipped : List Item) {items : List Item}
      (isMany : many pattern) (rest : Matching many one patterns items) :
      Matching many one (pattern :: patterns) (skipped ++ items)
  | item {pattern : Pattern} {patterns : List Pattern} {item : Item} {items : List Item}
      (isOne : ¬ many pattern) (allowed : one pattern item)
      (rest : Matching many one patterns items) :
      Matching many one (pattern :: patterns) (item :: items)

variable {many : Pattern → Prop} {one other : Pattern → Item → Prop} {pattern : Pattern}
  {patterns : List Pattern} {item : Item} {items : List Item}

/-! ### What the first pattern takes -/

@[simp] theorem matching_nil : Matching many one [] items ↔ items = [] := by
  constructor
  · rintro ⟨⟩
    rfl
  · rintro rfl
    exact .nil

theorem matching_run (isMany : many pattern) :
    Matching many one (pattern :: patterns) items ↔
      ∃ skip ≤ items.length, Matching many one patterns (items.drop skip) := by
  constructor
  · intro matching
    cases matching with
    | run skipped _ rest =>
      refine ⟨skipped.length, by simp, ?_⟩
      rw [List.drop_left]
      exact rest
    | item isOne => exact absurd isMany isOne
  · rintro ⟨skip, -, rest⟩
    rw [← List.take_append_drop skip items]
    exact .run _ isMany rest

theorem matching_item (isOne : ¬ many pattern) :
    Matching many one (pattern :: patterns) (item :: items) ↔
      one pattern item ∧ Matching many one patterns items := by
  constructor
  · intro matching
    generalize same : item :: items = all at matching
    cases matching with
    | run _ isMany => exact absurd isMany isOne
    | item _ allowed rest =>
      obtain ⟨rfl, rfl⟩ := List.cons.inj same
      exact ⟨allowed, rest⟩
  · exact fun both => .item isOne both.1 both.2

theorem not_matching_nil (isOne : ¬ many pattern) :
    ¬ Matching many one (pattern :: patterns) [] := by
  intro matching
  generalize same : ([] : List Item) = all at matching
  cases matching with
  | run _ isMany => exact isOne isMany
  | item => cases same

theorem Matching.mono (matching : Matching many one patterns items)
    (weaker : ∀ pattern item, one pattern item → other pattern item) :
    Matching many other patterns items := by
  induction matching with
  | nil => exact .nil
  | run skipped isMany _ inductionHypothesis => exact .run skipped isMany inductionHypothesis
  | item isOne allowed _ inductionHypothesis =>
    exact .item isOne (weaker _ _ allowed) inductionHypothesis

/-! ### How many items there are -/

variable [DecidablePred many]

/-- The patterns that take one item each. -/
def ones (many : Pattern → Prop) [DecidablePred many] (patterns : List Pattern) : List Pattern :=
  patterns.filter fun pattern => ¬ many pattern

theorem ones_run (isMany : many pattern) : ones many (pattern :: patterns) = ones many patterns :=
  List.filter_cons_of_neg (by simpa using isMany)

theorem ones_item (isOne : ¬ many pattern) :
    ones many (pattern :: patterns) = pattern :: ones many patterns :=
  List.filter_cons_of_pos (by simpa using isOne)

/-- Items that match are no fewer than the patterns that take one each. -/
theorem Matching.length_le (matching : Matching many one patterns items) :
    (ones many patterns).length ≤ items.length := by
  induction matching with
  | nil => exact le_rfl
  | run skipped isMany _ inductionHypothesis =>
    rw [ones_run isMany, List.length_append]
    omega
  | item isOne _ _ inductionHypothesis =>
    rw [ones_item isOne, List.length_cons, List.length_cons]
    exact Nat.succ_le_succ inductionHypothesis

/-- Items as many as the patterns that take one each match when each is allowed at its place. -/
theorem matching_ones (items : Pattern → Item) :
    Matching many one patterns ((ones many patterns).map items) ↔
      ∀ pattern ∈ patterns, ¬ many pattern → one pattern (items pattern) := by
  induction patterns with
  | nil => simp [ones]
  | cons pattern patterns inductionHypothesis =>
    by_cases isMany : many pattern
    · rw [ones_run isMany, List.forall_mem_cons, ← inductionHypothesis]
      refine ⟨fun matching => ⟨absurd isMany, ?_⟩, fun both => .run [] isMany both.2⟩
      -- None of the items can be skipped: there would be too few of them.
      obtain ⟨skip, _, rest⟩ := (matching_run isMany).mp matching
      have enough := rest.length_le
      rw [List.length_drop, List.length_map] at enough
      rcases Nat.eq_zero_or_pos skip with rfl | skipped
      · exact rest
      · rcases Nat.eq_zero_or_pos (ones many patterns).length with none_ | some_
        · rw [List.length_eq_zero_iff.mp none_] at rest ⊢
          rw [List.map_nil, List.drop_nil] at rest
          exact rest
        · omega
    · rw [ones_item isMany, List.map_cons, matching_item isMany, inductionHypothesis,
        List.forall_mem_cons]
      exact and_congr_left' ⟨fun allowed _ => allowed, fun allowed => allowed isMany⟩

end Dagq.Lib
