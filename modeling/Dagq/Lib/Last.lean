/-
This file reads the last item of a list that a test takes: what is after it is not
taken, and items appended come first. A test that takes more than another finds the
same item, unless an item that only it takes comes last.
-/

import Mathlib.Tactic

namespace Dagq.Lib

variable {Item : Type*}

/-- The last item that the test takes. -/
def lastMatch (takes : Item → Bool) (items : List Item) : Option Item :=
  (items.filter takes).getLast?

theorem lastMatch_eq_some_iff {takes : Item → Bool} {items : List Item} {item : Item} :
    lastMatch takes items = some item ↔ ∃ before after, items = before ++ item :: after ∧
      takes item = true ∧ ∀ other ∈ after, takes other = false := by
  rw [lastMatch, List.getLast?_eq_head?_reverse, ← List.filter_reverse, List.head?_filter,
    List.find?_eq_some_iff_append]
  constructor
  · rintro ⟨taken, after, before, isCut, none_⟩
    refine ⟨before.reverse, after.reverse, ?_, taken, fun other member => ?_⟩
    · have reversed := congrArg List.reverse isCut
      simpa using reversed
    · simpa using none_ other (List.mem_reverse.mp member)
  · rintro ⟨before, after, rfl, taken, none_⟩
    refine ⟨taken, after.reverse, before.reverse, by simp, fun other member => ?_⟩
    simpa using none_ other (List.mem_reverse.mp member)

theorem lastMatch_eq_none_iff {takes : Item → Bool} {items : List Item} :
    lastMatch takes items = none ↔ ∀ item ∈ items, takes item = false := by
  rw [lastMatch, List.getLast?_eq_none_iff, List.filter_eq_nil_iff]
  simp only [Bool.not_eq_true]

/-- What is appended comes last. -/
theorem lastMatch_append (takes : Item → Bool) (first second : List Item) :
    lastMatch takes (first ++ second) =
      (lastMatch takes second).or (lastMatch takes first) := by
  rw [lastMatch, List.filter_append, List.getLast?_append]
  rfl

/-- A test that takes all that another takes finds the same item last, or one that only it takes. -/
theorem lastMatch_eq_or {strict loose : Item → Bool}
    (implies : ∀ item, strict item = true → loose item = true) (items : List Item) :
    lastMatch loose items = lastMatch strict items ∨
      ∃ item, lastMatch loose items = some item ∧ strict item = false := by
  cases found : lastMatch loose items with
  | none =>
    refine Or.inl (lastMatch_eq_none_iff.mpr fun item member => ?_).symm
    by_contra taken
    have alsoTaken := implies item (by simpa using taken)
    rw [lastMatch_eq_none_iff.mp found item member] at alsoTaken
    cases alsoTaken
  | some item =>
    cases strictly : strict item with
    | false => exact Or.inr ⟨item, rfl, strictly⟩
    | true =>
      obtain ⟨before, after, isCut, _, none_⟩ := lastMatch_eq_some_iff.mp found
      refine Or.inl (lastMatch_eq_some_iff.mpr ⟨before, after, isCut, strictly, ?_⟩).symm
      intro other member
      by_contra taken
      have alsoTaken := implies other (by simpa using taken)
      rw [none_ other member] at alsoTaken
      cases alsoTaken

end Dagq.Lib
