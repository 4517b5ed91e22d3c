/-
This file compares the cuts of a list: an item with what is before it and what
is after it. A log is read so, what was recorded before an entry and what since.
-/

import Mathlib.Tactic

namespace Dagq.Lib

variable {Item : Type*}

/-- A cut of two lists joined is one of the first or one of the second. -/
theorem split_either {list extra before after : List Item} {item : Item}
    (split : list ++ extra = before ++ item :: after) :
    (∃ middle, after = middle ++ extra ∧ list = before ++ item :: middle) ∨
      ∃ middle, extra = middle ++ item :: after := by
  rcases List.append_eq_append_iff.mp split with ⟨middle, _, isExtra⟩ | ⟨middle, isList, rest⟩
  · exact Or.inr ⟨middle, isExtra⟩
  · rcases List.cons_eq_append_iff.mp rest with ⟨_, isExtra⟩ | ⟨more, isMiddle, isAfter⟩
    · exact Or.inr ⟨[], isExtra⟩
    · exact Or.inl ⟨more, isAfter, by rw [isList, isMiddle]⟩

/-- Where a list that ends in another is cut outside of it. -/
theorem split_append {list extra before after : List Item} {item : Item}
    (split : list ++ extra = before ++ item :: after) (outside : item ∉ extra) :
    ∃ middle, after = middle ++ extra ∧ list = before ++ item :: middle := by
  rcases split_either split with inside | ⟨middle, rfl⟩
  · exact inside
  · exact absurd (List.mem_append_right _ List.mem_cons_self) outside

/-- Where a list with one more item is cut: at that item, or before it. -/
theorem split_concat {list before after : List Item} {new item : Item}
    (split : list ++ [new] = before ++ item :: after) :
    (item = new ∧ after = [] ∧ before = list) ∨
      ∃ middle, after = middle ++ [new] ∧ list = before ++ item :: middle := by
  rcases List.eq_nil_or_concat after with rfl | ⟨more, last, rfl⟩
  · obtain ⟨isList, isItem⟩ := List.append_inj' split rfl
    exact Or.inl ⟨(List.cons.inj isItem).1.symm, rfl, isList.symm⟩
  · rw [List.concat_eq_append, ← List.cons_append, ← List.append_assoc] at split
    obtain ⟨isList, isLast⟩ := List.append_inj' split rfl
    exact Or.inr ⟨more, by rw [List.concat_eq_append, (List.cons.inj isLast).1], isList⟩

/-- Two places where one list is cut: the same, or one after the other. -/
theorem split_split {before after earlier later : List Item} {item other : Item}
    (same : before ++ item :: after = earlier ++ other :: later) :
    (item = other ∧ after = later) ∨ (∃ middle, after = middle ++ other :: later) ∨
      ∃ middle, later = middle ++ item :: after := by
  rcases List.append_eq_append_iff.mp same with ⟨middle, _, rest⟩ | ⟨middle, _, rest⟩
  · rcases List.cons_eq_append_iff.mp rest with ⟨_, here⟩ | ⟨more, _, isAfter⟩
    · exact Or.inl ⟨(List.cons.inj here).1.symm, (List.cons.inj here).2.symm⟩
    · exact Or.inr (Or.inl ⟨more, isAfter⟩)
  · rcases List.cons_eq_append_iff.mp rest with ⟨_, here⟩ | ⟨more, _, isLater⟩
    · exact Or.inl (List.cons.inj here)
    · exact Or.inr (Or.inr ⟨more, isLater⟩)

end Dagq.Lib
