/-
This file says what holds along a list that grows at its end: of every part of it from its
start, or of each item after those before it. Where an item keeps a property just when it is
allowed, the property holds of every part just when every item is allowed.
-/

import Mathlib.Data.List.Induction
import Mathlib.Data.List.Infix

namespace Dagq.Lib

variable {Item : Type*}

/-- A property holds of every part of a list from its start. -/
def Throughout (property : List Item → Prop) (items : List Item) : Prop :=
  ∀ earlier, earlier <+: items → property earlier

/-- Every item of a list is allowed after those before it. -/
def Along (allows : List Item → Item → Prop) (items : List Item) : Prop :=
  ∀ earlier item, earlier ++ [item] <+: items → allows earlier item

theorem throughout_nil {property : List Item → Prop} :
    Throughout property [] ↔ property [] := by
  simp [Throughout]

theorem throughout_concat {property : List Item → Prop} {items : List Item} {item : Item} :
    Throughout property (items ++ [item]) ↔
      Throughout property items ∧ property (items ++ [item]) := by
  simp only [Throughout, List.prefix_concat_iff]
  constructor
  · intro holds
    exact ⟨fun earlier isPrefix => holds earlier (Or.inr isPrefix), holds _ (Or.inl rfl)⟩
  · rintro ⟨before, after⟩ earlier (rfl | isPrefix)
    · exact after
    · exact before earlier isPrefix

@[simp] theorem along_nil (allows : List Item → Item → Prop) : Along allows [] := by
  intro earlier item isPrefix
  simp at isPrefix

@[simp] theorem along_cons {allows : List Item → Item → Prop} {first : Item} {rest : List Item} :
    Along allows (first :: rest) ↔
      allows [] first ∧ Along (fun earlier item => allows (first :: earlier) item) rest := by
  constructor
  · intro along
    refine ⟨along [] first ⟨rest, rfl⟩, fun earlier item isPrefix => ?_⟩
    exact along (first :: earlier) item ((List.cons_prefix_cons).mpr ⟨rfl, isPrefix⟩)
  · rintro ⟨initial, later⟩ earlier item isPrefix
    cases earlier with
    | nil =>
      rw [List.nil_append, List.cons_prefix_cons] at isPrefix
      rw [isPrefix.1]
      exact initial
    | cons other earlier =>
      rw [List.cons_append, List.cons_prefix_cons] at isPrefix
      rw [isPrefix.1]
      exact later earlier item isPrefix.2

theorem along_concat {allows : List Item → Item → Prop} {items : List Item} {item : Item} :
    Along allows (items ++ [item]) ↔ Along allows items ∧ allows items item := by
  simp only [Along, List.prefix_concat_iff]
  constructor
  · intro holds
    exact ⟨fun earlier other isPrefix => holds earlier other (Or.inr isPrefix),
      holds items item (Or.inl rfl)⟩
  · rintro ⟨before, after⟩ earlier other (same | isPrefix)
    · obtain ⟨rfl, isItem⟩ := List.append_inj' same rfl
      rwa [List.singleton_injective isItem]
    · exact before earlier other isPrefix

/-- What the empty list has and each item allowed keeps, every part of the list has. -/
theorem Along.throughout {allows : List Item → Item → Prop} {property : List Item → Prop}
    {items : List Item} (along : Along allows items) (initial : property [])
    (preserved : ∀ earlier item, property earlier → allows earlier item →
      property (earlier ++ [item])) : Throughout property items := by
  induction items using List.reverseRecOn with
  | nil => exact throughout_nil.mpr initial
  | append_singleton items item inductionHypothesis =>
    obtain ⟨before, allowed⟩ := along_concat.mp along
    have holds := inductionHypothesis before
    exact throughout_concat.mpr
      ⟨holds, preserved items item (holds items (List.prefix_refl items)) allowed⟩

/-- Where each item keeps the property just when it is allowed, the property holds throughout just
when every item is allowed. -/
theorem throughout_iff_along {allows : List Item → Item → Prop} {property : List Item → Prop}
    {items : List Item} (initial : property [])
    (exact_ : Along (fun earlier item => property earlier →
      (property (earlier ++ [item]) ↔ allows earlier item)) items) :
    Throughout property items ↔ Along allows items := by
  induction items using List.reverseRecOn with
  | nil => simpa [throughout_nil, Along] using initial
  | append_singleton items item inductionHypothesis =>
    obtain ⟨before, last⟩ := along_concat.mp exact_
    rw [throughout_concat, along_concat, inductionHypothesis before]
    refine and_congr_right fun allowed => last ?_
    exact (inductionHypothesis before).mpr allowed items (List.prefix_refl items)

end Dagq.Lib
