/-
This file takes items in from readings that grow: of each reading what was not taken in
before, judged by membership and by the greatest end among those taken in. Items apart
from one another, each starting no earlier than all before it ended and none equal to
another, are all taken in, each once; items that are equal are not.
-/

import Mathlib.Data.List.Infix
import Mathlib.Tactic

namespace Dagq.Lib

section Fresh

variable {Item Time : Type} [DecidableEq Item] [LinearOrder Time] (start end_ : Item → Time)

/-- The items of a reading beyond those taken in: not one of them, and starting no earlier than any
of them ended. -/
def fresh (taken items : List Item) : List Item :=
  items.filter fun item => item ∉ taken ∧ ∀ other ∈ taken, end_ other ≤ start item

/-- The items taken in from one reading after another, beyond those taken in before. -/
def takenIn (taken : List Item) (readings : List (List Item)) : List Item :=
  readings.foldl (fun taken items => taken ++ fresh start end_ taken items) taken

/-- One item comes before another that it is apart from. -/
def Apart (one two : Item) : Prop := end_ one ≤ start two ∧ one ≠ two

instance (one two : Item) : Decidable (Apart start end_ one two) :=
  inferInstanceAs (Decidable (end_ one ≤ start two ∧ one ≠ two))

variable {start end_}

@[simp] theorem fresh_nil (items : List Item) : fresh start end_ [] items = items := by
  simp [fresh]

/-- Beyond its first items, the rest of a reading whose items are apart is fresh. -/
theorem fresh_append {taken later : List Item}
    (apart : (taken ++ later).Pairwise (Apart start end_)) :
    fresh start end_ taken (taken ++ later) = later := by
  obtain ⟨_, _, between⟩ := List.pairwise_append.mp apart
  have noneTaken : taken.filter (fun item =>
      item ∉ taken ∧ ∀ other ∈ taken, end_ other ≤ start item) = [] := by
    refine List.filter_eq_nil_iff.mpr fun item member isFresh => ?_
    exact (of_decide_eq_true isFresh).1 member
  have allLater : later.filter (fun item =>
      item ∉ taken ∧ ∀ other ∈ taken, end_ other ≤ start item) = later := by
    refine List.filter_eq_self.mpr fun item member => decide_eq_true ⟨fun isTaken => ?_, ?_⟩
    · exact (between item isTaken item member).2 rfl
    · exact fun other isTaken => (between other isTaken item member).1
  rw [fresh, List.filter_append, noneTaken, allLater, List.nil_append]

theorem append_fresh {taken items : List Item} (isPrefix : taken <+: items)
    (apart : items.Pairwise (Apart start end_)) :
    taken ++ fresh start end_ taken items = items := by
  obtain ⟨later, rfl⟩ := isPrefix
  rw [fresh_append apart]

/-- Of readings that grow to items that are apart, those of the last are taken in, each once and in
their order. -/
theorem takenIn_eq {items taken : List Item} (apart : items.Pairwise (Apart start end_))
    {readings : List (List Item)} (growing : (taken :: readings).IsChain (· <+: ·))
    (within : ∀ reading ∈ readings, reading <+: items) :
    takenIn start end_ taken readings = readings.getLast?.getD taken := by
  induction readings generalizing taken with
  | nil => rfl
  | cons reading rest inductionHypothesis =>
    obtain ⟨isPrefix, later⟩ := List.isChain_cons_cons.mp growing
    have isApart : reading.Pairwise (Apart start end_) :=
      apart.sublist (within reading List.mem_cons_self).sublist
    rw [takenIn, List.foldl_cons, append_fresh isPrefix isApart, ← takenIn,
      inductionHypothesis later fun other member => within other (List.mem_cons_of_mem _ member),
      List.getLast?_cons]
    rfl

/-- Items that are all taken in, whichever of them were taken in first, are none equal. -/
theorem nodup_of_append_fresh {items : List Item}
    (all : ∀ length < items.length,
      items.take length ++ fresh start end_ (items.take length) items = items) :
    items.Nodup := by
  refine List.pairwise_iff_getElem.mpr fun first second isFirst isSecond before same => ?_
  have split := all (first + 1) (by omega)
  have later : fresh start end_ (items.take (first + 1)) items = items.drop (first + 1) := by
    refine @List.append_cancel_left _ (items.take (first + 1)) _ _ ?_
    rw [split, List.take_append_drop]
  have isLater : items[second] ∈ items.drop (first + 1) :=
    List.mem_drop_iff_getElem.mpr ⟨second - (first + 1), by omega, by congr 1; omega⟩
  rw [← later, fresh, List.mem_filter, decide_eq_true_eq] at isLater
  refine isLater.2.1 (same ▸ ?_)
  exact List.mem_take_iff_getElem.mpr ⟨first, by omega, rfl⟩

end Fresh

end Dagq.Lib
