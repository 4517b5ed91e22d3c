/-
This file says which of a list's items comes first when they are sorted by a key and
items of one key keep their order: the first in the list of those whose key is least.
What is found first in a sorted list is the least of the items looked for.
-/

import Mathlib.Data.List.Sort
import Mathlib.Data.Prod.Lex
import Mathlib.Tactic

namespace Dagq.Lib

section

variable {Item Other Key Second : Type*} [LinearOrder Key] [LinearOrder Second]

/-- The first of the items whose key is least. -/
def leastBy (key : Item → Key) : List Item → Option Item
  | [] => none
  | item :: rest =>
    match leastBy key rest with
    | none => some item
    | some other => if key item ≤ key other then some item else some other

variable {key : Item → Key} {second : Item → Second} {items : List Item} {item : Item}

theorem leastBy_eq_none : leastBy key items = none ↔ items = [] := by
  cases items with
  | nil => exact iff_of_true rfl rfl
  | cons item rest =>
    refine iff_of_false ?_ (List.cons_ne_nil item rest)
    rw [leastBy]
    cases leastBy key rest with
    | none => exact nofun
    | some other =>
      dsimp only
      split <;> exact nofun

theorem leastBy_spec (isLeast : leastBy key items = some item) :
    item ∈ items ∧ ∀ other ∈ items, key item ≤ key other := by
  induction items generalizing item with
  | nil => cases isLeast
  | cons head rest inductionHypothesis =>
    rw [leastBy] at isLeast
    cases least : leastBy key rest with
    | none =>
      rw [least] at isLeast
      obtain rfl := Option.some.inj isLeast
      rw [leastBy_eq_none.mp least]
      simp
    | some other =>
      obtain ⟨member, isLe⟩ := inductionHypothesis least
      rw [least] at isLeast
      dsimp only at isLeast
      split at isLeast
      next headFirst =>
        obtain rfl := Option.some.inj isLeast
        exact ⟨List.mem_cons_self, List.forall_mem_cons.mpr
          ⟨le_rfl, fun third among => headFirst.trans (isLe third among)⟩⟩
      next otherFirst =>
        obtain rfl := Option.some.inj isLeast
        exact ⟨List.mem_cons_of_mem _ member, List.forall_mem_cons.mpr
          ⟨(not_le.mp otherFirst).le, isLe⟩⟩

/-- Keys in the same order have the same least item. -/
theorem leastBy_congr {other : Item → Second}
    (same : ∀ first ∈ items, ∀ second ∈ items,
      (key first ≤ key second ↔ other first ≤ other second)) :
    leastBy key items = leastBy other items := by
  induction items with
  | nil => rfl
  | cons item rest inductionHypothesis =>
    rw [leastBy, leastBy, ← inductionHypothesis fun first firstAmong second secondAmong =>
      same first (List.mem_cons_of_mem _ firstAmong) second (List.mem_cons_of_mem _ secondAmong)]
    cases least : leastBy key rest with
    | none => rfl
    | some next =>
      have among := List.mem_cons_of_mem item (leastBy_spec least).1
      simp only [same item List.mem_cons_self next among]

theorem leastBy_map (key : Other → Key) (change : Item → Other) (items : List Item) :
    leastBy key (items.map change) = (leastBy (key ∘ change) items).map change := by
  induction items with
  | nil => rfl
  | cons item rest inductionHypothesis =>
    rw [List.map_cons, leastBy, leastBy, inductionHypothesis]
    cases leastBy (key ∘ change) rest with
    | none => rfl
    | some other =>
      rw [Option.map_some]
      dsimp only [Function.comp_apply]
      split <;> rfl

/-- Where no key comes before another, the first item is the least. -/
theorem leastBy_head (same : ∀ first ∈ items, ∀ second ∈ items, key first ≤ key second) :
    leastBy key items = items.head? := by
  cases items with
  | nil => rfl
  | cons item rest =>
    rw [leastBy, List.head?_cons]
    cases least : leastBy key rest with
    | none => rfl
    | some other =>
      exact if_pos (same item List.mem_cons_self other
        (List.mem_cons_of_mem _ (leastBy_spec least).1))

/-- The items whose key is least, in order. -/
def leading (key : Item → Key) (items : List Item) : List Item :=
  items.filter fun item => items.all fun other => decide (key item ≤ key other)

/-- The least item stands where all before it come after it, and none after it comes before. -/
theorem leastBy_eq_some_iff :
    leastBy key items = some item ↔
      ∃ before after, items = before ++ item :: after ∧ (∀ other ∈ before, key item < key other) ∧
        ∀ other ∈ after, key item ≤ key other := by
  induction items with
  | nil => simp [leastBy]
  | cons head rest inductionHypothesis =>
    rw [leastBy]
    constructor
    · intro isLeast
      cases least : leastBy key rest with
      | none =>
        rw [least] at isLeast
        obtain rfl := Option.some.inj isLeast
        rw [leastBy_eq_none.mp least]
        exact ⟨[], [], rfl, List.forall_mem_nil _, List.forall_mem_nil _⟩
      | some other =>
        have isLe := (leastBy_spec least).2
        rw [least] at isLeast
        dsimp only at isLeast
        split at isLeast
        next headFirst =>
          obtain rfl := Option.some.inj isLeast
          exact ⟨[], rest, rfl, List.forall_mem_nil _, fun third among =>
            headFirst.trans (isLe third among)⟩
        next otherFirst =>
          rw [least] at inductionHypothesis
          obtain ⟨before, after, rfl, later, notBefore⟩ := inductionHypothesis.mp isLeast
          obtain rfl := Option.some.inj isLeast
          exact ⟨head :: before, after, rfl,
            List.forall_mem_cons.mpr ⟨not_le.mp otherFirst, later⟩, notBefore⟩
    · rintro ⟨before, after, same, later, notBefore⟩
      cases before with
      | nil =>
        obtain ⟨rfl, rfl⟩ := List.cons.inj same
        cases least : leastBy key rest with
        | none => rfl
        | some other => exact if_pos (notBefore other (leastBy_spec least).1)
      | cons first before =>
        obtain ⟨rfl, rfl⟩ := List.cons.inj same
        have inRest : leastBy key (before.append (item :: after)) = some item :=
          inductionHypothesis.mpr ⟨before, after, rfl,
            fun other among => later other (List.mem_cons_of_mem _ among), notBefore⟩
        rw [inRest]
        exact if_neg (not_le.mpr (later head List.mem_cons_self))

/-- Keys cut at a bound one of them is below have the same least item. -/
theorem leastBy_min {bound : Key} (isBelow : ∃ item ∈ items, key item < bound) :
    leastBy (fun item => min (key item) bound) items = leastBy key items := by
  obtain ⟨low, lowAmong, lowBelow⟩ := isBelow
  cases least : leastBy key items with
  | none =>
    rw [leastBy_eq_none.mp least] at lowAmong
    cases lowAmong
  | some item =>
    have itemBelow := ((leastBy_spec least).2 low lowAmong).trans_lt lowBelow
    obtain ⟨before, after, rfl, later, notBefore⟩ := leastBy_eq_some_iff.mp least
    refine leastBy_eq_some_iff.mpr ⟨before, after, rfl, fun other among => ?_,
      fun other among => min_le_min_right bound (notBefore other among)⟩
    rw [min_eq_left itemBelow.le]
    exact lt_min (later other among) itemBelow

/-- The least by two keys, one after the other, is the least by the second of those that lead by
the first. -/
theorem leastBy_lex :
    leastBy (fun item => toLex (key item, second item)) items =
      leastBy second (leading key items) := by
  cases least : leastBy (fun item => toLex (key item, second item)) items with
  | none =>
    rw [leastBy_eq_none.mp least]
    rfl
  | some item =>
    obtain ⟨before, after, rfl, later, notBefore⟩ := leastBy_eq_some_iff.mp least
    have isLeast := (leastBy_spec least).2
    have leads : ∀ other ∈ before ++ item :: after, key item ≤ key other := fun other among =>
      (Prod.Lex.toLex_le_toLex.mp (isLeast other among)).elim le_of_lt fun both => both.1.le
    -- Those that lead beside it have its first key.
    have sameKey {other : Item} (leading_ : ∀ third ∈ before ++ item :: after,
        key other ≤ key third) (among : other ∈ before ++ item :: after) : key item = key other :=
      le_antisymm (leads other among)
        (leading_ item (List.mem_append_right _ List.mem_cons_self))
    have split : leading key (before ++ item :: after) =
        before.filter (fun own => (before ++ item :: after).all fun other =>
          decide (key own ≤ key other)) ++
          item :: after.filter fun own => (before ++ item :: after).all fun other =>
            decide (key own ≤ key other) := by
      have itLeads : ((before ++ item :: after).all fun other =>
          decide (key item ≤ key other)) = true :=
        List.all_eq_true.mpr fun other among => decide_eq_true (leads other among)
      rw [leading, List.filter_append, List.filter_cons, if_pos itLeads]
    symm
    refine leastBy_eq_some_iff.mpr ⟨_, _, split, fun other among => ?_, fun other among => ?_⟩
    · obtain ⟨isBefore, isLeading⟩ := List.mem_filter.mp among
      have same := sameKey
        (fun third among => of_decide_eq_true (List.all_eq_true.mp isLeading third among))
        (List.mem_append_left _ isBefore)
      exact ((Prod.Lex.toLex_lt_toLex.mp (later other isBefore)).resolve_left
        (not_lt.mpr same.ge)).2
    · obtain ⟨isAfter, isLeading⟩ := List.mem_filter.mp among
      have same := sameKey
        (fun third among => of_decide_eq_true (List.all_eq_true.mp isLeading third among))
        (List.mem_append_right _ (List.mem_cons_of_mem _ isAfter))
      exact ((Prod.Lex.toLex_le_toLex.mp (notBefore other isAfter)).resolve_left
        (not_lt.mpr same.ge)).2

/-- An item is found where it is inserted, unless one before it is wanted. -/
theorem find?_orderedInsert (wanted : Item → Bool) (item : Item) {sorted : List Item}
    (isSorted : sorted.Pairwise fun first second => key first ≤ key second) :
    (sorted.orderedInsert (fun first second => key first ≤ key second) item).find? wanted =
      if wanted item then
        match sorted.find? wanted with
        | none => some item
        | some other => if key item ≤ key other then some item else some other
      else sorted.find? wanted := by
  induction sorted with
  | nil =>
    rw [List.orderedInsert_nil]
    by_cases isWanted : wanted item = true
    · rw [List.find?_cons_of_pos isWanted, if_pos isWanted]
      rfl
    · rw [List.find?_cons_of_neg isWanted, if_neg isWanted]
  | cons head rest inductionHypothesis =>
    obtain ⟨headFirst, restSorted⟩ := List.pairwise_cons.mp isSorted
    by_cases before : key item ≤ key head
    · rw [List.orderedInsert_cons_of_le _ rest before]
      by_cases isWanted : wanted item = true
      · rw [List.find?_cons_of_pos isWanted, if_pos isWanted]
        cases found : (head :: rest).find? wanted with
        | none => rfl
        | some other =>
          have isLater : key head ≤ key other := by
            rcases List.mem_cons.mp (List.mem_of_find?_eq_some found) with rfl | inRest
            · exact le_rfl
            · exact headFirst other inRest
          exact (if_pos (before.trans isLater)).symm
      · rw [List.find?_cons_of_neg isWanted, if_neg isWanted]
    · rw [List.orderedInsert_of_not_le _ rest before]
      by_cases headWanted : wanted head = true
      · rw [List.find?_cons_of_pos headWanted, List.find?_cons_of_pos headWanted]
        dsimp only
        rw [if_neg before, ite_self]
      · rw [List.find?_cons_of_neg headWanted, List.find?_cons_of_neg headWanted]
        exact inductionHypothesis restSorted

/-- What is found first among sorted items is the least of those looked for. -/
theorem find?_insertionSort (wanted : Item → Bool) (items : List Item) :
    (items.insertionSort fun first second => key first ≤ key second).find? wanted =
      leastBy key (items.filter wanted) := by
  have total : Std.Total fun first second : Item => key first ≤ key second :=
    ⟨fun first second => le_total (key first) (key second)⟩
  have trans : IsTrans Item fun first second => key first ≤ key second :=
    ⟨fun _ _ _ => le_trans⟩
  induction items with
  | nil => rfl
  | cons item rest inductionHypothesis =>
    rw [List.insertionSort_cons, find?_orderedInsert wanted item
      (List.pairwise_insertionSort _ rest), inductionHypothesis]
    by_cases isWanted : wanted item = true
    · rw [if_pos isWanted, List.filter_cons_of_pos isWanted, leastBy]
    · rw [if_neg isWanted, List.filter_cons_of_neg isWanted]

end

end Dagq.Lib
