/-
This file builds ordered maps: a list of key and value pairs whose keys ascend,
the state a tree map of a program has, read in the order of its keys. A map
carries the order of its keys, so it is determined by what its keys are found to
hold, and two lists in the order of their keys with the same members are the
same list.
-/

import Mathlib.Data.List.Sort
import Mathlib.Data.Prod.Lex
import Mathlib.Order.Basic
import Mathlib.Tactic

namespace Dagq.Lib

/-! ### Lists in the order of a key -/

section Ascending

variable {Item Key : Type} [LinearOrder Key] {key : Item → Key}

/-- Two lists in the order of their keys with the same members are the same list. -/
theorem eq_of_ascending_of_mem_iff {first second : List Item}
    (firstAscending : first.Pairwise fun one two => key one < key two)
    (secondAscending : second.Pairwise fun one two => key one < key two)
    (members : ∀ item, item ∈ first ↔ item ∈ second) : first = second := by
  have distinct : ∀ {items : List Item},
      (items.Pairwise fun one two => key one < key two) → items.Nodup := fun ascending =>
    ascending.imp fun before equal => absurd (congrArg key equal) before.ne
  have permuted : first.Perm second :=
    (List.perm_ext_iff_of_nodup (distinct firstAscending) (distinct secondAscending)).mpr members
  exact permuted.eq_of_pairwise
    (fun _ _ _ _ before after => absurd (before.trans after) (lt_irrefl _))
    firstAscending secondAscending

theorem filter_orderedInsert {kept : Item → Bool} {items : List Item}
    (ascending : items.Pairwise fun one two => key one ≤ key two) (item : Item) :
    (items.orderedInsert (fun one two => key one ≤ key two) item).filter kept =
      if kept item then (items.filter kept).orderedInsert (fun one two => key one ≤ key two) item
      else items.filter kept := by
  induction items with
  | nil => cases isKept : kept item <;> simp [isKept]
  | cons first rest inductionHypothesis =>
    rw [List.pairwise_cons] at ascending
    have unfolds : ∀ other others, (other :: others).orderedInsert
        (fun one two => key one ≤ key two) item = if key item ≤ key other then
          item :: other :: others
        else other :: others.orderedInsert (fun one two => key one ≤ key two) item :=
      fun _ _ => rfl
    by_cases before : key item ≤ key first
    · rw [unfolds, if_pos before]
      cases isKept : kept item with
      | false => simp [isKept]
      | true =>
        rw [List.filter_cons_of_pos isKept, if_pos rfl]
        -- what is kept of the rest is not before the item either
        have notBefore : ∀ other ∈ (first :: rest).filter kept, key item ≤ key other := by
          intro other member
          rcases List.mem_cons.mp (List.mem_filter.mp member).1 with rfl | inRest
          · exact before
          · exact before.trans (ascending.1 other inRest)
        cases isFiltered : (first :: rest).filter kept with
        | nil => rfl
        | cons other others =>
          rw [isFiltered] at notBefore
          rw [unfolds, if_pos (notBefore other List.mem_cons_self)]
    · rw [unfolds, if_neg before]
      cases firstKept : kept first <;> cases isKept : kept item <;>
        simp [firstKept, isKept, inductionHypothesis ascending.2, before]

/-- What is kept of a list in the order of a key is what is kept, in that order. -/
theorem filter_insertionSort (kept : Item → Bool) (items : List Item) :
    (items.insertionSort fun one two => key one ≤ key two).filter kept =
      (items.filter kept).insertionSort fun one two => key one ≤ key two := by
  induction items with
  | nil => rfl
  | cons item rest inductionHypothesis =>
    rw [List.insertionSort_cons, filter_orderedInsert (List.pairwise_insertionSort _ _),
      inductionHypothesis]
    cases isKept : kept item <;> simp [isKept]

/-- The merge of two lists in the order of a key that share no key is in that order. -/
theorem merge_ascending {first second : List Item}
    (firstAscending : first.Pairwise fun one two => key one < key two)
    (secondAscending : second.Pairwise fun one two => key one < key two)
    (apart : ∀ one ∈ first, ∀ two ∈ second, key one ≠ key two) :
    (List.merge first second fun one two => decide (key one < key two)).Pairwise
      fun one two => key one < key two := by
  induction first generalizing second with
  | nil => simpa using secondAscending
  | cons head tail inductionHypothesis =>
    obtain ⟨headFirst, tailAscending⟩ := List.pairwise_cons.mp firstAscending
    induction second with
    | nil => simpa using firstAscending
    | cons other rest innerHypothesis =>
      obtain ⟨otherFirst, restAscending⟩ := List.pairwise_cons.mp secondAscending
      rw [List.cons_merge_cons]
      by_cases before : key head < key other
      · rw [if_pos (decide_eq_true before), List.pairwise_cons]
        refine ⟨fun item member => ?_, inductionHypothesis tailAscending secondAscending
          fun one inside => apart one (List.mem_cons_of_mem _ inside)⟩
        rcases List.mem_merge.mp member with inTail | inSecond
        · exact headFirst item inTail
        · rcases List.mem_cons.mp inSecond with same | inRest
          · rw [same]
            exact before
          · exact before.trans (otherFirst item inRest)
      · have different := apart head List.mem_cons_self other List.mem_cons_self
        have after : key other < key head := lt_of_le_of_ne (not_lt.mp before) (Ne.symm different)
        rw [if_neg (by simpa using before), List.pairwise_cons]
        refine ⟨fun item member => ?_, innerHypothesis restAscending
          fun one inside two inRest => apart one inside two (List.mem_cons_of_mem _ inRest)⟩
        rcases List.mem_merge.mp member with inFirst | inRest
        · rcases List.mem_cons.mp inFirst with same | inTail
          · rw [same]
            exact after
          · exact after.trans (headFirst item inTail)
        · exact otherFirst item inRest

end Ascending

/-! ### Maps -/

/-- A finite map as the list of its entries, by ascending key. -/
structure Ordered (Key Value : Type) [LinearOrder Key] where
  entries : List (Key × Value)
  ascending : entries.Pairwise fun first second => first.1 < second.1

namespace Ordered

variable {Key Value : Type} [LinearOrder Key]

/-! ### Operations -/

def empty : Ordered Key Value := ⟨[], List.Pairwise.nil⟩

/-- The value of a key, if the key is held. -/
def get? (map : Ordered Key Value) (key : Key) : Option Value :=
  (map.entries.find? fun entry => entry.1 = key).map Prod.snd

/-- The values held, by ascending key. -/
def values (map : Ordered Key Value) : List Value := map.entries.map Prod.snd

/-- The map without a key. -/
def erase (map : Ordered Key Value) (key : Key) : Ordered Key Value where
  entries := map.entries.filter fun entry => entry.1 ≠ key
  ascending := map.ascending.filter _

/-- Set the value of a key, held or not, in its place. -/
def insert (map : Ordered Key Value) (key : Key) (value : Value) : Ordered Key Value where
  entries := (map.entries.filter fun entry => entry.1 < key) ++
    (key, value) :: map.entries.filter fun entry => key < entry.1
  ascending := by
    rw [List.pairwise_append, List.pairwise_cons]
    refine ⟨map.ascending.filter _, ⟨fun entry member => ?_, map.ascending.filter _⟩,
      fun first below second above => ?_⟩
    · exact of_decide_eq_true (List.mem_filter.mp member).2
    · have before : first.1 < key := of_decide_eq_true (List.mem_filter.mp below).2
      rcases List.mem_cons.mp above with same | after
      · rw [same]
        exact before
      · exact before.trans (of_decide_eq_true (List.mem_filter.mp after).2)

/-! ### Lookups -/

theorem get?_eq_some_iff {map : Ordered Key Value} {key : Key} {value : Value} :
    map.get? key = some value ↔ (key, value) ∈ map.entries := by
  obtain ⟨entries, ascending⟩ := map
  rw [get?]
  induction entries with
  | nil => simp
  | cons entry rest inductionHypothesis =>
    obtain ⟨later, others⟩ := List.pairwise_cons.mp ascending
    obtain ⟨first, held⟩ := entry
    by_cases same : first = key
    · subst same
      have absent : (first, value) ∉ rest := fun inside => lt_irrefl first (later (first, value) inside)
      simp [absent, eq_comm]
    · have search := inductionHypothesis others
      simp [same, Ne.symm same, search]

@[simp] theorem get?_empty (key : Key) : (empty : Ordered Key Value).get? key = none := rfl

theorem mem_insert {map : Ordered Key Value} {key : Key} {value : Value} {entry : Key × Value} :
    entry ∈ (map.insert key value).entries ↔
      entry = (key, value) ∨ (entry ∈ map.entries ∧ entry.1 ≠ key) := by
  rw [insert, List.mem_append, List.mem_cons, List.mem_filter, List.mem_filter, decide_eq_true_eq,
    decide_eq_true_eq, ne_iff_lt_or_gt]
  tauto

/-- What is set item by item is the items, where those of one key are the same. -/
theorem mem_foldl_insert {items : List (Key × Value)}
    (agree : ∀ first ∈ items, ∀ second ∈ items, first.1 = second.1 → first = second)
    {entry : Key × Value} :
    entry ∈ (items.foldl (fun map item => map.insert item.1 item.2) empty).entries ↔
      entry ∈ items := by
  induction items using List.reverseRecOn with
  | nil => rfl
  | append_singleton items last inductionHypothesis =>
    have before := inductionHypothesis fun first firstIn second secondIn =>
      agree first (List.mem_append_left _ firstIn) second (List.mem_append_left _ secondIn)
    rw [List.foldl_append, List.foldl_cons, List.foldl_nil, mem_insert, before, List.mem_append,
      List.mem_singleton]
    constructor
    · rintro (isLast | ⟨member, _⟩)
      · exact Or.inr isLast
      · exact Or.inl member
    · rintro (member | isLast)
      · by_cases same : entry.1 = last.1
        · exact Or.inl (agree entry (List.mem_append_left _ member) last
            (List.mem_append_right _ (List.mem_singleton.mpr rfl)) same)
        · exact Or.inr ⟨member, same⟩
      · exact Or.inl isLast

theorem get?_insert (map : Ordered Key Value) (key other : Key) (value : Value) :
    (map.insert key value).get? other = if other = key then some value else map.get? other := by
  ext found
  rw [get?_eq_some_iff, mem_insert, Prod.mk.injEq]
  by_cases same : other = key
  · rw [if_pos same]
    simp [same, eq_comm]
  · rw [if_neg same, get?_eq_some_iff]
    simp [same]

theorem get?_erase (map : Ordered Key Value) (key other : Key) :
    (map.erase key).get? other = if other = key then none else map.get? other := by
  ext found
  rw [get?_eq_some_iff, erase, List.mem_filter, decide_eq_true_eq]
  by_cases same : other = key
  · rw [if_pos same]
    simp [same]
  · rw [if_neg same, get?_eq_some_iff]
    simp [same]

@[simp] theorem get?_insert_self (map : Ordered Key Value) (key : Key) (value : Value) :
    (map.insert key value).get? key = some value := by
  rw [get?_insert, if_pos rfl]

theorem get?_insert_of_ne (map : Ordered Key Value) {key other : Key} (value : Value)
    (different : other ≠ key) : (map.insert key value).get? other = map.get? other := by
  rw [get?_insert, if_neg different]

@[simp] theorem get?_erase_self (map : Ordered Key Value) (key : Key) :
    (map.erase key).get? key = none := by
  rw [get?_erase, if_pos rfl]

theorem get?_erase_of_ne (map : Ordered Key Value) {key other : Key} (different : other ≠ key) :
    (map.erase key).get? other = map.get? other := by
  rw [get?_erase, if_neg different]

theorem mem_values {map : Ordered Key Value} {value : Value} :
    value ∈ map.values ↔ ∃ key, map.get? key = some value := by
  rw [values, List.mem_map]
  constructor
  · rintro ⟨⟨key, held⟩, member, rfl⟩
    exact ⟨key, get?_eq_some_iff.mpr member⟩
  · rintro ⟨key, found⟩
    exact ⟨(key, value), get?_eq_some_iff.mp found, rfl⟩

/-- The entries of one key. -/
theorem entries_filter_key (map : Ordered Key Value) (key : Key) :
    (map.entries.filter fun entry => entry.1 = key) =
      ((map.get? key).map fun value => (key, value)).toList := by
  refine @eq_of_ascending_of_mem_iff _ _ _ Prod.fst _ _ (map.ascending.filter _) ?_ fun entry => ?_
  · cases map.get? key <;> simp
  · rw [List.mem_filter, decide_eq_true_eq, Option.mem_toList,
      Option.map_eq_some_iff]
    constructor
    · rintro ⟨member, same⟩
      exact ⟨entry.2, get?_eq_some_iff.mpr (same ▸ member), by rw [← same]⟩
    · rintro ⟨value, found, rfl⟩
      exact ⟨get?_eq_some_iff.mp found, rfl⟩

/-- The entries are those before a key, that of the key, and those after it. -/
theorem entries_split (map : Ordered Key Value) (key : Key) :
    map.entries = (map.entries.filter fun entry => entry.1 < key) ++
      ((map.get? key).map fun value => (key, value)).toList ++
        map.entries.filter fun entry => key < entry.1 := by
  refine @eq_of_ascending_of_mem_iff _ _ _ Prod.fst _ _ map.ascending ?_ fun entry => ?_
  · rw [← entries_filter_key, List.append_assoc, List.pairwise_append, List.pairwise_append]
    refine ⟨map.ascending.filter _, ⟨map.ascending.filter _, map.ascending.filter _, ?_⟩, ?_⟩
    · intro first isKey second isAfter
      simp only [List.mem_filter, decide_eq_true_eq] at isKey isAfter
      exact isKey.2.trans_lt isAfter.2
    · intro first isBefore second isLater
      simp only [List.mem_append, List.mem_filter, decide_eq_true_eq] at isBefore isLater
      rcases isLater with isKey | isAfter
      · exact isBefore.2.trans_eq isKey.2.symm
      · exact isBefore.2.trans isAfter.2
  · rw [← entries_filter_key]
    simp only [List.mem_append, List.mem_filter, decide_eq_true_eq]
    have := lt_trichotomy entry.1 key
    tauto

/-- Maps that hold the same values up to a reading of these have the same entries up to it. -/
theorem entries_eq_map {Other : Type} {first : Ordered Key Value} {second : Ordered Key Other}
    {reading : Other → Value}
    (same : ∀ key, first.get? key = (second.get? key).map reading) :
    first.entries = second.entries.map fun entry => (entry.1, reading entry.2) := by
  refine @eq_of_ascending_of_mem_iff _ _ _ Prod.fst _ _ first.ascending ?_ fun entry => ?_
  · rw [List.pairwise_map]
    exact second.ascending
  · obtain ⟨key, value⟩ := entry
    rw [← get?_eq_some_iff, same, Option.map_eq_some_iff, List.mem_map]
    constructor
    · rintro ⟨held, found, rfl⟩
      exact ⟨(key, held), get?_eq_some_iff.mp found, rfl⟩
    · rintro ⟨⟨other, held⟩, member, isEntry⟩
      obtain ⟨rfl, rfl⟩ := Prod.mk.inj isEntry
      exact ⟨held, get?_eq_some_iff.mpr member, rfl⟩

theorem eq_of_get? {first second : Ordered Key Value}
    (same : ∀ key, first.get? key = second.get? key) : first = second := by
  have entries : first.entries = second.entries := by
    have := @entries_eq_map _ _ _ _ first second id (by simpa using same)
    simpa using this
  obtain ⟨_, _⟩ := first
  obtain ⟨_, _⟩ := second
  cases entries
  rfl

/-- What a value set adds to a sum over all is what it is more than the one before it. -/
theorem sum_values_insert {Total : Type} [AddCommGroup Total] (amount : Value → Total)
    (map : Ordered Key Value) (key : Key) (value : Value) :
    ((map.insert key value).values.map amount).sum =
      (map.values.map amount).sum - ((map.get? key).elim 0 amount) + amount value := by
  rw [values, values, map.entries_split key, insert]
  simp only [List.map_append, List.map_cons, List.sum_append, List.sum_cons]
  cases map.get? key with
  | none =>
    simp only [Option.elim_none, Option.map_none, Option.toList_none, List.map_nil, List.sum_nil]
    abel
  | some before =>
    simp only [Option.elim_some, Option.map_some, Option.toList_some, List.map_cons, List.map_nil,
      List.sum_cons, List.sum_nil]
    abel

/-- A value added to that of a key adds as much to the sum of all. -/
theorem sum_values_add [AddCommMonoid Value] (map : Ordered Key Value) (key : Key)
    (more : Value) :
    (map.insert key ((map.get? key).getD 0 + more)).values.sum = map.values.sum + more := by
  rw [values, values, map.entries_split key, insert]
  simp only [List.map_append, List.map_cons, List.sum_append, List.sum_cons]
  cases map.get? key with
  | none =>
    simp only [Option.getD_none, Option.map_none, Option.toList_none, List.map_nil, List.sum_nil]
    abel
  | some value =>
    simp only [Option.getD_some, Option.map_some, Option.toList_some, List.map_cons, List.map_nil,
      List.sum_cons, List.sum_nil]
    abel

end Ordered

end Dagq.Lib
