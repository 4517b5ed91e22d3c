/-
This file builds keyed lists: the files of a directory, the containers of a
machine, anything a program lists whose items each carry the key they are found
by, no key twice. It then weighs a ledger beside the items that are present,
every key once: a key the ledger names weighs what its entry says, any other
what its item does. What the two weigh together is a sum over the keys, so it
never grows while no single key's weight does.
-/

import Mathlib.Algebra.BigOperators.Group.Finset.Basic
import Mathlib.Tactic

namespace Dagq.Lib

/-- A list whose items have distinct keys. -/
structure Keyed {Item Key : Type} (key : Item → Key) where
  items : List Item
  distinct : (items.map key).Nodup

namespace Keyed

variable {Item Key : Type} {key : Item → Key}

/-! ### Operations -/

def empty : Keyed key := ⟨[], List.nodup_nil⟩

/-- Keep the items that satisfy `kept`. -/
def keep (keyed : Keyed key) (kept : Item → Bool) : Keyed key where
  items := keyed.items.filter kept
  distinct := keyed.distinct.sublist (List.filter_sublist.map key)

/-- What the items weigh. -/
def sum (keyed : Keyed key) (weight : Item → Nat) : Nat := (keyed.items.map weight).sum

theorem mem_keep {keyed : Keyed key} {kept : Item → Bool} {item : Item} :
    item ∈ (keyed.keep kept).items ↔ item ∈ keyed.items ∧ kept item = true := List.mem_filter

theorem eq_of_key (keyed : Keyed key) {first second : Item} (firstIn : first ∈ keyed.items)
    (secondIn : second ∈ keyed.items) (same : key first = key second) : first = second :=
  List.inj_on_of_nodup_map keyed.distinct firstIn secondIn same

/-- Where no two items are kept, one is at most. -/
theorem length_filter_le_one (keyed : Keyed key) (kept : Item → Bool)
    (same : ∀ first ∈ keyed.items.filter kept, ∀ second ∈ keyed.items.filter kept,
      first = second) : (keyed.items.filter kept).length ≤ 1 := by
  have distinct : (keyed.items.filter kept).Nodup := (keyed.distinct.of_map _).filter _
  match list : keyed.items.filter kept, distinct with
  | [], _ => exact Nat.zero_le 1
  | [_], _ => exact le_rfl
  | first :: second :: rest, distinct =>
    have equal := same first (list ▸ List.mem_cons_self) second
      (list ▸ List.mem_cons_of_mem _ List.mem_cons_self)
    rw [equal] at distinct
    exact absurd List.mem_cons_self (List.nodup_cons.mp distinct).1

section Lookup

variable [DecidableEq Key]

/-- The item of a key. -/
def get? (keyed : Keyed key) (wanted : Key) : Option Item :=
  keyed.items.find? fun item => key item = wanted

/-- The list without the item of a key. -/
def drop (keyed : Keyed key) (unwanted : Key) : Keyed key :=
  keyed.keep fun item => key item ≠ unwanted

/-- Put an item in place of the one of its key. -/
def put (keyed : Keyed key) (item : Item) : Keyed key where
  items := item :: (keyed.drop (key item)).items
  distinct := by
    rw [List.map_cons, List.nodup_cons]
    refine ⟨fun inside => ?_, (keyed.drop (key item)).distinct⟩
    obtain ⟨other, member, same⟩ := List.mem_map.mp inside
    have different := of_decide_eq_true (List.mem_filter.mp member).2
    exact different same

/-! ### Lookups -/

theorem mem_drop {keyed : Keyed key} {unwanted : Key} {item : Item} :
    item ∈ (keyed.drop unwanted).items ↔ item ∈ keyed.items ∧ key item ≠ unwanted := by
  simp only [drop, mem_keep, decide_eq_true_eq]

theorem mem_put {keyed : Keyed key} {new item : Item} :
    item ∈ (keyed.put new).items ↔
      item = new ∨ (item ∈ keyed.items ∧ key item ≠ key new) := by
  rw [put, List.mem_cons, mem_drop]

theorem get?_eq_some_iff {keyed : Keyed key} {wanted : Key} {item : Item} :
    keyed.get? wanted = some item ↔ item ∈ keyed.items ∧ key item = wanted := by
  constructor
  · intro found
    have fits := List.find?_some found
    exact ⟨List.mem_of_find?_eq_some found, of_decide_eq_true fits⟩
  · rintro ⟨member, named⟩
    cases search : keyed.get? wanted with
    | none =>
      have absent := List.find?_eq_none.mp search item member
      exact absurd (decide_eq_true named) absent
    | some other =>
      have fits := List.find?_some search
      rw [keyed.eq_of_key (List.mem_of_find?_eq_some search) member
        ((of_decide_eq_true fits).trans named.symm)]

theorem get?_eq_none_iff {keyed : Keyed key} {wanted : Key} :
    keyed.get? wanted = none ↔ ∀ item ∈ keyed.items, key item ≠ wanted := by
  simp only [get?, List.find?_eq_none, decide_eq_true_eq, ne_eq]

end Lookup

/-! ### Items changed in place, and new ones -/

section Rows

variable [DecidableEq Key]

/-- Set the item of a key, in its place. -/
def set (keyed : Keyed key) (item : Item) : Keyed key where
  items := keyed.items.map fun other => if key other = key item then item else other
  distinct := by
    have keys : (keyed.items.map fun other => if key other = key item then item else other).map key =
        keyed.items.map key := by
      rw [List.map_map]
      refine List.map_congr_left fun other _ => ?_
      by_cases same : key other = key item
      · rw [Function.comp_apply, if_pos same, same]
      · rw [Function.comp_apply, if_neg same]
    rw [keys]
    exact keyed.distinct

/-- Add an item after the others, unless its key is there. -/
def add (keyed : Keyed key) (item : Item) : Keyed key :=
  if fresh : key item ∈ keyed.items.map key then keyed
  else
    { items := keyed.items ++ [item]
      distinct := by
        rw [List.map_append, List.map_singleton, List.nodup_append_comm]
        exact List.nodup_cons.mpr ⟨fresh, keyed.distinct⟩ }

theorem mem_set {keyed : Keyed key} {new item : Item} :
    item ∈ (keyed.set new).items ↔
      (item = new ∧ ∃ old ∈ keyed.items, key old = key new) ∨
        (item ∈ keyed.items ∧ key item ≠ key new) := by
  rw [set, List.mem_map]
  constructor
  · rintro ⟨old, member, rfl⟩
    by_cases same : key old = key new
    · rw [if_pos same]
      exact Or.inl ⟨rfl, old, member, same⟩
    · rw [if_neg same]
      exact Or.inr ⟨member, same⟩
  · rintro (⟨rfl, old, member, same⟩ | ⟨member, different⟩)
    · exact ⟨old, member, if_pos same⟩
    · exact ⟨item, member, if_neg different⟩

theorem mem_add {keyed : Keyed key} {new item : Item}
    (fresh : ∀ old ∈ keyed.items, key old ≠ key new) :
    item ∈ (keyed.add new).items ↔ item ∈ keyed.items ∨ item = new := by
  have absent : key new ∉ keyed.items.map key := fun inside => by
    obtain ⟨old, member, same⟩ := List.mem_map.mp inside
    exact fresh old member same
  rw [add, dif_neg absent, List.mem_append, List.mem_singleton]

/-- The item set in place of one is the one found there. -/
theorem get?_set_self {keyed : Keyed key} {wanted : Key} {old new : Item}
    (held : keyed.get? wanted = some old) (same : key new = wanted) :
    (keyed.set new).get? wanted = some new := by
  obtain ⟨member, named⟩ := get?_eq_some_iff.mp held
  exact get?_eq_some_iff.mpr ⟨mem_set.mpr (Or.inl ⟨rfl, old, member, named.trans same.symm⟩), same⟩

theorem get?_set_of_ne {keyed : Keyed key} {wanted : Key} {item new : Item}
    (held : keyed.get? wanted = some item) (different : wanted ≠ key new) :
    (keyed.set new).get? wanted = some item := by
  obtain ⟨member, named⟩ := get?_eq_some_iff.mp held
  refine get?_eq_some_iff.mpr ⟨mem_set.mpr (Or.inr ⟨member, ?_⟩), named⟩
  rw [named]
  exact different

/-- What is found once an item is set in place of one. -/
theorem get?_set (keyed : Keyed key) (new : Item) (wanted : Key)
    (held : (keyed.get? (key new)).isSome = true) :
    (keyed.set new).get? wanted = if wanted = key new then some new else keyed.get? wanted := by
  obtain ⟨old, isOld⟩ := Option.isSome_iff_exists.mp held
  by_cases same : wanted = key new
  · rw [if_pos same, same]
    exact get?_set_self isOld rfl
  · rw [if_neg same]
    ext item
    constructor
    · intro found
      obtain ⟨member, named⟩ := get?_eq_some_iff.mp found
      rcases mem_set.mp member with ⟨rfl, _⟩ | ⟨kept, _⟩
      · exact absurd named.symm same
      · exact get?_eq_some_iff.mpr ⟨kept, named⟩
    · exact fun found => get?_set_of_ne found same

/-- What is found once a new item is there. -/
theorem get?_add_new (keyed : Keyed key) (new : Item) (wanted : Key)
    (fresh : keyed.get? (key new) = none) :
    (keyed.add new).get? wanted = if wanted = key new then some new else keyed.get? wanted := by
  have others := get?_eq_none_iff.mp fresh
  by_cases same : wanted = key new
  · rw [if_pos same]
    exact get?_eq_some_iff.mpr ⟨(mem_add others).mpr (Or.inr rfl), same.symm⟩
  · rw [if_neg same]
    ext item
    rw [get?_eq_some_iff, get?_eq_some_iff, mem_add others]
    constructor
    · rintro ⟨member | rfl, named⟩
      · exact ⟨member, named⟩
      · exact absurd named.symm same
    · exact fun found => ⟨Or.inl found.1, found.2⟩

/-- A new item leaves the others where they are found. -/
theorem get?_add {keyed : Keyed key} {wanted : Key} {item new : Item}
    (fresh : ∀ old ∈ keyed.items, key old ≠ key new) (held : keyed.get? wanted = some item) :
    (keyed.add new).get? wanted = some item := by
  obtain ⟨member, named⟩ := get?_eq_some_iff.mp held
  exact get?_eq_some_iff.mpr ⟨(mem_add fresh).mpr (Or.inl member), named⟩

/-- The next number after the keys held. -/
def nextKey {Item : Type} {key : Item → Nat} (keyed : Keyed key) : Nat :=
  ((keyed.items.map key).max?.getD 0) + 1

theorem lt_nextKey {Item : Type} {key : Item → Nat} {keyed : Keyed key} {item : Item}
    (member : item ∈ keyed.items) : key item < keyed.nextKey := by
  have inside : key item ∈ keyed.items.map key := List.mem_map_of_mem member
  unfold nextKey
  cases largest : (keyed.items.map key).max? with
  | none =>
    rw [List.max?_eq_none_iff] at largest
    rw [largest] at inside
    cases inside
  | some most =>
    have bound := List.le_max?_get_of_mem inside
    simp only [largest, Option.get_some] at bound
    exact Nat.lt_succ_of_le bound

theorem get?_nextKey {Item : Type} {key : Item → Nat} (keyed : Keyed key) :
    keyed.get? keyed.nextKey = none :=
  get?_eq_none_iff.mpr fun _ member => (lt_nextKey member).ne

end Rows

/-! ### A ledger beside what is present -/

section Ledger

variable [DecidableEq Key] {Entry : Type} {entryKey : Entry → Key}

/-- The items whose key no entry names. -/
def unnamed (items : Keyed key) (entries : Keyed entryKey) : Keyed key :=
  items.keep fun item => !entries.items.any fun entry => entryKey entry == key item

/-- What a key weighs: its entry's charge, else its item's weight. -/
def load (entries : Keyed entryKey) (items : Keyed key) (charge : Entry → Nat)
    (weight : Item → Nat) (wanted : Key) : Nat :=
  match entries.get? wanted with
  | some entry => charge entry
  | none => (items.get? wanted).elim 0 weight

/-- What the ledger and the items it does not name weigh together. -/
def total (entries : Keyed entryKey) (items : Keyed key) (charge : Entry → Nat)
    (weight : Item → Nat) : Nat :=
  entries.sum charge + (items.unnamed entries).sum weight

/-- A sum over the items is a sum over any keys that include theirs. -/
theorem sum_eq_sum_keys (keyed : Keyed key) (weight : Item → Nat) (keys : Finset Key)
    (covers : ∀ item ∈ keyed.items, key item ∈ keys) :
    keyed.sum weight = ∑ wanted ∈ keys, (keyed.get? wanted).elim 0 weight := by
  have image : (keyed.items.map key).toFinset ⊆ keys := by
    intro wanted member
    obtain ⟨item, inside, same⟩ := List.mem_map.mp (List.mem_toFinset.mp member)
    rw [← same]
    exact covers item inside
  rw [← Finset.sum_subset image]
  · rw [List.sum_toFinset _ keyed.distinct, List.map_map, sum]
    refine congrArg List.sum (List.map_congr_left fun item member => ?_)
    rw [Function.comp_apply, get?_eq_some_iff.mpr ⟨member, rfl⟩]
    rfl
  · intro wanted _ absent
    have none : keyed.get? wanted = none := get?_eq_none_iff.mpr fun item member same =>
      absent (List.mem_toFinset.mpr (List.mem_map.mpr ⟨item, member, same⟩))
    rw [none]
    rfl

theorem get?_unnamed (items : Keyed key) (entries : Keyed entryKey) (wanted : Key) :
    (items.unnamed entries).get? wanted =
      if entries.get? wanted = none then items.get? wanted else none := by
  have named : ∀ item, (!entries.items.any fun entry => entryKey entry == key item) = true ↔
      entries.get? (key item) = none := by
    intro item
    rw [get?_eq_none_iff]
    simp
  ext item
  rw [get?_eq_some_iff, unnamed, mem_keep, named]
  split
  · rename_i absent
    rw [get?_eq_some_iff]
    refine ⟨fun held => ⟨held.1.1, held.2⟩, fun held => ⟨⟨held.1, ?_⟩, held.2⟩⟩
    rw [held.2]
    exact absent
  · rename_i present
    refine ⟨fun held => absurd ?_ present, fun held => (by cases held)⟩
    rw [← held.2]
    exact held.1.2

/-- The two weigh together what the keys weigh. -/
theorem total_eq_sum (entries : Keyed entryKey) (items : Keyed key) (charge : Entry → Nat)
    (weight : Item → Nat) (keys : Finset Key)
    (entriesCovered : ∀ entry ∈ entries.items, entryKey entry ∈ keys)
    (itemsCovered : ∀ item ∈ items.items, key item ∈ keys) :
    total entries items charge weight = ∑ wanted ∈ keys, load entries items charge weight wanted := by
  have unnamedCovered : ∀ item ∈ (items.unnamed entries).items, key item ∈ keys :=
    fun item member => itemsCovered item (mem_keep.mp member).1
  rw [total, sum_eq_sum_keys entries charge keys entriesCovered,
    sum_eq_sum_keys _ weight keys unnamedCovered, ← Finset.sum_add_distrib]
  refine Finset.sum_congr rfl fun wanted _ => ?_
  rw [get?_unnamed, load]
  cases entries.get? wanted with
  | none => exact Nat.zero_add _
  | some entry => rfl

/-- Where no key weighs more, the two weigh no more together. -/
theorem total_le_total {firstEntries secondEntries : Keyed entryKey} {first second : Keyed key}
    {charge : Entry → Nat} {weight : Item → Nat}
    (lighter : ∀ wanted, load firstEntries first charge weight wanted ≤
      load secondEntries second charge weight wanted) :
    total firstEntries first charge weight ≤ total secondEntries second charge weight := by
  let keys : Finset Key := (firstEntries.items.map entryKey ++ secondEntries.items.map entryKey ++
    first.items.map key ++ second.items.map key).toFinset
  have named : ∀ wanted, (wanted ∈ firstEntries.items.map entryKey ∨
      wanted ∈ secondEntries.items.map entryKey ∨ wanted ∈ first.items.map key ∨
      wanted ∈ second.items.map key) → wanted ∈ keys := by
    intro wanted member
    rw [List.mem_toFinset, List.mem_append, List.mem_append, List.mem_append]
    tauto
  rw [total_eq_sum firstEntries first charge weight keys
      (fun _ member => named _ (Or.inl (List.mem_map_of_mem member)))
      (fun _ member => named _ (Or.inr (Or.inr (Or.inl (List.mem_map_of_mem member))))),
    total_eq_sum secondEntries second charge weight keys
      (fun _ member => named _ (Or.inr (Or.inl (List.mem_map_of_mem member))))
      (fun _ member => named _ (Or.inr (Or.inr (Or.inr (List.mem_map_of_mem member)))))]
  exact Finset.sum_le_sum fun wanted _ => lighter wanted

end Ledger

end Keyed

end Dagq.Lib
