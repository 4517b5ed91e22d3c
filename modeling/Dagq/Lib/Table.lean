/-
This file builds finite tables: a list of key and value pairs whose keys are
distinct, the state a hash map of a program has when the order of its iteration
is left open. A table carries the distinctness of its keys, so that no lookup
is ever ambiguous, and each operation keeps it. Sums over the entries split at
one key and at a predicate, which is what an accounting of the values needs.
-/

import Mathlib.Algebra.BigOperators.Group.List.Basic
import Mathlib.Tactic

namespace Dagq.Lib

/-- A finite map as the list of its entries, no key twice. -/
structure Table (Key Value : Type) where
  entries : List (Key × Value)
  distinct : (entries.map Prod.fst).Nodup

namespace Table

variable {Key Value : Type}

/-! ### Operations -/

/-- The table without entries. -/
def empty : Table Key Value := ⟨[], List.nodup_nil⟩

/-- The keys held. -/
def keys (table : Table Key Value) : List Key := table.entries.map Prod.fst

/-- How many of the keys held satisfy `counted`. -/
def count (table : Table Key Value) (counted : Key → Bool) : Nat := table.keys.countP counted

/-- The sum of a weight over the entries. -/
def sum (table : Table Key Value) (weight : Key → Value → Nat) : Nat :=
  (table.entries.map fun entry => weight entry.1 entry.2).sum

/-- Keep the entries that satisfy `keep`. -/
def retain (table : Table Key Value) (keep : Key → Value → Bool) : Table Key Value where
  entries := table.entries.filter fun entry => keep entry.1 entry.2
  distinct := table.distinct.sublist (List.filter_sublist.map Prod.fst)

section Lookup

variable [DecidableEq Key]

/-- The value of a key, if the key is held. -/
def get? (table : Table Key Value) (key : Key) : Option Value :=
  (table.entries.find? fun entry => entry.1 = key).map Prod.snd

/-- The table without a key. -/
def erase (table : Table Key Value) (key : Key) : Table Key Value :=
  table.retain fun other _ => other ≠ key

/-- Set the value of a key, held or not. -/
def insert (table : Table Key Value) (key : Key) (value : Value) : Table Key Value where
  entries := (key, value) :: (table.erase key).entries
  distinct := by
    rw [List.map_cons, List.nodup_cons]
    refine ⟨?_, (table.erase key).distinct⟩
    rw [List.mem_map]
    rintro ⟨entry, member, same⟩
    simp only [erase, retain, List.mem_filter, ne_eq, decide_not, Bool.not_eq_true',
      decide_eq_false_iff_not] at member
    exact member.2 same

/-! ### Lookups -/

theorem get?_eq_some_iff (table : Table Key Value) (key : Key) (value : Value) :
    table.get? key = some value ↔ (key, value) ∈ table.entries := by
  obtain ⟨entries, distinct⟩ := table
  simp only [get?]
  induction entries with
  | nil => simp
  | cons entry rest inductionHypothesis =>
    obtain ⟨first, second⟩ := entry
    simp only [List.map_cons, List.nodup_cons] at distinct
    by_cases same : first = key
    · subst same
      have absent : ∀ other, (first, other) ∉ rest := fun other member =>
        distinct.1 (List.mem_map.mpr ⟨_, member, rfl⟩)
      simp [absent, eq_comm]
    · simp only [List.find?_cons, same, decide_false, List.mem_cons, Prod.mk.injEq]
      rw [inductionHypothesis distinct.2]
      simp [Ne.symm same]

theorem get?_eq_none_iff (table : Table Key Value) (key : Key) :
    table.get? key = none ↔ key ∉ table.keys := by
  simp only [get?, keys, Option.map_eq_none_iff, List.find?_eq_none, decide_eq_true_eq,
    List.mem_map, not_exists, not_and]

@[simp] theorem get?_empty (key : Key) : (empty : Table Key Value).get? key = none := rfl

@[simp] theorem get?_insert_self (table : Table Key Value) (key : Key) (value : Value) :
    (table.insert key value).get? key = some value := by
  rw [get?_eq_some_iff]
  exact List.mem_cons_self

theorem get?_retain_eq_some_iff (table : Table Key Value) (keep : Key → Value → Bool) (key : Key)
    (value : Value) :
    (table.retain keep).get? key = some value ↔
      table.get? key = some value ∧ keep key value = true := by
  rw [get?_eq_some_iff, get?_eq_some_iff]
  simp only [retain, List.mem_filter]

theorem get?_insert_of_ne (table : Table Key Value) {key other : Key} (value : Value)
    (different : other ≠ key) : (table.insert key value).get? other = table.get? other := by
  ext found
  rw [get?_eq_some_iff, get?_eq_some_iff]
  simp only [insert, erase, retain, List.mem_cons, Prod.mk.injEq, List.mem_filter]
  simp [different]

/-! ### Counts and sums -/

theorem erase_of_get?_eq_none (table : Table Key Value) (key : Key)
    (absent : table.get? key = none) : (table.erase key).entries = table.entries := by
  rw [get?_eq_none_iff] at absent
  simp only [erase, retain]
  refine List.filter_eq_self.mpr fun entry member => ?_
  have different : entry.1 ≠ key := fun same =>
    absent (same ▸ List.mem_map.mpr ⟨entry, member, rfl⟩)
  simpa using different

/-- The sum splits off the entry of a held key. -/
theorem sum_eq_erase_add (table : Table Key Value) (weight : Key → Value → Nat) (key : Key)
    (value : Value) (held : table.get? key = some value) :
    table.sum weight = (table.erase key).sum weight + weight key value := by
  have member := (get?_eq_some_iff table key value).mp held
  clear held
  obtain ⟨entries, distinct⟩ := table
  simp only [sum, erase, retain] at *
  induction entries with
  | nil => cases member
  | cons entry rest inductionHypothesis =>
    obtain ⟨first, second⟩ := entry
    simp only [List.map_cons, List.nodup_cons, List.mem_map, not_exists, not_and] at distinct
    by_cases same : first = key
    · subst same
      have others : rest.filter (fun entry => decide (entry.1 ≠ first)) = rest :=
        List.filter_eq_self.mpr fun entry inside => by
          simpa using distinct.1 entry inside
      have value_eq : second = value := by
        rcases List.mem_cons.mp member with head | tail
        · exact (Prod.mk.inj head).2.symm
        · exact absurd rfl (distinct.1 _ tail)
      rw [List.filter_cons_of_neg (by simp), others, List.map_cons, List.sum_cons, value_eq,
        Nat.add_comm]
    · have tail : (key, value) ∈ rest := by
        rcases List.mem_cons.mp member with head | tail
        · exact absurd (Prod.mk.inj head).1.symm same
        · exact tail
      have rest_eq := inductionHypothesis distinct.2 tail
      rw [List.filter_cons_of_pos (by simpa using same), List.map_cons, List.map_cons,
        List.sum_cons, List.sum_cons, rest_eq, Nat.add_assoc]

theorem sum_insert_of_get?_eq_none (table : Table Key Value) (weight : Key → Value → Nat)
    (key : Key) (value : Value) (absent : table.get? key = none) :
    (table.insert key value).sum weight = weight key value + table.sum weight := by
  simp only [sum, insert, List.map_cons, List.sum_cons, erase_of_get?_eq_none table key absent]

/-- Setting a held key exchanges the weight of its old value for that of its new one. -/
theorem sum_insert_of_get?_eq_some (table : Table Key Value) (weight : Key → Value → Nat)
    (key : Key) (old value : Value) (held : table.get? key = some old) :
    (table.insert key value).sum weight + weight key old = weight key value + table.sum weight := by
  rw [sum_eq_erase_add table weight key old held]
  simp only [sum, insert, List.map_cons, List.sum_cons]
  rw [Nat.add_assoc]

theorem count_insert_of_get?_eq_none (table : Table Key Value) (counted : Key → Bool) (key : Key)
    (value : Value) (absent : table.get? key = none) :
    (table.insert key value).count counted =
      table.count counted + if counted key then 1 else 0 := by
  simp only [count, keys, insert, erase_of_get?_eq_none table key absent, List.map_cons,
    List.countP_cons]

/-- The keys held before an `insert` of a held key are those held after it. -/
theorem keys_insert_perm (table : Table Key Value) (key : Key) (old value : Value)
    (held : table.get? key = some old) : (table.insert key value).keys.Perm table.keys := by
  refine (List.perm_ext_iff_of_nodup (table.insert key value).distinct table.distinct).mpr
    fun other => ?_
  have inside : key ∈ table.keys :=
    List.mem_map.mpr ⟨_, (get?_eq_some_iff table key old).mp held, rfl⟩
  show other ∈ (table.insert key value).keys ↔ other ∈ table.keys
  by_cases same : other = key
  · subst same
    exact iff_of_true List.mem_cons_self inside
  · rw [← not_iff_not, ← get?_eq_none_iff, ← get?_eq_none_iff,
      get?_insert_of_ne table value same]

theorem count_insert_of_get?_eq_some (table : Table Key Value) (counted : Key → Bool) (key : Key)
    (old value : Value) (held : table.get? key = some old) :
    (table.insert key value).count counted = table.count counted :=
  (keys_insert_perm table key old value held).countP_eq _

end Lookup

theorem count_retain_le (table : Table Key Value) (counted : Key → Bool)
    (keep : Key → Value → Bool) : (table.retain keep).count counted ≤ table.count counted :=
  (List.filter_sublist.map Prod.fst).countP_le

/-- The sum splits into what a predicate keeps and what it drops. -/
theorem sum_retain_add (table : Table Key Value) (weight : Key → Value → Nat)
    (keep : Key → Value → Bool) :
    (table.retain keep).sum weight +
        ((table.entries.filter fun entry => !keep entry.1 entry.2).map
          fun entry => weight entry.1 entry.2).sum =
      table.sum weight := by
  simp only [sum, retain]
  induction table.entries with
  | nil => rfl
  | cons entry rest inductionHypothesis =>
    by_cases kept : keep entry.1 entry.2 = true
    · simp only [List.filter_cons, kept, Bool.not_true, if_true, Bool.false_eq_true, if_false,
        List.map_cons, List.sum_cons]
      omega
    · simp only [List.filter_cons, kept, Bool.false_eq_true, if_false, Bool.not_false, if_true,
        List.map_cons, List.sum_cons]
      omega

end Table

end Dagq.Lib
