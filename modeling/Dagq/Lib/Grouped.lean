/-
This file groups values under keys: an ordered map each of whose keys holds a list, to
whose end a value is pushed. A loop of pushes leaves under a key what one of its rounds
pushed there. It also collects pairs into a map, where the keys are distinct, and
changes every value of a map. Sums over the values are sums over the keys.
-/

import Mathlib.Algebra.BigOperators.Group.Finset.Basic
import Dagq.Lib.Ordered

namespace Dagq.Lib.Ordered

variable {Key Value Other Item : Type} [LinearOrder Key]

/-! ### Lists under keys -/

/-- The values under a key, none where the key is absent. -/
def held (map : Ordered Key (List Value)) (key : Key) : List Value := (map.get? key).getD []

/-- Push a value to the end of those under its key. -/
def push (map : Ordered Key (List Value)) (key : Key) (value : Value) : Ordered Key (List Value) :=
  map.insert key (map.held key ++ [value])

@[simp] theorem held_empty (key : Key) : (empty : Ordered Key (List Value)).held key = [] := rfl

theorem mem_held_push (map : Ordered Key (List Value)) (key other : Key) (value new : Value) :
    value ∈ (map.push key new).held other ↔
      (other = key ∧ value = new) ∨ value ∈ map.held other := by
  rw [push, held, get?_insert]
  by_cases same : other = key
  · rw [if_pos same, Option.getD_some, List.mem_append, List.mem_singleton, same]
    tauto
  · rw [if_neg same, ← held]
    simp [same]

/-- What a loop leaves under a key, each of whose rounds adds to what is there. -/
theorem mem_held_foldl (step : Ordered Key (List Value) → Item → Ordered Key (List Value))
    (adds : Item → Key → Value → Prop)
    (each : ∀ map item key value,
      value ∈ (step map item).held key ↔ adds item key value ∨ value ∈ map.held key)
    (items : List Item) (map : Ordered Key (List Value)) (key : Key) (value : Value) :
    value ∈ (items.foldl step map).held key ↔
      (∃ item ∈ items, adds item key value) ∨ value ∈ map.held key := by
  induction items generalizing map with
  | nil => simp
  | cons item rest inductionHypothesis =>
    rw [List.foldl_cons, inductionHypothesis, each, List.exists_mem_cons_iff, or_left_comm,
      or_assoc]

/-! ### Every value changed -/

/-- The map with every value changed. -/
def mapValues (map : Ordered Key Value) (change : Value → Other) : Ordered Key Other where
  entries := map.entries.map fun entry => (entry.1, change entry.2)
  ascending := List.pairwise_map.mpr map.ascending

theorem get?_mapValues (map : Ordered Key Value) (change : Value → Other) (key : Key) :
    (map.mapValues change).get? key = (map.get? key).map change := by
  ext found
  rw [get?_eq_some_iff, mapValues, List.mem_map, Option.map_eq_some_iff]
  constructor
  · rintro ⟨⟨other, value⟩, member, isEntry⟩
    obtain ⟨rfl, rfl⟩ := Prod.mk.inj isEntry
    exact ⟨value, get?_eq_some_iff.mpr member, rfl⟩
  · rintro ⟨value, isFound, rfl⟩
    exact ⟨(key, value), get?_eq_some_iff.mp isFound, rfl⟩

theorem held_mapValues (map : Ordered Key (List Value)) {change : List Value → List Other}
    (keepsNone : change [] = []) (key : Key) :
    (map.mapValues change).held key = change (map.held key) := by
  rw [held, get?_mapValues, held]
  cases map.get? key with
  | none => exact keepsNone.symm
  | some values => rfl

/-! ### Pairs collected -/

/-- The map that pairs set one after another. -/
def collect (pairs : List (Key × Value)) : Ordered Key Value :=
  pairs.foldl (fun map pair => map.insert pair.1 pair.2) empty

theorem get?_foldl_insert {pairs : List (Key × Value)} (distinct : (pairs.map Prod.fst).Nodup)
    (map : Ordered Key Value) (key : Key) (value : Value) :
    (pairs.foldl (fun map pair => map.insert pair.1 pair.2) map).get? key = some value ↔
      (key, value) ∈ pairs ∨ (key ∉ pairs.map Prod.fst ∧ map.get? key = some value) := by
  induction pairs generalizing map with
  | nil => simp
  | cons pair rest inductionHypothesis =>
    obtain ⟨first, held⟩ := pair
    rw [List.map_cons, List.nodup_cons] at distinct
    rw [List.foldl_cons, inductionHypothesis distinct.2, get?_insert, List.mem_cons, List.map_cons,
      List.mem_cons, Prod.mk.injEq]
    by_cases same : key = first
    · subst same
      have absent : (key, value) ∉ rest := fun inRest =>
        distinct.1 (List.mem_map.mpr ⟨(key, value), inRest, rfl⟩)
      simp [absent, distinct.1, eq_comm]
    · simp [same]

/-- Pairs with keys of their own are all held, and nothing else is. -/
theorem get?_collect {pairs : List (Key × Value)} (distinct : (pairs.map Prod.fst).Nodup)
    (key : Key) (value : Value) :
    (collect pairs).get? key = some value ↔ (key, value) ∈ pairs := by
  rw [collect, get?_foldl_insert distinct]
  simp

/-! ### Sums -/

theorem keys_nodup (map : Ordered Key Value) : (map.entries.map Prod.fst).Nodup :=
  List.pairwise_map.mpr (map.ascending.imp ne_of_lt)

/-- A sum over the values is the sum over any keys that are all of the map's. -/
theorem sum_values_eq_sum {Total : Type} [AddCommMonoid Total] (map : Ordered Key Value)
    (amount : Value → Total) (keys : Finset Key)
    (all : ∀ key value, map.get? key = some value → key ∈ keys) :
    (map.values.map amount).sum = ∑ key ∈ keys, (map.get? key).elim 0 amount := by
  have among : (map.entries.map Prod.fst).toFinset ⊆ keys := by
    intro key isKey
    obtain ⟨⟨_, value⟩, member, rfl⟩ := List.mem_map.mp (List.mem_toFinset.mp isKey)
    exact all _ value (get?_eq_some_iff.mpr member)
  rw [← Finset.sum_subset among, List.sum_toFinset _ map.keys_nodup, values, List.map_map,
    List.map_map]
  · refine congrArg List.sum (List.map_congr_left fun entry member => ?_)
    rw [Function.comp_apply, Function.comp_apply, get?_eq_some_iff.mpr member, Option.elim_some]
  · intro key _ notKey
    cases found : map.get? key with
    | none => rfl
    | some value =>
      exact absurd (List.mem_toFinset.mpr
        (List.mem_map.mpr ⟨_, get?_eq_some_iff.mp found, rfl⟩)) notKey

end Dagq.Lib.Ordered
