/-
This file cuts a list in the order of a key into tiers, the runs of one key, and
rearranges each tier on its own. What a rearrangement does to the items of one key is
all that it does to the list: nothing leaves its tier, and the order of the tiers is
kept.
-/

import Mathlib.Data.List.Perm.Basic
import Mathlib.Tactic

namespace Dagq.Lib

variable {Item Other Key : Type*}

/-- What is picked of a list, each item as `names` has it, is some of the names in their order. -/
theorem filterMap_sublist_map {picks : Item → Option Other} {names : Item → Other}
    (either : ∀ item, picks item = none ∨ picks item = some (names item)) (items : List Item) :
    (items.filterMap picks).Sublist (items.map names) := by
  induction items with
  | nil => exact List.Sublist.slnil
  | cons item rest inductionHypothesis =>
    rw [List.map_cons]
    rcases either item with isNone | isSome
    · rw [List.filterMap_cons_none isNone]
      exact inductionHypothesis.cons _
    · rw [List.filterMap_cons_some isSome]
      exact inductionHypothesis.cons_cons _

/-- The runs of items of one key, in order. -/
def tiers [DecidableEq Key] (key : Item → Key) : List Item → List (List Item)
  | [] => []
  | first :: rest =>
    (first :: rest.takeWhile fun item => key item = key first) ::
      tiers key (rest.dropWhile fun item => key item = key first)
termination_by items => items.length
decreasing_by
  rw [List.length_cons]
  exact Nat.lt_succ_of_le (List.dropWhile_sublist _).length_le

section Tiers

variable [LinearOrder Key] {key : Item → Key}

/-- Items by descending key. -/
def Descending (key : Item → Key) (items : List Item) : Prop :=
  items.Pairwise fun one other => key other ≤ key one

/-- A descending list is its first tier, then items of lower keys. -/
theorem Descending.cut {first : Item} {rest : List Item}
    (descending : Descending key (first :: rest)) :
    (∀ item ∈ rest.takeWhile (fun item => key item = key first), key item = key first) ∧
      ∀ item ∈ rest.dropWhile (fun item => key item = key first), key item < key first := by
  obtain ⟨below, restDescending⟩ := List.pairwise_cons.mp descending
  clear descending
  induction rest with
  | nil => exact ⟨fun _ member => absurd member List.not_mem_nil,
      fun _ member => absurd member List.not_mem_nil⟩
  | cons head tail inductionHypothesis =>
    obtain ⟨headLe, tailBelow⟩ := List.forall_mem_cons.mp below
    obtain ⟨headFirst, tailDescending⟩ := List.pairwise_cons.mp restDescending
    by_cases same : key head = key first
    · obtain ⟨level, lower⟩ := inductionHypothesis tailBelow tailDescending
      rw [List.takeWhile_cons_of_pos (by simpa using same), List.dropWhile_cons_of_pos
        (by simpa using same)]
      exact ⟨List.forall_mem_cons.mpr ⟨same, level⟩, lower⟩
    · have headLower : key head < key first := lt_of_le_of_ne headLe same
      rw [List.takeWhile_cons_of_neg (by simpa using same), List.dropWhile_cons_of_neg
        (by simpa using same)]
      exact ⟨fun _ member => absurd member List.not_mem_nil,
        List.forall_mem_cons.mpr ⟨headLower, fun item member =>
          (headFirst item member).trans_lt headLower⟩⟩

/-- The induction over the tiers of a descending list: each tier is of one key, and the items after
it are of lower keys. -/
theorem Descending.induction {motive : List Item → Prop} (nil : motive [])
    (step : ∀ level tier after, (∀ item ∈ tier, key item = level) →
      (∀ item ∈ after, key item < level) → tiers key (tier ++ after) = tier :: tiers key after →
      Descending key after → motive after → motive (tier ++ after))
    {items : List Item} (descending : Descending key items) : motive items := by
  induction items using tiers.induct key with
  | case1 => exact nil
  | case2 first rest inductionHypothesis =>
    obtain ⟨level, lower⟩ := descending.cut
    have whole : (first :: rest.takeWhile fun item => key item = key first) ++
        rest.dropWhile (fun item => key item = key first) = first :: rest := by
      rw [List.cons_append, List.takeWhile_append_dropWhile]
    have afterDescending : Descending key
        (rest.dropWhile fun item => key item = key first) := by
      rw [← whole] at descending
      exact (List.pairwise_append.mp descending).2.1
    rw [← whole]
    refine step (key first) _ _ (List.forall_mem_cons.mpr ⟨rfl, level⟩) lower ?_ afterDescending
      (inductionHypothesis afterDescending)
    rw [whole, tiers]

/-- The items of a key among a tier and the items after it. -/
theorem filter_tier {level other : Key} {tier after : List Item}
    (isTier : ∀ item ∈ tier, key item = level) (lower : ∀ item ∈ after, key item < level) :
    (tier ++ after).filter (fun item => key item = other) =
      if other = level then tier else after.filter fun item => key item = other := by
  rw [List.filter_append]
  split
  · next same =>
    have all : tier.filter (fun item => key item = other) = tier :=
      List.filter_eq_self.mpr fun item member => by simpa [same] using isTier item member
    have none_ : after.filter (fun item => key item = other) = [] :=
      List.filter_eq_nil_iff.mpr fun item member => by simpa [same] using (lower item member).ne
    rw [all, none_, List.append_nil]
  · next different =>
    have none_ : tier.filter (fun item => key item = other) = [] :=
      List.filter_eq_nil_iff.mpr fun item member => by
        simpa [isTier item member] using Ne.symm different
    rw [none_, List.nil_append]

/-- What the tiers of a descending list give is what the items of each key give. -/
theorem mem_flatMap_tiers {items : List Item} (descending : Descending key items)
    (gives : List Item → List Other) (nothing : gives [] = []) (other : Other) :
    other ∈ (tiers key items).flatMap gives ↔
      ∃ level, other ∈ gives (items.filter fun item => key item = level) := by
  refine Descending.induction (motive := fun items => other ∈ (tiers key items).flatMap gives ↔
    ∃ level, other ∈ gives (items.filter fun item => key item = level)) ?_ ?_ descending
  · simp [tiers, nothing]
  intro level tier after isTier lower cuts _ inductionHypothesis
  rw [cuts, List.flatMap_cons, List.mem_append, inductionHypothesis]
  have afterLevel : after.filter (fun item => key item = level) = [] :=
    List.filter_eq_nil_iff.mpr fun item member => by simpa using (lower item member).ne
  simp only [filter_tier isTier lower]
  constructor
  · rintro (inTier | ⟨further, inAfter⟩)
    · exact ⟨level, by rwa [if_pos rfl]⟩
    · refine ⟨further, ?_⟩
      have different : further ≠ level := by
        rintro rfl
        rw [afterLevel, nothing] at inAfter
        cases inAfter
      rwa [if_neg different]
  · rintro ⟨further, isGiven⟩
    by_cases same : further = level
    · exact Or.inl (by rwa [if_pos same] at isGiven)
    · exact Or.inr ⟨further, by rwa [if_neg same] at isGiven⟩

section Rearranged

variable {rearrange : List Item → List Item} (permutes : ∀ tier, (rearrange tier).Perm tier)
include permutes

/-- Rearranged tiers are the items, the keys descending as before, and the items of each key
rearranged. -/
theorem flatMap_tiers {items : List Item} (descending : Descending key items) :
    ((tiers key items).flatMap rearrange).Perm items ∧
      Descending key ((tiers key items).flatMap rearrange) ∧
      ∀ level, ((tiers key items).flatMap rearrange).filter (fun item => key item = level) =
        rearrange (items.filter fun item => key item = level) := by
  have nothing : rearrange [] = [] := (permutes []).eq_nil
  refine Descending.induction (motive := fun items =>
    ((tiers key items).flatMap rearrange).Perm items ∧
      Descending key ((tiers key items).flatMap rearrange) ∧
      ∀ level, ((tiers key items).flatMap rearrange).filter (fun item => key item = level) =
        rearrange (items.filter fun item => key item = level)) ?_ ?_ descending
  · rw [tiers, List.flatMap_nil]
    exact ⟨List.Perm.refl _, List.Pairwise.nil, fun level => nothing.symm⟩
  intro level tier after isTier lower cuts _ inductionHypothesis
  obtain ⟨permuted, afterDescending, ofKey⟩ := inductionHypothesis
  have tierLevel : ∀ item ∈ rearrange tier, key item = level := fun item member =>
    isTier item ((permutes tier).mem_iff.mp member)
  have afterLower : ∀ item ∈ (tiers key after).flatMap rearrange, key item < level :=
    fun item member => lower item (permuted.mem_iff.mp member)
  rw [cuts, List.flatMap_cons]
  refine ⟨(permutes tier).append permuted, List.pairwise_append.mpr ⟨?_, afterDescending, ?_⟩, ?_⟩
  · refine List.pairwise_of_forall_mem_list fun one isOne other isOther => ?_
    rw [tierLevel one isOne, tierLevel other isOther]
  · intro one isOne other isOther
    rw [tierLevel one isOne]
    exact (afterLower other isOther).le
  · intro other
    rw [filter_tier tierLevel afterLower, filter_tier isTier lower, ofKey]
    split <;> rfl

end Rearranged

end Tiers

end Dagq.Lib
