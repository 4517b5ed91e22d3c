/-
This file arranges the candidates of a claim: it leaves out those excluded and those of
a class at its limit, and within one effective priority lets the class go first whose
candidate waited longest past the threshold of aging. Nothing leaves its priority, and
the candidates of one class keep the order they were given in; so the order is the
rule's but for one class going before the other in a tier.
-/

import Dagq.Ledger.Time
import Dagq.Lib.Tiers
import Dagq.Priorities.Task

namespace Dagq.Claim

open Dagq.Ledger Dagq.Lib Dagq.Priorities

/-! ### Candidates and limits -/

/-- The place of a priority among all of them, from the least. -/
def rank : Priority → Nat
  | .low => 0
  | .normal => 1
  | .high => 2
  | .urgent => 3
  | .interrupt => 4

theorem rank_injective : Function.Injective rank := by
  intro first second same
  cases first <;> cases second <;> first | rfl | cases same

instance : LinearOrder Priority where
  le first second := rank first ≤ rank second
  lt first second := rank first < rank second
  le_refl first := le_refl (rank first)
  le_trans first second third := le_trans
  le_antisymm first second less more := rank_injective (le_antisymm less more)
  lt_iff_le_not_ge first second := lt_iff_le_not_ge
  le_total first second := le_total (rank first) (rank second)
  toDecidableLE := fun first second => inferInstanceAs (Decidable (rank first ≤ rank second))
  toDecidableEq := inferInstance

inductive ExecutionClass where
  | implementation
  | spike
  deriving DecidableEq, Repr

/-- The class that it is not. -/
def ExecutionClass.other : ExecutionClass → ExecutionClass
  | implementation => spike
  | spike => implementation

/-- A claimable task as the order compares it. -/
structure Candidate (TaskId : Type) where
  id : TaskId
  class_ : ExecutionClass
  priority : Priority
  readyAtMs : Option Int

/-- The class limits in force for a claim. -/
structure ClassLimits where
  maxSpikes : Option Nat := none
  runningSpikes : Nat := 0

def spikeLimit : String := "spike_limit"

/-- Why a task of the class may not be claimed now. -/
def ClassLimits.limit (limits : ClassLimits) : ExecutionClass → Option String
  | .spike =>
    (limits.maxSpikes.filter fun greatest => limits.runningSpikes ≥ greatest).map fun _ => spikeLimit
  | .implementation => none

/-- The classes a claim may not take now. -/
def ClassLimits.held (limits : ClassLimits) : List ExecutionClass :=
  [ExecutionClass.implementation, .spike].filter fun class_ => (limits.limit class_).isSome

/-! ### Waits -/

/-- The difference, or the bound it passes. -/
def saturatingSub (first second : Int) : Int := max i64Min (min i64Max (first - second))

/-- The product, or the bound it passes. -/
def saturatingMul (first second : Int) : Int := max i64Min (min i64Max (first * second))

/-- Whether a wait is past the threshold of aging, strictly. -/
def overdue (waitedMs : Int) (agingSecs : Nat) : Bool :=
  let thresholdMs := saturatingMul ((checked agingSecs).getD i64Max) 1000
  waitedMs > thresholdMs

section Tier

variable {TaskId : Type} (nowMs : Int) (agingSecs : Nat)

/-- A candidate's wait, where it is overdue. -/
def wait (candidate : Candidate TaskId) : Option Int :=
  (candidate.readyAtMs.map fun readyAt => saturatingSub nowMs readyAt).filter
    fun waited => overdue waited agingSecs

/-- The longest overdue wait of a class in a tier. -/
def classWait (tier : List (Candidate TaskId)) (class_ : ExecutionClass) : Option Int :=
  ((tier.filter fun candidate => candidate.class_ = class_).filterMap
    (wait nowMs agingSecs)).max?

/-- The class that goes first in a tier, if one does. -/
def firstClass (tier : List (Candidate TaskId)) : Option ExecutionClass :=
  match classWait nowMs agingSecs tier .implementation, classWait nowMs agingSecs tier .spike with
  | some implementation, some spike =>
    if implementation > spike then some .implementation
    else if spike > implementation then some .spike
    else none
  | some _, none => some .implementation
  | none, some _ => some .spike
  | none, none => none

/-- A tier as the claim takes it. -/
def arrangeTier (tier : List (Candidate TaskId)) : List (Candidate TaskId) :=
  match tier.head?.bind fun head =>
      if head.priority ≠ .interrupt then firstClass nowMs agingSecs tier else none with
  | some class_ =>
    (tier.filter fun candidate => candidate.class_ = class_) ++
      tier.filter fun candidate => candidate.class_ ≠ class_
  | none => tier

/-! ### The tiers -/

variable {nowMs agingSecs}

theorem arrangeTier_perm (tier : List (Candidate TaskId)) :
    (arrangeTier nowMs agingSecs tier).Perm tier := by
  rw [arrangeTier]
  split
  · next class_ _ =>
    have opposite : (fun candidate : Candidate TaskId => decide (candidate.class_ ≠ class_)) =
        fun candidate => !decide (candidate.class_ = class_) := by
      funext candidate
      exact decide_not
    rw [opposite]
    exact List.filter_append_perm _ tier
  · exact List.Perm.refl tier

/-- Candidates of one class keep their order. -/
theorem filter_arrangeTier (tier : List (Candidate TaskId)) (class_ : ExecutionClass) :
    (arrangeTier nowMs agingSecs tier).filter (fun candidate => candidate.class_ = class_) =
      tier.filter fun candidate => candidate.class_ = class_ := by
  rw [arrangeTier]
  split
  · next first _ =>
    rw [List.filter_append, List.filter_filter, List.filter_filter]
    by_cases same : class_ = first
    · subst same
      have none_ : tier.filter (fun candidate => decide (candidate.class_ = class_) &&
          decide (candidate.class_ ≠ class_)) = [] := by
        refine List.filter_eq_nil_iff.mpr fun candidate _ => ?_
        simp
      rw [none_, List.append_nil]
      simp only [Bool.and_self]
    · have none_ : tier.filter (fun candidate => decide (candidate.class_ = class_) &&
          decide (candidate.class_ = first)) = [] := by
        refine List.filter_eq_nil_iff.mpr fun candidate _ => ?_
        simp only [Bool.and_eq_true, decide_eq_true_eq, not_and]
        exact fun isClass isFirst => same (isClass.symm.trans isFirst)
      rw [none_, List.nil_append]
      refine List.filter_congr fun candidate _ => ?_
      by_cases isClass : candidate.class_ = class_
      · simp [isClass, same]
      · simp [isClass]
  · rfl

/-- One wait is longer than another, none being the least. -/
def Exceeds : Option Int → Option Int → Prop
  | some longer, some shorter => longer > shorter
  | some _, none => True
  | none, _ => False

theorem firstClass_eq_some_iff (tier : List (Candidate TaskId)) (class_ : ExecutionClass) :
    firstClass nowMs agingSecs tier = some class_ ↔
      Exceeds (classWait nowMs agingSecs tier class_)
        (classWait nowMs agingSecs tier class_.other) := by
  rw [firstClass]
  cases class_ with
  | implementation =>
    show _ ↔ Exceeds (classWait nowMs agingSecs tier .implementation)
      (classWait nowMs agingSecs tier .spike)
    cases classWait nowMs agingSecs tier .implementation with
    | none => cases classWait nowMs agingSecs tier .spike <;> simp [Exceeds]
    | some implementation =>
      cases classWait nowMs agingSecs tier .spike with
      | none => simp [Exceeds]
      | some spike =>
        by_cases longer : implementation > spike
        · simp [Exceeds, longer]
        · by_cases shorter : spike > implementation <;> simp [Exceeds, longer, shorter]
  | spike =>
    show _ ↔ Exceeds (classWait nowMs agingSecs tier .spike)
      (classWait nowMs agingSecs tier .implementation)
    cases classWait nowMs agingSecs tier .implementation with
    | none => cases classWait nowMs agingSecs tier .spike <;> simp [Exceeds]
    | some implementation =>
      cases classWait nowMs agingSecs tier .spike with
      | none => simp [Exceeds]
      | some spike =>
        by_cases shorter : spike > implementation
        · simp [Exceeds, shorter, not_lt.mpr (le_of_lt shorter)]
        · by_cases longer : implementation > spike <;> simp [Exceeds, longer, shorter]

/-- A candidate of the class waited past the threshold, longer than all of the other class that
did. -/
def WaitedLonger (nowMs : Int) (agingSecs : Nat) (tier : List (Candidate TaskId))
    (class_ : ExecutionClass) : Prop :=
  ∃ candidate ∈ tier, candidate.class_ = class_ ∧
    ∃ waited, wait nowMs agingSecs candidate = some waited ∧
      ∀ rival ∈ tier, rival.class_ = class_.other →
        ∀ shorter, wait nowMs agingSecs rival = some shorter → shorter < waited

theorem mem_waits {tier : List (Candidate TaskId)} {class_ : ExecutionClass} {waited : Int} :
    waited ∈ ((tier.filter fun candidate => candidate.class_ = class_).filterMap
        (wait nowMs agingSecs)) ↔
      ∃ candidate ∈ tier, candidate.class_ = class_ ∧
        wait nowMs agingSecs candidate = some waited := by
  simp only [List.mem_filterMap, List.mem_filter, decide_eq_true_eq, and_assoc]

theorem exceeds_iff (tier : List (Candidate TaskId)) (class_ : ExecutionClass) :
    Exceeds (classWait nowMs agingSecs tier class_) (classWait nowMs agingSecs tier class_.other) ↔
      WaitedLonger nowMs agingSecs tier class_ := by
  constructor
  · intro exceeds
    cases longest : classWait nowMs agingSecs tier class_ with
    | none =>
      rw [longest] at exceeds
      cases exceeds
    | some waited =>
      obtain ⟨candidate, member, isClass, isWaited⟩ := mem_waits.mp (List.max?_mem longest)
      refine ⟨candidate, member, isClass, waited, isWaited, fun rival rivalIn isOther shorter
        isShorter => ?_⟩
      have listed := mem_waits.mpr ⟨rival, rivalIn, isOther, isShorter⟩
      rw [longest] at exceeds
      cases greatest : classWait nowMs agingSecs tier class_.other with
      | none =>
        rw [classWait, List.max?_eq_none_iff] at greatest
        rw [greatest] at listed
        cases listed
      | some longestOther =>
        rw [greatest] at exceeds
        exact lt_of_le_of_lt ((List.max?_eq_some_iff.mp greatest).2 shorter listed) exceeds
  · rintro ⟨candidate, member, isClass, waited, isWaited, shorterAll⟩
    have listed := mem_waits.mpr ⟨candidate, member, isClass, isWaited⟩
    cases longest : classWait nowMs agingSecs tier class_ with
    | none =>
      rw [classWait, List.max?_eq_none_iff] at longest
      rw [longest] at listed
      cases listed
    | some longestOwn =>
      cases greatest : classWait nowMs agingSecs tier class_.other with
      | none => trivial
      | some longestOther =>
        obtain ⟨rival, rivalIn, isOther, isShorter⟩ := mem_waits.mp (List.max?_mem greatest)
        show longestOther < longestOwn
        exact lt_of_lt_of_le (shorterAll rival rivalIn isOther longestOther isShorter)
          ((List.max?_eq_some_iff.mp longest).2 waited listed)

/-- In a tier of a priority but interrupt, a class that waited longer goes first. -/
theorem arrangeTier_of_longer {tier : List (Candidate TaskId)} {level : Priority}
    (isTier : ∀ candidate ∈ tier, candidate.priority = level) (notInterrupt : level ≠ .interrupt)
    {class_ : ExecutionClass} (longer : WaitedLonger nowMs agingSecs tier class_) :
    arrangeTier nowMs agingSecs tier =
      (tier.filter fun candidate => candidate.class_ = class_) ++
        tier.filter fun candidate => candidate.class_ = class_.other := by
  cases tier with
  | nil => rfl
  | cons head rest =>
    have isLevel : head.priority ≠ .interrupt := by
      rwa [isTier head List.mem_cons_self]
    rw [arrangeTier, List.head?_cons, Option.bind_some, if_pos isLevel,
      (firstClass_eq_some_iff _ class_).mpr ((exceeds_iff _ class_).mpr longer)]
    refine congrArg₂ (· ++ ·) rfl (List.filter_congr fun candidate _ => ?_)
    cases candidate.class_ <;> cases class_ <;> rfl

/-- A tier of interrupts, or in which no class waited longer, is left as it is. -/
theorem arrangeTier_eq_self {tier : List (Candidate TaskId)} {level : Priority}
    (isTier : ∀ candidate ∈ tier, candidate.priority = level)
    (stays : level = .interrupt ∨
      ∀ class_ : ExecutionClass, ¬ WaitedLonger nowMs agingSecs tier class_) :
    arrangeTier nowMs agingSecs tier = tier := by
  cases tier with
  | nil => rfl
  | cons head rest =>
    have isLevel := isTier head List.mem_cons_self
    rw [arrangeTier, List.head?_cons, Option.bind_some]
    rcases stays with isInterrupt | noneLonger
    · rw [if_neg (not_not_intro (isLevel.trans isInterrupt))]
    · have none_ : firstClass nowMs agingSecs (head :: rest) = none := by
        cases found : firstClass nowMs agingSecs (head :: rest) with
        | none => rfl
        | some class_ =>
          exact absurd ((exceeds_iff _ class_).mp
            ((firstClass_eq_some_iff _ class_).mp found)) (noneLonger class_)
      rw [none_, ite_self]

end Tier

/-! ### The arrangement -/

section Arrange

variable {TaskId : Type} [DecidableEq TaskId] (nowMs : Int) (agingSecs : Nat)

/-- The candidates whose place in the tier moved ahead. -/
def agedOf (tier arranged : List (Candidate TaskId)) : List TaskId :=
  arranged.zipIdx.filterMap fun (candidate, index) =>
    if (tier.findIdx? fun other => other.id = candidate.id).any (index < ·) then some candidate.id
    else none

/-- The order a claim takes the candidates in, the tasks aging moved ahead, and those a class limit
left out. -/
structure Arranged (TaskId : Type) where
  order : List TaskId := []
  aged : List TaskId := []
  limited : List (TaskId × String) := []

/-- One more tier. -/
def Arranged.extend (arranged : Arranged TaskId) (tier : List (Candidate TaskId)) :
    Arranged TaskId :=
  let moved := arrangeTier nowMs agingSecs tier
  { arranged with
    order := arranged.order ++ moved.map (·.id)
    aged := arranged.aged ++ agedOf tier moved }

/-- Arrange candidates in the rule's order for a claim. -/
def arrange (candidates : List (Candidate TaskId)) (excluded : List TaskId) (limits : ClassLimits) :
    Arranged TaskId :=
  let included := candidates.filter fun candidate => candidate.id ∉ excluded
  let limited := included.filterMap fun candidate =>
    (limits.limit candidate.class_).map fun reason => (candidate.id, reason)
  let kept := included.filter fun candidate => (limits.limit candidate.class_).isNone
  (tiers Candidate.priority kept).foldl (Arranged.extend nowMs agingSecs) { limited := limited }

/-! ### The candidates moved ahead -/

variable {nowMs agingSecs}

/-- The place of a task among candidates. -/
def place (tier : List (Candidate TaskId)) (id : TaskId) : Nat :=
  tier.findIdx fun candidate => candidate.id = id

/-- Candidates with ids of their own are each at one place. -/
theorem place_eq_iff {tier : List (Candidate TaskId)} (distinct : (tier.map (·.id)).Nodup)
    {candidate : Candidate TaskId} (member : candidate ∈ tier) {index : Nat} :
    tier[index]? = some candidate ↔ place tier candidate.id = index := by
  induction tier generalizing index with
  | nil => cases member
  | cons head rest inductionHypothesis =>
    rw [List.map_cons, List.nodup_cons] at distinct
    rw [place, List.findIdx_cons]
    rcases List.mem_cons.mp member with rfl | inRest
    · rw [decide_eq_true rfl, cond_true]
      cases index with
      | zero => simp
      | succ index =>
        refine iff_of_false (fun found => distinct.1 ?_) (Nat.succ_ne_zero index).symm
        exact List.mem_map.mpr ⟨candidate, List.mem_of_getElem? (by simpa using found), rfl⟩
    · have different : head.id ≠ candidate.id := fun same =>
        distinct.1 (same ▸ List.mem_map.mpr ⟨candidate, inRest, rfl⟩)
      rw [decide_eq_false different, cond_false]
      cases index with
      | zero =>
        refine iff_of_false (fun found => different ?_) (Nat.succ_ne_zero _)
        rw [List.getElem?_cons_zero] at found
        rw [Option.some.inj found]
      | succ index =>
        rw [List.getElem?_cons_succ, inductionHypothesis distinct.2 inRest, place]
        omega

theorem mem_agedOf {tier arranged : List (Candidate TaskId)} (permutes : arranged.Perm tier)
    (distinct : (tier.map (·.id)).Nodup) (id : TaskId) :
    id ∈ agedOf tier arranged ↔
      ∃ candidate ∈ tier, candidate.id = id ∧ place arranged id < place tier id := by
  have arrangedDistinct : (arranged.map (·.id)).Nodup := (permutes.map _).nodup_iff.mpr distinct
  have found : ∀ candidate ∈ tier, (tier.findIdx? fun other => other.id = candidate.id) =
      some (place tier candidate.id) := fun candidate member =>
    List.findIdx?_eq_some_of_exists ⟨candidate, member, decide_eq_true rfl⟩
  rw [agedOf, List.mem_filterMap]
  constructor
  · rintro ⟨⟨candidate, index⟩, listed, isAged⟩
    have isThere := List.mk_mem_zipIdx_iff_getElem?.mp listed
    have inArranged := List.mem_of_getElem? isThere
    have member := permutes.mem_iff.mp inArranged
    simp only [found candidate member, Option.any_some, decide_eq_true_eq] at isAged
    split at isAged
    · next earlier =>
      obtain rfl := Option.some.inj isAged
      rw [(place_eq_iff arrangedDistinct inArranged).mp isThere]
      exact ⟨candidate, member, rfl, earlier⟩
    · cases isAged
  · rintro ⟨candidate, member, rfl, earlier⟩
    have inArranged := permutes.mem_iff.mpr member
    refine ⟨(candidate, place arranged candidate.id), List.mk_mem_zipIdx_iff_getElem?.mpr
      ((place_eq_iff arrangedDistinct inArranged).mpr rfl), ?_⟩
    simp only [found candidate member, Option.any_some, decide_eq_true_eq]
    exact if_pos earlier

/-- What is aged of a tier is some of it, in the order it is taken. -/
theorem agedOf_sublist (tier arranged : List (Candidate TaskId)) :
    (agedOf tier arranged).Sublist (arranged.map (·.id)) := by
  have picked := filterMap_sublist_map (fun listed : Candidate TaskId × Nat => (ite_eq_or_eq
    ((tier.findIdx? fun other => other.id = listed.1.id).any (listed.2 < ·) = true)
    (some listed.1.id) none).symm) arranged.zipIdx
  have ids : (arranged.zipIdx.map Prod.fst).map (·.id) =
      arranged.zipIdx.map fun listed => listed.1.id := List.map_map
  rwa [← ids, List.zipIdx_map_fst] at picked

/-! ### The whole -/

theorem foldl_extend (levels : List (List (Candidate TaskId))) (arranged : Arranged TaskId) :
    levels.foldl (Arranged.extend nowMs agingSecs) arranged =
      { arranged with
        order := arranged.order ++ (levels.flatMap (arrangeTier nowMs agingSecs)).map (·.id)
        aged := arranged.aged ++
          levels.flatMap fun tier => agedOf tier (arrangeTier nowMs agingSecs tier) } := by
  induction levels generalizing arranged with
  | nil => simp
  | cons tier rest inductionHypothesis =>
    rw [List.foldl_cons, inductionHypothesis]
    simp [Arranged.extend]

/-- The candidates that are neither excluded nor of a class at its limit. -/
def keptOf (candidates : List (Candidate TaskId)) (excluded : List TaskId) (limits : ClassLimits) :
    List (Candidate TaskId) :=
  candidates.filter fun candidate => candidate.id ∉ excluded ∧ limits.limit candidate.class_ = none

theorem arrange_eq (candidates : List (Candidate TaskId)) (excluded : List TaskId)
    (limits : ClassLimits) :
    arrange nowMs agingSecs candidates excluded limits =
      { order := ((tiers Candidate.priority (keptOf candidates excluded limits)).flatMap
          (arrangeTier nowMs agingSecs)).map (·.id)
        aged := (tiers Candidate.priority (keptOf candidates excluded limits)).flatMap fun tier =>
          agedOf tier (arrangeTier nowMs agingSecs tier)
        limited := (candidates.filter fun candidate => candidate.id ∉ excluded).filterMap
          fun candidate => (limits.limit candidate.class_).map fun reason => (candidate.id, reason) } := by
  have kept : (candidates.filter fun candidate => candidate.id ∉ excluded).filter
      (fun candidate => (limits.limit candidate.class_).isNone) =
        keptOf candidates excluded limits := by
    rw [List.filter_filter, keptOf]
    refine List.filter_congr fun candidate _ => ?_
    rw [Bool.and_comm, Bool.decide_and]
    refine congrArg₂ (· && ·) rfl ?_
    cases limits.limit candidate.class_ <;> rfl
  rw [arrange, kept, foldl_extend]
  rfl

theorem agedTiers_sublist (levels : List (List (Candidate TaskId))) :
    (levels.flatMap fun tier => agedOf tier (arrangeTier nowMs agingSecs tier)).Sublist
      ((levels.flatMap (arrangeTier nowMs agingSecs)).map (·.id)) := by
  induction levels with
  | nil => exact List.Sublist.slnil
  | cons tier rest inductionHypothesis =>
    rw [List.flatMap_cons, List.flatMap_cons, List.map_append]
    exact (agedOf_sublist _ _).append inductionHypothesis

/-- Candidates in the rule's order are arranged so: the order is one of those neither excluded nor
of a class at its limit, none before one of a higher priority; the candidates of one priority and
class keep the rule's order, and so does a tier of interrupts; in every other tier a class that
waited longer past the threshold than the other goes wholly before it, and without one the tier
stays as it is. Aged are those whose place in their tier moved ahead, each once, and limited those
not excluded whose class is at its limit. -/
theorem arrange_correct (nowMs : Int) (agingSecs : Nat) (candidates : List (Candidate TaskId))
    (excluded : List TaskId) (limits : ClassLimits)
    (descending : Descending Candidate.priority candidates)
    (distinct : (candidates.map (·.id)).Nodup) :
    let result := arrange nowMs agingSecs candidates excluded limits
    let kept := keptOf candidates excluded limits
    ∃ arranged : List (Candidate TaskId), result.order = arranged.map (·.id) ∧
      arranged.Perm kept ∧ Descending Candidate.priority arranged ∧
      (∀ level class_,
        arranged.filter (fun candidate => candidate.priority = level ∧ candidate.class_ = class_) =
          kept.filter fun candidate => candidate.priority = level ∧ candidate.class_ = class_) ∧
      (∀ level, let tier := kept.filter fun candidate => candidate.priority = level
        let moved := arranged.filter fun candidate => candidate.priority = level
        (level = .interrupt → moved = tier) ∧
        (level ≠ .interrupt → ∀ class_, WaitedLonger nowMs agingSecs tier class_ →
          moved = (tier.filter fun candidate => candidate.class_ = class_) ++
            tier.filter fun candidate => candidate.class_ = class_.other) ∧
        ((∀ class_, ¬ WaitedLonger nowMs agingSecs tier class_) → moved = tier)) ∧
      (result.aged.Nodup ∧ ∀ id, id ∈ result.aged ↔ ∃ candidate ∈ kept, candidate.id = id ∧
        place (arranged.filter fun other => other.priority = candidate.priority) id <
          place (kept.filter fun other => other.priority = candidate.priority) id) ∧
      (result.limited.map Prod.fst).Nodup ∧
      ∀ id reason, (id, reason) ∈ result.limited ↔ ∃ candidate ∈ candidates, candidate.id = id ∧
        id ∉ excluded ∧ limits.limit candidate.class_ = some reason := by
  intro result kept
  have keptDescending : Descending Candidate.priority kept :=
    descending.sublist List.filter_sublist
  have keptDistinct : (kept.map (·.id)).Nodup :=
    distinct.sublist (List.filter_sublist.map _)
  have permutes : ∀ tier : List (Candidate TaskId), (arrangeTier nowMs agingSecs tier).Perm tier :=
    fun tier => arrangeTier_perm tier
  obtain ⟨permuted, orderDescending, ofLevel⟩ := flatMap_tiers permutes keptDescending
  have isResult : result = _ := arrange_eq candidates excluded limits
  have isTier : ∀ level, ∀ candidate ∈ kept.filter (fun candidate => candidate.priority = level),
      candidate.priority = level := fun level candidate member => by
    simpa using (List.mem_filter.mp member).2
  refine ⟨(tiers Candidate.priority kept).flatMap (arrangeTier nowMs agingSecs), by rw [isResult],
    permuted, orderDescending, fun level class_ => ?_, fun level => ⟨?_, ?_, ?_⟩, ⟨?_, fun id => ?_⟩,
    ?_, fun id reason => ?_⟩
  · have both : ∀ listed : List (Candidate TaskId), listed.filter (fun candidate =>
        decide (candidate.priority = level ∧ candidate.class_ = class_)) =
          (listed.filter fun candidate => candidate.priority = level).filter
            fun candidate => candidate.class_ = class_ := by
      intro listed
      rw [List.filter_filter]
      refine List.filter_congr fun candidate _ => ?_
      rw [Bool.decide_and, Bool.and_comm]
    rw [both, both, ofLevel, filter_arrangeTier]
  · intro isInterrupt
    rw [ofLevel]
    exact arrangeTier_eq_self (isTier level) (Or.inl isInterrupt)
  · intro notInterrupt class_ longer
    rw [ofLevel]
    exact arrangeTier_of_longer (isTier level) notInterrupt longer
  · intro noneLonger
    rw [ofLevel]
    exact arrangeTier_eq_self (isTier level) (Or.inr noneLonger)
  · rw [isResult]
    refine List.Nodup.sublist (agedTiers_sublist _) ?_
    exact (permuted.map _).nodup_iff.mpr keptDistinct
  · rw [isResult]
    refine Iff.trans (mem_flatMap_tiers keptDescending
      (fun tier => agedOf tier (arrangeTier nowMs agingSecs tier)) rfl id) ?_
    have ofTier : ∀ level, id ∈ agedOf (kept.filter fun candidate => candidate.priority = level)
        (arrangeTier nowMs agingSecs (kept.filter fun candidate => candidate.priority = level)) ↔
        ∃ candidate ∈ kept.filter (fun candidate => candidate.priority = level),
          candidate.id = id ∧ place (((tiers Candidate.priority kept).flatMap
            (arrangeTier nowMs agingSecs)).filter fun other => other.priority = level) id <
              place (kept.filter fun other => other.priority = level) id := by
      intro level
      rw [ofLevel]
      exact mem_agedOf (arrangeTier_perm _)
        (keptDistinct.sublist (List.filter_sublist.map _)) id
    constructor
    · rintro ⟨level, isAged⟩
      obtain ⟨candidate, member, isId, ahead⟩ := (ofTier level).mp isAged
      obtain rfl := isTier level candidate member
      exact ⟨candidate, (List.mem_filter.mp member).1, isId, ahead⟩
    · rintro ⟨candidate, member, isId, ahead⟩
      exact ⟨candidate.priority, (ofTier _).mpr ⟨candidate,
        List.mem_filter.mpr ⟨member, decide_eq_true rfl⟩, isId, ahead⟩⟩
  · rw [isResult]
    have named := filterMap_sublist_map (fun candidate : Candidate TaskId => by
      show ((limits.limit candidate.class_).map fun reason => (candidate.id, reason)).map
        Prod.fst = none ∨ _ = some candidate.id
      cases limits.limit candidate.class_ with
      | none => exact Or.inl rfl
      | some reason => exact Or.inr rfl)
      (candidates.filter fun candidate => candidate.id ∉ excluded)
    rw [List.map_filterMap]
    exact distinct.sublist (named.trans (List.filter_sublist.map _))
  · rw [isResult, List.mem_filterMap]
    simp only [List.mem_filter, decide_eq_true_eq, Option.map_eq_some_iff, Prod.mk.injEq]
    constructor
    · rintro ⟨candidate, ⟨member, notExcluded⟩, why, isWhy, rfl, rfl⟩
      exact ⟨candidate, member, rfl, notExcluded, isWhy⟩
    · rintro ⟨candidate, member, rfl, notExcluded, isWhy⟩
      exact ⟨candidate, ⟨member, notExcluded⟩, reason, isWhy, rfl, rfl⟩

end Arrange

/-! ### A Spike that waited longest -/

/-- An urgent implementation, then a normal one, and a normal Spike that waits two hours more. -/
def threeTasks : List (Candidate Nat) :=
  [⟨1, .implementation, .urgent, none⟩, ⟨2, .implementation, .normal, some 9000000⟩,
    ⟨3, .spike, .normal, some 1800000⟩]

/-- The Spike goes before the normal implementation and not before the urgent one. -/
theorem arrange_correct_threeTasks :
    (arrange 10000000 3600 threeTasks [] {}).order = [1, 3, 2] ∧
      (arrange 10000000 3600 threeTasks [] {}).aged = [3] ∧
      ∃ arranged : List (Candidate Nat),
        (arrange 10000000 3600 threeTasks [] {}).order = arranged.map (·.id) ∧
          arranged.Perm (keptOf threeTasks [] {}) := by
  have kept : keptOf threeTasks [] {} = threeTasks := rfl
  have descending : Descending Candidate.priority threeTasks := by
    simp only [Descending, threeTasks, List.pairwise_cons]
    decide
  have cut : tiers Candidate.priority threeTasks = [[⟨1, .implementation, .urgent, none⟩],
      [⟨2, .implementation, .normal, some 9000000⟩, ⟨3, .spike, .normal, some 1800000⟩]] := by
    simp [threeTasks, tiers]
  obtain ⟨arranged, isOrder, permuted, _⟩ :=
    arrange_correct 10000000 3600 threeTasks [] {} descending (by decide)
  refine ⟨?_, ?_, arranged, isOrder, permuted⟩
  · rw [arrange_eq, kept, cut]
    decide
  · rw [arrange_eq, kept, cut]
    decide

end Dagq.Claim
