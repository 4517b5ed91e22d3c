/-
This file puts each `update_started` behind the steps its job wrote before it. The
supervisor records the start once it spawned the job, so a job that ends at once can
write its end first. The events come newest first, and the starts are taken oldest
first: one put behind its steps is not passed again by a newer one, since a start is
never moved past a start or an answer. What the loop over the shifting list does is
said once by recursion from its older end, and each start there is one move back.
-/

import Mathlib.Data.List.TakeWhile
import Dagq.Lib.Drift

namespace Dagq.Updates

open Dagq.Lib

/-- The kinds of the automatic update's events. -/
inductive UpdateKind where
  | started
  | built
  | e2ePassed
  | installed
  | failed
  | restored
  | awaitingApproval
  | answered
  | retry
  | dropped
  /-- A kind this program does not know. -/
  | other (name : String)
  deriving DecidableEq, Repr

/-- An event of the automatic update, with the fields of its payload that name its job: each is
any value or absent. -/
structure UpdateEvent (Field : Type) where
  id : Int
  kind : UpdateKind
  pid : Option Field
  commit : Option Field
  release : Option Field
  deriving DecidableEq, Repr

variable {Field : Type} [DecidableEq Field]

/-- The job an update is of. -/
def job (update : UpdateEvent Field) : Option Field × Option Field × Option Field :=
  (update.pid, update.commit, update.release)

def isStarted (update : UpdateEvent Field) : Bool := update.kind == .started

/-- Whether an update is a start or an answer. -/
def endsSearch (update : UpdateEvent Field) : Bool :=
  update.kind == .started || update.kind == .retry || update.kind == .answered ||
    update.kind == .dropped

/-- The last position that satisfies the test. -/
def rposition {Item : Type} (test : Item → Bool) : List Item → Option Nat
  | [] => none
  | item :: rest =>
    match rposition test rest with
    | some at_ => some (at_ + 1)
    | none => if test item then some 0 else none

/-- One round of the loop: the update at the index is put behind the oldest step of its job before
the next start or answer. -/
def putBehind (updates : List (UpdateEvent Field)) (index : Nat) : List (UpdateEvent Field) :=
  match updates[index]? with
  | none => updates
  | some step =>
    if step.kind ≠ .started then updates
    else if step.pid = none then updates
    else
      let before := updates.drop (index + 1)
      let since := before.findIdx endsSearch
      match rposition (fun update => job update == job step) (before.take since) with
      | none => updates
      | some first => (updates.eraseIdx index).insertIdx (index + first + 1) step

/-- The updates, newest first, with each start behind the steps of its job: the indices are taken
from the oldest. -/
def inJobOrder (updates : List (UpdateEvent Field)) : List (UpdateEvent Field) :=
  (List.range updates.length).reverse.foldl putBehind updates

/-! ### The loop from its older end -/

theorem putBehind_cons (update : UpdateEvent Field) (updates : List (UpdateEvent Field))
    (index : Nat) : putBehind (update :: updates) (index + 1) = update :: putBehind updates index := by
  unfold putBehind
  rw [List.getElem?_cons_succ]
  cases found : updates[index]? with
  | none => rfl
  | some step =>
    simp only [List.drop_succ_cons]
    split
    · rfl
    · split
      · rfl
      · split
        · rfl
        · rename_i first _
          rw [List.eraseIdx_cons_succ, show index + 1 + first + 1 = index + first + 1 + 1 by omega,
            List.insertIdx_succ_cons]

theorem foldl_putBehind_cons (update : UpdateEvent Field) (indices : List Nat)
    (updates : List (UpdateEvent Field)) :
    (indices.map Nat.succ).foldl putBehind (update :: updates) =
      update :: indices.foldl putBehind updates := by
  induction indices generalizing updates with
  | nil => rfl
  | cons index rest inductionHypothesis =>
    rw [List.map_cons, List.foldl_cons, Nat.succ_eq_add_one, putBehind_cons, inductionHypothesis,
      List.foldl_cons]

/-- The older events are put in order first, then the newest is put behind its steps. -/
theorem inJobOrder_cons (update : UpdateEvent Field) (updates : List (UpdateEvent Field)) :
    inJobOrder (update :: updates) = putBehind (update :: inJobOrder updates) 0 := by
  unfold inJobOrder
  rw [List.length_cons, List.range_succ_eq_map, List.reverse_cons, List.foldl_append,
    ← List.map_reverse, foldl_putBehind_cons]
  rfl

/-! ### One move -/

theorem rposition_eq_none_iff {Item : Type} {test : Item → Bool} {items : List Item} :
    rposition test items = none ↔ ∀ item ∈ items, test item = false := by
  induction items with
  | nil => simp [rposition]
  | cons item rest inductionHypothesis =>
    rw [rposition, List.forall_mem_cons, ← inductionHypothesis]
    cases rposition test rest <;> simp

/-- Nothing after the last position satisfies the test. -/
theorem rposition_eq_some {Item : Type} {test : Item → Bool} {items : List Item} {last : Nat}
    (found : rposition test items = some last) :
    last < items.length ∧ ∀ item ∈ items.drop (last + 1), test item = false := by
  induction items generalizing last with
  | nil => cases found
  | cons item rest inductionHypothesis =>
    rw [rposition] at found
    cases later : rposition test rest with
    | some position =>
      rw [later] at found
      obtain rfl := Option.some.inj found
      simpa using inductionHypothesis later
    | none =>
      simp only [later, Option.ite_none_right_eq_some, Option.some.injEq] at found
      obtain ⟨_, rfl⟩ := found
      simpa using rposition_eq_none_iff.mp later

/-- What is between a start and the next older start or answer. -/
def stretchOf (updates : List (UpdateEvent Field)) : List (UpdateEvent Field) :=
  updates.takeWhile fun update => !endsSearch update

section

omit [DecidableEq Field]

theorem take_findIdx (updates : List (UpdateEvent Field)) :
    updates.take (updates.findIdx endsSearch) = stretchOf updates := by
  rw [stretchOf, List.takeWhile_eq_take_findIdx_not]
  simp

theorem stretchOf_free {updates : List (UpdateEvent Field)} :
    ∀ update ∈ stretchOf updates, endsSearch update = false :=
  fun update among => by simpa using List.mem_takeWhile_imp among

theorem stretchOf_rest (updates : List (UpdateEvent Field)) :
    stretchOf updates ++ updates.dropWhile (fun update => !endsSearch update) = updates :=
  List.takeWhile_append_dropWhile

/-- The stretch ends where a start or an answer comes, or nothing does. -/
theorem stretchOf_append {stretch : List (UpdateEvent Field)} (updates : List (UpdateEvent Field))
    (isFree : ∀ update ∈ stretch, endsSearch update = false) :
    stretchOf (stretch ++ updates.dropWhile fun update => !endsSearch update) = stretch := by
  rw [stretchOf, List.takeWhile_append_of_pos (by simpa using isFree)]
  cases rest : updates.dropWhile fun update => !endsSearch update with
  | nil => simp
  | cons first others =>
    have ends := List.head_dropWhile_not (fun update => !endsSearch update) (l := updates)
      (by simp [rest])
    simp only [rest, List.head_cons] at ends
    simp [ends]

end

theorem insertIdx_length {Item : Type} (passed rest : List Item) (item : Item) :
    (passed ++ rest).insertIdx passed.length item = passed ++ item :: rest := by
  induction passed with
  | nil => simp
  | cons first others inductionHypothesis => simp [inductionHypothesis]

/-- Whether an update names a job that it started. -/
def startsJob (update : UpdateEvent Field) : Bool := isStarted update && update.pid.isSome

theorem putBehind_other {update : UpdateEvent Field} (updates : List (UpdateEvent Field))
    (other : startsJob update = false) : putBehind (update :: updates) 0 = update :: updates := by
  simp only [putBehind, List.getElem?_cons_zero]
  split
  · rfl
  · next isStart =>
    rw [if_pos]
    simpa [startsJob, isStarted, not_not.mp isStart] using other

/-- A start is put behind part of the stretch after it, with a step of its job in that part, and no
step of its job is left in the rest. -/
theorem putBehind_start {start : UpdateEvent Field} (updates : List (UpdateEvent Field))
    (starts : startsJob start = true) :
    ∃ passed left, stretchOf updates = passed ++ left ∧
      (passed = [] ∨ ∃ update ∈ stretchOf updates, job update = job start) ∧
      (∀ update ∈ left, job update ≠ job start) ∧
      putBehind (start :: updates) 0 =
        passed ++ start :: (left ++ updates.dropWhile fun update => !endsSearch update) := by
  obtain ⟨isStart, hasPid⟩ := Bool.and_eq_true_iff.mp starts
  have kind : ¬start.kind ≠ .started := by simpa [isStarted] using isStart
  have pid : ¬start.pid = none := Option.isSome_iff_ne_none.mp hasPid
  simp only [putBehind, List.getElem?_cons_zero, if_neg kind, if_neg pid, Nat.zero_add,
    List.drop_succ_cons, List.drop_zero, take_findIdx]
  split
  · next missing =>
    refine ⟨[], stretchOf updates, rfl, Or.inl rfl, fun update member => ?_, ?_⟩
    · simpa using rposition_eq_none_iff.mp missing update member
    · rw [List.nil_append, stretchOf_rest]
  · next last found =>
    obtain ⟨inside, none_⟩ := rposition_eq_some found
    have taken : ∃ update ∈ stretchOf updates, job update = job start := by
      by_contra missing
      push Not at missing
      rw [rposition_eq_none_iff.mpr (by simpa using missing)] at found
      cases found
    refine ⟨(stretchOf updates).take (last + 1), (stretchOf updates).drop (last + 1),
      (List.take_append_drop _ _).symm, Or.inr taken,
      fun update member => by simpa using none_ update member, ?_⟩
    have atPassed : ((stretchOf updates).take (last + 1)).length = last + 1 := by
      rw [List.length_take]
      omega
    have cut : (stretchOf updates).take (last + 1) ++ ((stretchOf updates).drop (last + 1) ++
        updates.dropWhile fun update => !endsSearch update) = updates := by
      rw [← List.append_assoc, List.take_append_drop, stretchOf_rest]
    have inserted := insertIdx_length ((stretchOf updates).take (last + 1))
      ((stretchOf updates).drop (last + 1) ++
        updates.dropWhile fun update => !endsSearch update) start
    rw [cut, atPassed] at inserted
    rw [List.eraseIdx_cons_zero, inserted]

theorem putBehind_drifts (update : UpdateEvent Field) (updates : List (UpdateEvent Field)) :
    Drifts isStarted endsSearch (update :: updates) (putBehind (update :: updates) 0) := by
  cases starts : startsJob update with
  | false =>
    rw [putBehind_other updates starts]
    exact .refl
  | true =>
    obtain ⟨passed, left, isStretch, _, _, isPut⟩ := putBehind_start updates starts
    have cut : updates = passed ++ (left ++ updates.dropWhile fun update => !endsSearch update) := by
      rw [← List.append_assoc, ← isStretch, stretchOf_rest]
    rw [isPut]
    conv_lhs => rw [cut]
    refine .single (.past [] update passed _ (Bool.and_eq_true_iff.mp starts).1 fun other among => ?_)
    exact stretchOf_free other (isStretch ▸ List.mem_append_left _ among)

/-! ### Starts behind their steps -/

/-- No step of a start's own job is between the start and the next older start or answer. -/
def Settled (updates : List (UpdateEvent Field)) : Prop :=
  ∀ newer start stretch older, updates = newer ++ start :: (stretch ++ older) →
    startsJob start = true → (∀ update ∈ stretch, endsSearch update = false) →
      ∀ step ∈ stretch, job step ≠ job start

section

omit [DecidableEq Field]

theorem settled_cons_iff {update : UpdateEvent Field} {updates : List (UpdateEvent Field)} :
    Settled (update :: updates) ↔
      (startsJob update = true → ∀ step ∈ stretchOf updates, job step ≠ job update) ∧
        Settled updates := by
  constructor
  · intro settled
    refine ⟨fun starts => settled [] update (stretchOf updates)
      (updates.dropWhile fun update => !endsSearch update) ?_ starts ?_, ?_⟩
    · rw [List.nil_append, stretchOf_rest]
    · exact stretchOf_free
    · intro newer start stretch older isCut
      exact settled (update :: newer) start stretch older (by rw [isCut, List.cons_append])
  · rintro ⟨own, settled⟩ newer start stretch older isCut starts isFree step member
    cases newer with
    | nil =>
      obtain ⟨rfl, rfl⟩ := List.cons.inj isCut
      refine own starts step ?_
      rw [stretchOf, List.takeWhile_append_of_pos (by simpa using isFree)]
      exact List.mem_append_left _ member
    | cons first rest =>
      obtain ⟨rfl, isRest⟩ := List.cons.inj isCut
      exact settled rest start stretch older isRest starts isFree step member

theorem settled_append {passed rest : List (UpdateEvent Field)}
    (isFree : ∀ update ∈ passed, startsJob update = false) :
    Settled (passed ++ rest) ↔ Settled rest := by
  induction passed with
  | nil => exact Iff.rfl
  | cons update others inductionHypothesis =>
    obtain ⟨notStart, othersFree⟩ := List.forall_mem_cons.mp isFree
    rw [List.cons_append, settled_cons_iff, inductionHypothesis othersFree, notStart]
    simp

end

theorem settled_putBehind (update : UpdateEvent Field) {updates : List (UpdateEvent Field)}
    (settled : Settled updates) : Settled (putBehind (update :: updates) 0) := by
  cases starts : startsJob update with
  | false =>
    rw [putBehind_other updates starts, settled_cons_iff]
    exact ⟨fun isStart => absurd isStart (by simp [starts]), settled⟩
  | true =>
    obtain ⟨passed, left, isStretch, _, none_, isPut⟩ := putBehind_start updates starts
    have free : ∀ other ∈ passed ++ left, endsSearch other = false :=
      isStretch ▸ stretchOf_free
    have passedFree : ∀ other ∈ passed, startsJob other = false := by
      intro other among
      have noEnd := free other (List.mem_append_left _ among)
      simp only [endsSearch, Bool.or_eq_false_iff] at noEnd
      simp [startsJob, isStarted, noEnd]
    have rest : Settled (left ++ updates.dropWhile fun update => !endsSearch update) := by
      rw [← settled_append passedFree, ← List.append_assoc, ← isStretch, stretchOf_rest]
      exact settled
    rw [isPut, settled_append passedFree, settled_cons_iff]
    rw [stretchOf_append updates fun other among => free other (List.mem_append_right _ among)]
    exact ⟨fun _ => none_, rest⟩

theorem settled_inJobOrder (updates : List (UpdateEvent Field)) : Settled (inJobOrder updates) := by
  induction updates with
  | nil => exact fun newer start stretch older isCut => by simp [inJobOrder] at isCut
  | cons update rest inductionHypothesis =>
    rw [inJobOrder_cons]
    exact settled_putBehind update inductionHypothesis

/-- Starts that are behind their steps stay where they are. -/
theorem inJobOrder_of_settled {updates : List (UpdateEvent Field)} (settled : Settled updates) :
    inJobOrder updates = updates := by
  induction updates with
  | nil => rfl
  | cons update rest inductionHypothesis =>
    obtain ⟨own, restSettled⟩ := settled_cons_iff.mp settled
    rw [inJobOrder_cons, inductionHypothesis restSettled]
    cases starts : startsJob update with
    | false => exact putBehind_other rest starts
    | true =>
      obtain ⟨passed, left, isStretch, isOwn, _, isPut⟩ := putBehind_start rest starts
      have none_ : passed = [] := by
        refine isOwn.resolve_right ?_
        rintro ⟨step, among, isStep⟩
        exact own starts step among isStep
      have isLeft : left = stretchOf rest := by rw [isStretch, none_, List.nil_append]
      rw [isPut, none_, List.nil_append, isLeft, stretchOf_rest]

/-! ### The order -/

theorem inJobOrder_drifts (updates : List (UpdateEvent Field)) :
    Drifts isStarted endsSearch updates (inJobOrder updates) := by
  induction updates with
  | nil => exact .refl
  | cons update rest inductionHypothesis =>
    rw [inJobOrder_cons]
    exact (inductionHypothesis.cons update).trans (putBehind_drifts update _)

/-- Putting updates in the order of their jobs loses none and keeps the order of all that are no
starts. Starts and answers keep their order too, so no start passes another or an answer; the starts
are at their places or older ones; no step of a start's own job is left between the start and the
next older start or answer; and to do it again changes nothing. -/
theorem inJobOrder_correct (updates : List (UpdateEvent Field)) :
    (inJobOrder updates).Perm updates ∧
      ((inJobOrder updates).filter fun update => !isStarted update) =
        updates.filter (fun update => !isStarted update) ∧
      (inJobOrder updates).filter endsSearch = updates.filter endsSearch ∧
      List.Forall₂ (· ≤ ·) (placesOf isStarted updates)
        (placesOf isStarted (inJobOrder updates)) ∧
      (∀ newer start stretch older, inJobOrder updates = newer ++ start :: (stretch ++ older) →
        startsJob start = true → (∀ update ∈ stretch, endsSearch update = false) →
          ∀ step ∈ stretch, job step ≠ job start) ∧
      inJobOrder (inJobOrder updates) = inJobOrder updates := by
  have drifts := inJobOrder_drifts updates
  have startsEnd : ∀ update : UpdateEvent Field, isStarted update = true →
      endsSearch update = true := by
    intro update isStart
    simp only [isStarted] at isStart
    simp [endsSearch, isStart]
  refine ⟨drifts.perm, drifts.filter_others, drifts.filter_blocks fun _ => id,
    drifts.places_le startsEnd, settled_inJobOrder updates, ?_⟩
  exact inJobOrder_of_settled (settled_inJobOrder updates)

end Dagq.Updates
