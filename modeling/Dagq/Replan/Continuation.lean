/-
This file models the two decisions on a continuation that read the records of
its run only: whether its work is restored for it, and whether a resume is its
first one. Each is told by the latest record of its kind, so each is stated here
over what stands after that record.
-/

import Dagq.Replan.Places

namespace Dagq.Replan

/-- What a decision reads of the record of a restore, or of one that failed. -/
structure RestoreRecord where
  operationId : Nat
  /-- The generation it was restored at; none in a record that does not name it. -/
  generation : Option Int := none
  deriving DecidableEq, Repr

inductive ContinuationRecord where
  | moved (moved : ReplanMoved)
  | restored (restored : RestoreRecord)
  | restoreFailed (failed : RestoreRecord)
  | resumeStarted
  | resumeFinished
  deriving DecidableEq, Repr

/-- What a record says of the restore of an operation. -/
def restoreResult (op : ReplanOperation) : ContinuationRecord → Option Bool
  | .restored restored =>
    if restored.operationId = op.id then
      some (restored.generation.all fun generation => generation = op.generation)
    else none
  | .restoreFailed failed => if failed.operationId = op.id then some false else none
  | _ => none

/-- Whether the work of the operation is restored for the continuation it is in now: its latest
restore result is a success, at the generation it is at. -/
def restoredNow (op : ReplanOperation) (records : List ContinuationRecord) : Bool :=
  (records.reverse.findSome? (restoreResult op)).getD false

/-- Whether a record moved the operation to where it is. -/
def movedHere (op : ReplanOperation) : ContinuationRecord → Bool
  | .moved moved =>
    moved.operationId = op.id && moved.target = op.status && moved.generation = op.generation
  | _ => false

/-- Whether no resume that starts in the records finishes in them, `started` when one was. -/
def noneFinished (started : Bool) : List ContinuationRecord → Bool
  | [] => true
  | .resumeStarted :: rest => noneFinished true rest
  | .resumeFinished :: rest => if started then false else noneFinished started rest
  | _ :: rest => noneFinished started rest

/-- Whether a resume is the first of the continuation the operation is in now: none that started
since it moved there has finished. -/
def firstResumeOfContinuation (op : ReplanOperation) (records : List ContinuationRecord) : Bool :=
  let since := match records.reverse.findIdx? (movedHere op) with
    | some fromEnd => records.length - fromEnd
    | none => 0
  noneFinished false (records.drop since)

/-! ### What decides -/

/-- The latest restore result, if there is one. -/
theorem latestResult (op : ReplanOperation) (records : List ContinuationRecord) :
    (restoredNow op records = false ∧ ∀ record ∈ records, restoreResult op record = none) ∨
      ∃ earlier record later, records = earlier ++ record :: later ∧
        restoreResult op record = some (restoredNow op records) ∧
        ∀ other ∈ later, restoreResult op other = none := by
  unfold restoredNow
  cases found : records.reverse.findSome? (restoreResult op) with
  | none =>
    refine Or.inl ⟨rfl, fun record member => ?_⟩
    exact List.findSome?_eq_none_iff.mp found record (List.mem_reverse.mpr member)
  | some result =>
    obtain ⟨later, record, earlier, split, isResult, others⟩ :=
      List.findSome?_eq_some_iff.mp found
    refine Or.inr ⟨earlier.reverse, record, later.reverse, ?_, isResult, fun other member =>
      others other (List.mem_reverse.mp member)⟩
    rw [← List.reverse_reverse records, split, List.reverse_append, List.reverse_cons,
      List.append_assoc]
    rfl

/-- A resume finishes after a start, here or before. -/
theorem noneFinished_eq_false {records : List ContinuationRecord} :
    ∀ {started : Bool}, noneFinished started records = false ↔
      ∃ earlier later, records = earlier ++ .resumeFinished :: later ∧
        (started = true ∨ .resumeStarted ∈ earlier) := by
  induction records with
  | nil =>
    intro started
    refine ⟨fun never => Bool.noConfusion never, ?_⟩
    rintro ⟨earlier, later, split, _⟩
    exact absurd (congrArg List.length split) (by simp)
  | cons record rest inductionHypothesis =>
    intro started
    -- a finish further on keeps what is known of the starts before it
    have further : ∀ {since : Bool}, (since = true ↔ started = true ∨ record = .resumeStarted) →
        (record ≠ .resumeFinished ∨ started = false) →
        (noneFinished since rest = false ↔ ∃ earlier later,
          record :: rest = earlier ++ .resumeFinished :: later ∧
            (started = true ∨ .resumeStarted ∈ earlier)) := by
      intro since isSince passes
      rw [inductionHypothesis]
      constructor
      · rintro ⟨earlier, later, rfl, known⟩
        refine ⟨record :: earlier, later, rfl, ?_⟩
        rcases known with known | inside
        · rcases isSince.mp known with begun | isStart
          · exact Or.inl begun
          · exact Or.inr (isStart ▸ List.mem_cons_self)
        · exact Or.inr (List.mem_cons_of_mem _ inside)
      · rintro ⟨earlier, later, split, known⟩
        rcases List.cons_eq_append_iff.mp split with ⟨rfl, here⟩ | ⟨more, rfl, rest⟩
        · rcases passes with other | none
          · exact absurd (List.cons.inj here).1.symm other
          · rcases known with begun | inside
            · rw [none] at begun
              cases begun
            · cases inside
        · refine ⟨more, later, rest, ?_⟩
          rcases known with begun | inside
          · exact Or.inl (isSince.mpr (Or.inl begun))
          · rcases List.mem_cons.mp inside with isStart | inside
            · exact Or.inl (isSince.mpr (Or.inr isStart.symm))
            · exact Or.inr inside
    cases record with
    | resumeStarted => exact further (by simp) (Or.inl (by simp))
    | resumeFinished =>
      cases started with
      | true => exact ⟨fun _ => ⟨[], rest, rfl, Or.inl rfl⟩, fun _ => rfl⟩
      | false => exact further (by simp) (Or.inr rfl)
    | moved => exact further (by simp) (Or.inl (by simp))
    | restored => exact further (by simp) (Or.inl (by simp))
    | restoreFailed => exact further (by simp) (Or.inl (by simp))

/-- The decision on a first resume reads what is recorded after the last move to where the
operation is. -/
theorem firstResume_since {op : ReplanOperation} {earlier later : List ContinuationRecord}
    {record : ContinuationRecord} (isMove : movedHere op record = true)
    (last : ∀ other ∈ later, movedHere op other = false) :
    firstResumeOfContinuation op (earlier ++ record :: later) = noneFinished false later := by
  have found : (earlier ++ record :: later).reverse.findIdx? (movedHere op) =
      some later.length := by
    rw [List.reverse_append, List.reverse_cons, List.append_assoc, List.findIdx?_append]
    have before : later.reverse.findIdx? (movedHere op) = none :=
      List.findIdx?_eq_none_iff.mpr fun other member =>
        last other (List.mem_reverse.mp member)
    rw [before]
    show ((record :: earlier.reverse).findIdx? (movedHere op)).map
      (fun index => index + later.reverse.length) = some later.length
    rw [List.findIdx?_cons, if_pos isMove]
    simp
  unfold firstResumeOfContinuation
  rw [found]
  have length : (earlier ++ record :: later).length - later.length = (earlier ++ [record]).length := by
    simp only [List.length_append, List.length_cons, List.length_nil]
    omega
  have split : earlier ++ record :: later = (earlier ++ [record]) ++ later := by simp
  show noneFinished false ((earlier ++ record :: later).drop
    ((earlier ++ record :: later).length - later.length)) = _
  rw [length, split, List.drop_left]

end Dagq.Replan
