/-
This file shows that the restore is safe over every order of the parties' steps:
a clone is filled only when it was made for that very attempt and is still at the
base, the answer to another attempt is never recorded, and a clone answered to be
restored is not filled or refused again in the same attempt.

The keys of the files only move on: each is that of the attempt under way or of
one that passed, and what passed never comes back.
-/

import Dagq.Clone.Protocol

namespace Dagq.Clone

open Dagq.Ledger Dagq.Lib

namespace System

/-! ### Attempts that passed -/

/-- An attempt of an earlier snapshot, or an earlier one of this snapshot. -/
def Passed (system : System) (key : Key) : Prop :=
  (key.1 ∈ system.past ∧ key.1 ≠ system.saved.id) ∨
    (key.1 = system.saved.id ∧ key.2 < system.attempt)

/-- The attempt under way or one that passed. -/
def Behind (system : System) (key : Key) : Prop := key = system.current ∨ system.Passed key

/-- What passed in one state passed in the other, and what was under way does not come later. -/
structure MovesOn (system after : System) : Prop where
  passed : ∀ key, system.Passed key → after.Passed key
  current : after.Behind system.current

variable {system after : System}

theorem not_passed_current (system : System) : ¬system.Passed system.current := by
  rintro (⟨_, other⟩ | ⟨_, less⟩)
  · exact other rfl
  · exact lt_irrefl _ less

theorem MovesOn.behind (moves : MovesOn system after) {key : Key} (behind : system.Behind key) :
    after.Behind key := by
  rcases behind with isCurrent | passed
  · rw [isCurrent]
    exact moves.current
  · exact Or.inr (moves.passed key passed)

theorem failed_recordFailure (system : System) (why : String) :
    (system.recordFailure why).failed = system.failed + 1 := by
  have own : ((system.failurePayload why).get "operation_id").bind Value.asI64 =
      some system.saved.operation := system.saved.fits
  have named : ((system.failurePayload why).get "snapshot_id").bind Value.asStr =
      some system.saved.id := rfl
  show failuresOf (system.failures ++ [system.failurePayload why]) system.saved.operation
    system.saved.id = _
  unfold failuresOf
  rw [List.filter_append, List.length_append, List.filter_cons_of_pos]
  · rfl
  · simp [own, named]

theorem movesOn_recordFailure (system : System) (why : String) :
    MovesOn system (system.recordFailure why) := by
  have order : system.attempt ≤ (system.recordFailure why).attempt := by
    show attemptAfter system.failed ≤ attemptAfter (system.recordFailure why).failed
    rw [failed_recordFailure]
    exact attemptAfter_mono (Nat.le_succ _)
  constructor
  · rintro key (earlier | ⟨own, less⟩)
    · exact Or.inl earlier
    · exact Or.inr ⟨own, less.trans_le order⟩
  · rcases order.lt_or_eq with less | same
    · exact Or.inr (Or.inr ⟨rfl, less⟩)
    · exact Or.inl (Prod.ext rfl same)

/-- Parked again, every attempt so far passed. -/
theorem movesOn_park (system : System) (saved : Saved)
    (named : saved.id ∉ system.saved.id :: system.past) :
    MovesOn system { system with saved := saved, past := system.saved.id :: system.past } := by
  have apart : system.saved.id ≠ saved.id := fun same => named (same ▸ List.mem_cons_self ..)
  constructor
  · rintro key (⟨earlier, _⟩ | ⟨own, _⟩)
    · exact Or.inl ⟨List.mem_cons_of_mem _ earlier,
        fun same => named (List.mem_cons_of_mem _ (same ▸ earlier))⟩
    · exact Or.inl ⟨own ▸ List.mem_cons_self .., fun same => apart (own.symm.trans same)⟩
  · exact Or.inr (Or.inl ⟨List.mem_cons_self .., apart⟩)

theorem Behind.named {key : Key} (behind : system.Behind key) :
    key.1 ∈ system.saved.id :: system.past := by
  rcases behind with rfl | ⟨earlier, _⟩ | ⟨own, _⟩
  · exact List.mem_cons_self ..
  · exact List.mem_cons_of_mem _ earlier
  · exact own ▸ List.mem_cons_self ..

/-! ### The invariant -/

/-- The request in the run directory, when it reads back. -/
def Asks (system : System) (request : RestoreRequest) : Prop :=
  system.request = some (some request)

/-- A clone said to be made again was made for the very attempt. -/
def MadeFor (system : System) (request : RestoreRequest) : Prop :=
  request.remade = true → ∀ clone, system.clone = some clone → clone.madeFor = some request.key

/-- An attempt is of as many failures as its number says. -/
def Numbered (system : System) (key : Key) (handedAt : Nat) : Prop :=
  key.1 = system.saved.id → key.2 = attemptAfter handedAt ∧ handedAt ≤ system.failed

/-- The answer in the run directory says that the attempt was done. -/
def AnsweredDone (system : System) (key : Key) : Prop :=
  ∃ answer, system.answer = some answer ∧ answer.key = key ∧ answer.restored = true

/-- The request is not of the attempt, and never will be. -/
def Over (system : System) (key : Key) : Prop :=
  system.Passed key ∧ ∀ request, system.Asks request → request.key ≠ key

/-- What holds of a clone answered to be restored at an attempt. -/
structure Restored (system : System) (key : Key) : Prop where
  behind : system.Behind key
  asked : ∀ request, system.Asks request → request.key = key ∨ system.Passed key
  answered : system.AnsweredDone key ∨ system.Over key
  answering : ∀ result handedAt, system.executor = .answering result handedAt → system.Over key

/-- What every reachable state has. -/
structure Kept (system : System) : Prop where
  handing : ∀ request remake, system.control = .handing request remake →
    request.key = system.current ∧ (remake = true → system.clone = none) ∧ system.MadeFor request
  making : ∀ request, system.control = .making request →
    system.clone = none ∧ ∀ asked, system.Asks asked → asked.key = request.key
  asked : ∀ request, system.Asks request →
    system.Behind request.key ∧ system.MadeFor request ∧
      system.Numbered request.key system.handedAt
  answering : ∀ result handedAt, system.executor = .answering result handedAt →
    system.Behind result.key ∧ system.Numbered result.key handedAt ∧
      ∀ request, system.Asks request → request.key = result.key ∨ system.Passed result.key
  answered : ∀ answer, system.answer = some answer →
    system.Behind answer.key ∧ system.Numbered answer.key system.answeredAt
  restored : ∀ clone, system.clone = some clone → ∀ key, clone.restoredFor = some key →
    system.Restored key

theorem kept_parked (saved : Saved) (clone : Option (Option WorktreeState × Option String)) :
    Kept (parked saved clone) where
  handing _ _ control := by cases control
  making _ control := by cases control
  asked _ asks := by cases asks
  answering _ _ executor := by cases executor
  answered _ answer := by cases answer
  restored found isClone key restored := by
    obtain ⟨own, _, rfl⟩ := Option.map_eq_some_iff.mp isClone
    cases restored

/-! ### The control side's steps -/

theorem attempt_eq (system : System) : system.attempt = attemptAfter system.failed := rfl

theorem restoreRequest_key (system : System) (remade : Bool) :
    (system.restoreRequest remade).key = system.current := rfl

/-- A request handed says that the clone was made again only when it is gone, or was made for
the attempt. -/
theorem hand_made (kept : Kept system) {resuming remake remade : Bool}
    (step : system.controlStep resuming = .hand remake remade) :
    (remake = true → system.clone = none) ∧ system.MadeFor (system.restoreRequest remade) := by
  unfold controlStep cloneRestore at step
  cases filtered : system.answer.filter fun answer =>
      answer.answers system.saved.id system.attempt with
  | some answer =>
    rw [filtered] at step
    cases step
  | none =>
    rw [filtered] at step
    dsimp only at step
    by_cases resumes : resuming = true
    · rw [if_pos resumes] at step
      obtain ⟨isRemake, isRemade⟩ := CloneRestore.hand.inj step
      refine ⟨fun remakes => ?_, fun isMade clone present => ?_⟩
      · rw [← isRemake] at remakes
        simpa using remakes
      · have isMade : remade = true := isMade
        rw [← isRemade, present] at isMade
        simp only [Option.isSome_some, Bool.not_true, Bool.false_or, Option.any_eq_true] at isMade
        obtain ⟨handed, found, wasMade⟩ := isMade
        obtain ⟨found, ours⟩ := Option.filter_eq_some_iff.mp found
        obtain ⟨file, isFile, rfl⟩ := Option.map_eq_some_iff.mp found
        cases file with
        | none => cases wasMade
        | some file =>
          obtain ⟨asked, isAsked, read⟩ := Option.map_eq_some_iff.mp isFile
          obtain ⟨request, rfl, rfl⟩ := Option.map_eq_some_iff.mp read
          have made := (kept.asked request isAsked).2.1 wasMade clone present
          rw [made, restoreRequest_key]
          simp only [Option.getD_some, decide_eq_true_eq] at ours
          exact congrArg some (Prod.ext ours.1 ours.2)
    · rw [if_neg resumes] at step
      cases step

theorem Kept.hand (kept : Kept system) {resuming remake remade : Bool}
    (step : system.controlStep resuming = .hand remake remade) :
    Kept { system with control := .handing (system.restoreRequest remade) remake } where
  handing request _ control := by
    obtain ⟨rfl, rfl⟩ := Control.handing.inj control
    exact ⟨rfl, hand_made kept step⟩
  making _ control := by cases control
  asked := kept.asked
  answering := kept.answering
  answered := kept.answered
  restored clone present key restored :=
    have found := kept.restored clone present key restored
    ⟨found.behind, found.asked, found.answered, found.answering⟩

theorem Asks.unique {first second : RestoreRequest} (asks : system.Asks first)
    (others : system.Asks second) : first = second :=
  Option.some.inj (Option.some.inj (asks.symm.trans others))

theorem Kept.writeRequest (kept : Kept system) {request : RestoreRequest} {remake : Bool}
    (handing : system.control = .handing request remake) :
    Kept (system.writeRequest request remake) := by
  obtain ⟨isCurrent, gone, made⟩ := kept.handing request remake handing
  have written : ∀ asked, (system.writeRequest request remake).Asks asked → asked = request :=
    fun asked asks => (Option.some.inj (Option.some.inj asks)).symm
  refine ⟨?_, ?_, ?_, ?_, kept.answered, ?_⟩
  · intro other _ control
    have control : (if remake then Control.making request else .idle) = _ := control
    cases remake <;> cases control
  · intro other control
    have control : (if remake then Control.making request else .idle) = _ := control
    cases remake with
    | false => cases control
    | true =>
      refine ⟨gone rfl, fun asked asks => ?_⟩
      rw [written asked asks, Control.making.inj control]
  · intro asked asks
    rw [written asked asks]
    refine ⟨Or.inl isCurrent, made, fun _ => ⟨?_, le_rfl⟩⟩
    rw [isCurrent]
    rfl
  · intro result handedAt executor
    obtain ⟨behind, numbered, _⟩ := kept.answering result handedAt executor
    refine ⟨behind, numbered, fun asked asks => ?_⟩
    rw [written asked asks, isCurrent]
    exact behind.imp Eq.symm id
  · intro clone present key restored
    have found := kept.restored clone present key restored
    have over_ : system.Over key → (system.writeRequest request remake).Over key := by
      rintro ⟨passed, _⟩
      refine ⟨passed, fun asked asks same => not_passed_current system ?_⟩
      rw [written asked asks] at same
      rw [← isCurrent, same]
      exact passed
    refine ⟨found.behind, fun asked asks => ?_, found.answered.imp id over_,
      fun result handedAt executor => over_ (found.answering result handedAt executor)⟩
    rw [written asked asks, isCurrent]
    exact found.behind.imp Eq.symm id

theorem Kept.makeClone (kept : Kept system) {request : RestoreRequest}
    (making : system.control = .making request) : Kept (system.makeClone request) where
  handing _ _ control := by cases control
  making _ control := by cases control
  asked asked asks := by
    obtain ⟨behind, _, numbered⟩ := kept.asked asked asks
    refine ⟨behind, fun _ clone present => ?_, numbered⟩
    rw [← Option.some.inj present, (kept.making request making).2 asked asks]
    rfl
  answering := kept.answering
  answered := kept.answered
  restored clone present key restored := by
    rw [← Option.some.inj present] at restored
    cases restored

/-- What a step keeps that only moves the attempts on, while the control side is idle. -/
theorem Kept.moveOn (kept : Kept system) (moves : MovesOn system after)
    (numbered : ∀ key handedAt, system.Behind key → system.Numbered key handedAt →
      after.Numbered key handedAt)
    (request : after.request = system.request) (answer : after.answer = system.answer)
    (clone : after.clone = system.clone) (executor : after.executor = system.executor)
    (handedAt : after.handedAt = system.handedAt)
    (answeredAt : after.answeredAt = system.answeredAt) (idle : after.control = .idle) :
    Kept after := by
  have asksSame : ∀ asked, after.Asks asked → system.Asks asked := fun asked asks =>
    request.symm.trans asks
  have over_ : ∀ key, system.Over key → after.Over key := fun key over_ =>
    ⟨moves.passed key over_.1, fun asked asks => over_.2 asked (asksSame asked asks)⟩
  refine ⟨?_, ?_, ?_, ?_, ?_, ?_⟩
  · intro _ _ control
    rw [idle] at control
    cases control
  · intro _ control
    rw [idle] at control
    cases control
  · intro asked asks
    obtain ⟨behind, made, isNumbered⟩ := kept.asked asked (asksSame asked asks)
    refine ⟨moves.behind behind, ?_, handedAt ▸ numbered _ _ behind isNumbered⟩
    unfold MadeFor
    rw [clone]
    exact made
  · intro result handedAt answering
    rw [executor] at answering
    obtain ⟨behind, isNumbered, asked⟩ := kept.answering result handedAt answering
    exact ⟨moves.behind behind, numbered _ _ behind isNumbered, fun request asks =>
      (asked request (asksSame request asks)).imp id (moves.passed _)⟩
  · intro answered isAnswer
    rw [answer] at isAnswer
    obtain ⟨behind, isNumbered⟩ := kept.answered answered isAnswer
    exact ⟨moves.behind behind, answeredAt ▸ numbered _ _ behind isNumbered⟩
  · intro found present key restored
    rw [clone] at present
    have kept := kept.restored found present key restored
    refine ⟨moves.behind kept.behind, fun request asks =>
      (kept.asked request (asksSame request asks)).imp id (moves.passed _), ?_, ?_⟩
    · rcases kept.answered with ⟨answered, isAnswer, done⟩ | isOver
      · exact Or.inl ⟨answered, answer.trans isAnswer, done⟩
      · exact Or.inr (over_ key isOver)
    · intro result handedAt answering
      rw [executor] at answering
      exact over_ key (kept.answering result handedAt answering)

theorem Kept.recordFailure (kept : Kept system) (idle : system.control = .idle) (why : String) :
    Kept (system.recordFailure why) := by
  refine kept.moveOn (movesOn_recordFailure system why) ?_ rfl rfl rfl rfl rfl rfl idle
  intro key handedAt _ numbered own
  obtain ⟨number, order⟩ := numbered own
  refine ⟨number, order.trans ?_⟩
  rw [failed_recordFailure]
  exact Nat.le_succ _

theorem Kept.recordOutcome (kept : Kept system) (idle : system.control = .idle)
    (outcome : Except String String) : Kept (system.recordOutcome outcome) := by
  cases outcome with
  | ok action => exact kept
  | error why => exact kept.recordFailure idle why

theorem Kept.park (kept : Kept system) (idle : system.control = .idle) (saved : Saved)
    (named : saved.id ∉ system.saved.id :: system.past) :
    Kept { system with saved := saved, past := system.saved.id :: system.past } := by
  refine kept.moveOn (movesOn_park system saved named) ?_ rfl rfl rfl rfl rfl rfl idle
  -- No attempt so far is of the new snapshot.
  intro key handedAt behind _ own
  exact absurd (own ▸ behind.named) named

theorem Kept.restartControl (kept : Kept system) : Kept { system with control := .idle } := by
  refine kept.moveOn ⟨fun _ passed => passed, Or.inl rfl⟩ (fun _ _ _ numbered => numbered)
    rfl rfl rfl rfl rfl rfl rfl

/-! ### The executor's steps -/

/-- Once answered to be done, a request is not taken again. -/
theorem executorStep_done {branch : String} {request : RestoreRequest}
    (asks : system.Asks request) (own : request.branch = branch)
    (done : system.AnsweredDone request.key) :
    system.executorStep branch = .took request .done := by
  obtain ⟨answer, isAnswer, same, restored⟩ := done
  have answers : answer.answers request.snapshotId request.attempt = true :=
    (answer.answers_iff _ _).mpr same
  unfold executorStep
  rw [show system.request = some (some request) from asks]
  dsimp only
  rw [if_neg (fun other => other own), if_pos]
  rw [isAnswer, Option.any_some, answers, restored]
  rfl

/-- What the executor takes up is the request, of its branch. -/
theorem executorStep_asks {branch : String} {request : RestoreRequest} {step : ExecutorRestore}
    (taken : system.executorStep branch = .took request step ∨
      system.executorStep branch = .unreadable request) :
    system.Asks request ∧ request.branch = branch := by
  unfold executorStep at taken
  cases file : system.request with
  | none =>
    rw [file] at taken
    rcases taken with taken | taken <;> cases taken
  | some read =>
    cases read with
    | none =>
      rw [file] at taken
      rcases taken with taken | taken <;> cases taken
    | some asked =>
      rw [file] at taken
      dsimp only at taken
      by_cases other : asked.branch ≠ branch
      · rw [if_pos other] at taken
        rcases taken with taken | taken <;> cases taken
      · rw [if_neg other] at taken
        have isAsked : asked = request := by
          by_cases done : (system.answer.any fun answer =>
              answer.answers asked.snapshotId asked.attempt && answer.restored) = true
          · rw [if_pos done] at taken
            rcases taken with taken | taken
            · exact (Taken.took.inj taken).1
            · cases taken
          · rw [if_neg done] at taken
            cases found : system.clone.bind fun clone =>
                clone.state.map fun state => (clone, state) with
            | none =>
              rw [found] at taken
              rcases taken with taken | taken
              · cases taken
              · exact Taken.unreadable.inj taken
            | some pair =>
              rw [found] at taken
              rcases taken with taken | taken
              · exact (Taken.took.inj taken).1
              · cases taken
        subst isAsked
        exact ⟨file, not_not.mp other⟩

/-- A request the executor takes up otherwise was not answered to be done. -/
theorem executorStep_undone {branch : String} {request : RestoreRequest} {step : ExecutorRestore}
    (taken : system.executorStep branch = .took request step ∨
      system.executorStep branch = .unreadable request) (other : step ≠ .done) :
    ¬system.AnsweredDone request.key := by
  intro done
  obtain ⟨asks, own⟩ := executorStep_asks taken
  have isDone := executorStep_done asks own done
  rcases taken with taken | taken
  · rw [isDone] at taken
    exact other (Taken.took.inj taken).2.symm
  · rw [isDone] at taken
    cases taken

theorem answerTo_key (request : RestoreRequest) (outcome : Except String String) :
    (answerTo request outcome).key = request.key := by
  cases outcome <;> rfl

/-- The executor is to answer a request it did not answer to be done. -/
theorem Kept.answerRequest (kept : Kept system) {request : RestoreRequest}
    (asks : system.Asks request) (undone : ¬system.AnsweredDone request.key)
    (outcome : Except String String) : Kept (system.answering request outcome) where
  handing := kept.handing
  making := kept.making
  asked := kept.asked
  answering result handedAt executor := by
    obtain ⟨rfl, rfl⟩ := Executor.answering.inj executor
    obtain ⟨behind, _, numbered⟩ := kept.asked request asks
    rw [answerTo_key]
    exact ⟨behind, numbered, fun other others => Or.inl (congrArg _ (others.unique asks))⟩
  answered := kept.answered
  restored clone present key restored := by
    have found := kept.restored clone present key restored
    -- A clone restored at this attempt was answered so, or the attempt is over.
    have other : request.key ≠ key := by
      rintro rfl
      rcases found.answered with done | isOver
      · exact undone done
      · exact isOver.2 request asks rfl
    have passed : system.Passed key := (found.asked request asks).resolve_left other
    exact ⟨found.behind, found.asked, found.answered, fun _ _ _ =>
      ⟨passed, fun asked others => (asks.unique others) ▸ other⟩⟩

theorem Kept.changed (kept : Kept system) (state : Option WorktreeState)
    (gitOperation : Option String) : Kept (system.changed state gitOperation) := by
  have made : ∀ request, system.MadeFor request →
      (system.changed state gitOperation).MadeFor request := by
    intro request made isMade clone present
    obtain ⟨own, isClone, rfl⟩ := Option.map_eq_some_iff.mp present
    exact made isMade own isClone
  have gone : system.clone = none → (system.changed state gitOperation).clone = none := by
    intro gone
    show system.clone.map _ = none
    rw [gone, Option.map_none]
  refine ⟨?_, ?_, ?_, kept.answering, kept.answered, ?_⟩
  · intro request remake control
    obtain ⟨isCurrent, remakes, isMade⟩ := kept.handing request remake control
    exact ⟨isCurrent, fun remake => gone (remakes remake), made request isMade⟩
  · intro request control
    obtain ⟨isGone, same⟩ := kept.making request control
    exact ⟨gone isGone, same⟩
  · intro request asks
    obtain ⟨behind, isMade, numbered⟩ := kept.asked request asks
    exact ⟨behind, made request isMade, numbered⟩
  · intro clone present key restored
    obtain ⟨own, isClone, rfl⟩ := Option.map_eq_some_iff.mp present
    have found := kept.restored own isClone key restored
    exact ⟨found.behind, found.asked, found.answered, found.answering⟩

theorem Kept.writeAnswer (kept : Kept system) {result : RestoreResult} {handedAt : Nat}
    (answering : system.executor = .answering result handedAt) :
    Kept (system.writeAnswer result handedAt) := by
  obtain ⟨behind, numbered, asked⟩ := kept.answering result handedAt answering
  have gone : system.clone = none → (system.writeAnswer result handedAt).clone = none := by
    intro gone
    show system.clone.map _ = none
    rw [gone, Option.map_none]
  have made : ∀ request, system.MadeFor request →
      (system.writeAnswer result handedAt).MadeFor request := by
    intro request made isMade clone present
    obtain ⟨own, isClone, rfl⟩ := Option.map_eq_some_iff.mp present
    by_cases restored : result.restored = true
    · rw [if_pos restored]
      exact made isMade own isClone
    · rw [if_neg restored]
      exact made isMade own isClone
  refine ⟨?_, ?_, ?_, ?_, ?_, ?_⟩
  · intro request remake control
    obtain ⟨isCurrent, remakes, isMade⟩ := kept.handing request remake control
    exact ⟨isCurrent, fun remake => gone (remakes remake), made request isMade⟩
  · intro request control
    obtain ⟨isGone, same⟩ := kept.making request control
    exact ⟨gone isGone, same⟩
  · intro request asks
    obtain ⟨isBehind, isMade, isNumbered⟩ := kept.asked request asks
    exact ⟨isBehind, made request isMade, isNumbered⟩
  · intro _ _ executor
    cases executor
  · intro answer isAnswer
    rw [← Option.some.inj isAnswer]
    exact ⟨behind, numbered⟩
  · intro clone present key isRestored
    obtain ⟨own, isClone, rfl⟩ := Option.map_eq_some_iff.mp present
    by_cases restored : result.restored = true
    · -- The clone is marked with the attempt that is answered here.
      rw [if_pos restored] at isRestored
      rw [← Option.some.inj isRestored]
      exact ⟨behind, asked, Or.inl ⟨result, rfl, rfl, restored⟩, fun _ _ executor => by
        cases executor⟩
    · rw [if_neg restored] at isRestored
      have found := kept.restored own isClone key isRestored
      exact ⟨found.behind, found.asked, Or.inr (found.answering result handedAt answering),
        fun _ _ executor => by cases executor⟩

theorem Kept.restartExecutor (kept : Kept system) : Kept { system with executor := .idle } where
  handing := kept.handing
  making := kept.making
  asked := kept.asked
  answering _ _ executor := by cases executor
  answered := kept.answered
  restored clone present key restored :=
    have found := kept.restored clone present key restored
    ⟨found.behind, found.asked, found.answered, fun _ _ executor => by cases executor⟩

/-! ### What the clone and its files lose -/

/-- What a step keeps that takes the clone away, with the request or with both files. -/
theorem Kept.gone (kept : Kept system) (keepsRequest keepsAnswer : Bool) :
    Kept { system with
      clone := none
      request := if keepsRequest then system.request else none
      answer := if keepsAnswer then system.answer else none } := by
  have asksSame : ∀ asked, System.Asks { system with
      clone := none
      request := if keepsRequest then system.request else none
      answer := if keepsAnswer then system.answer else none } asked → system.Asks asked := by
    intro asked asks
    cases keepsRequest with
    | false => cases asks
    | true => exact asks
  refine ⟨?_, ?_, ?_, ?_, ?_, ?_⟩
  · intro request remake control
    exact ⟨(kept.handing request remake control).1, fun _ => rfl, fun _ _ present => by
      cases present⟩
  · intro request control
    exact ⟨rfl, fun asked asks => (kept.making request control).2 asked (asksSame asked asks)⟩
  · intro request asks
    obtain ⟨behind, _, numbered⟩ := kept.asked request (asksSame request asks)
    exact ⟨behind, fun _ _ present => (by cases present), numbered⟩
  · intro result handedAt executor
    obtain ⟨behind, numbered, asked⟩ := kept.answering result handedAt executor
    exact ⟨behind, numbered, fun request asks => asked request (asksSame request asks)⟩
  · intro answer isAnswer
    cases keepsAnswer with
    | false => cases isAnswer
    | true => exact kept.answered answer isAnswer
  · intro _ present
    cases present

theorem Kept.spoiled (kept : Kept system) : Kept { system with request := some none } where
  handing := kept.handing
  making request control :=
    ⟨(kept.making request control).1, fun _ asks => by cases Option.some.inj asks⟩
  asked _ asks := by cases Option.some.inj asks
  answering result handedAt executor :=
    ⟨(kept.answering result handedAt executor).1, (kept.answering result handedAt executor).2.1,
      fun _ asks => by cases Option.some.inj asks⟩
  answered := kept.answered
  restored clone present key restored :=
    have found := kept.restored clone present key restored
    have over_ : system.Over key → System.Over { system with request := some none } key :=
      fun isOver => ⟨isOver.1, fun _ asks => by cases Option.some.inj asks⟩
    ⟨found.behind, fun _ asks => (by cases Option.some.inj asks), found.answered.imp id over_,
      fun result handedAt executor => over_ (found.answering result handedAt executor)⟩

theorem Kept.step (kept : Kept system) (next : Step system after) : Kept after := by
  cases next with
  | hand _ step => exact kept.hand step
  | writeRequest handing => exact kept.writeRequest handing
  | makeClone making _ => exact kept.makeClone making
  | record idle _ => exact kept.recordOutcome idle _
  | collect idle _ => exact kept.recordOutcome idle _
  | fail idle _ => exact kept.recordFailure idle _
  | failOtherwise why idle => exact kept.recordFailure idle why
  | park saved idle named => exact kept.park idle saved named
  | restartControl => exact kept.restartControl
  | intact _ step =>
    exact kept.answerRequest (executorStep_asks (Or.inl step)).1
      (executorStep_undone (Or.inl step) (by simp)) _
  | fill _ step filled gitOperation _ =>
    have asks := (executorStep_asks (Or.inl step)).1
    have undone := executorStep_undone (Or.inl step) (by simp)
    exact (kept.changed _ _).answerRequest asks undone _
  | fillFailed _ step left gitOperation why =>
    have asks := (executorStep_asks (Or.inl step)).1
    have undone := executorStep_undone (Or.inl step) (by simp)
    exact (kept.changed _ _).answerRequest asks undone _
  | fillStopped _ _ left gitOperation => exact kept.changed left gitOperation
  | refuse _ step _ =>
    exact kept.answerRequest (executorStep_asks (Or.inl step)).1
      (executorStep_undone (Or.inl step) (by simp)) _
  | unreadable why _ step =>
    exact kept.answerRequest (@executorStep_asks _ _ _ .intact (Or.inr step)).1
      (@executorStep_undone _ _ _ .intact (Or.inr step) (by simp)) _
  | writeAnswer answering => exact kept.writeAnswer answering
  | restartExecutor => exact kept.restartExecutor
  | work state gitOperation => exact kept.changed state gitOperation
  | removed => exact kept.gone true true
  | cleaned all =>
    cases all with
    | false => exact kept.gone false true
    | true => exact kept.gone false false
  | spoiled => exact kept.spoiled

theorem kept_of_reachable {saved : Saved} {clone : Option (Option WorktreeState × Option String)}
    (reached : Reachable (parked saved clone) Step system) : Kept system :=
  reached.invariant Kept (kept_parked saved clone) fun _ _ _ kept next => kept.step next

/-! ### Safety -/

theorem executorRestore_fill {request : RestoreRequest} {answered : Option RestoreResult}
    {current : WorktreeState} {gitOperation : Option String}
    (fills : executorRestore request answered current gitOperation = .fill) :
    request.remade = true ∧ gitOperation = none ∧ current.head = request.base ∧
      current.dirty = false := by
  unfold executorRestore at fills
  cases earlier : answered.filter fun answer =>
      answer.answers request.snapshotId request.attempt with
  | some answer =>
    rw [earlier] at fills
    dsimp only at fills
    cases outcome : answer.outcome with
    | ok _ =>
      rw [outcome] at fills
      cases fills
    | error _ =>
      rw [outcome] at fills
      cases fills
  | none =>
    rw [earlier] at fills
    cases gitOperation with
    | some operation => cases fills
    | none =>
      dsimp only at fills
      cases compared : compare request.state current with
      | intact =>
        rw [compared] at fills
        cases fills
      | missing =>
        rw [compared] at fills
        cases fills
      | diverged why =>
        rw [compared] at fills
        dsimp only at fills
        by_cases may : request.remade = true ∧ fresh request current = true
        · obtain ⟨remade, isFresh⟩ := may
          unfold fresh at isFresh
          simp only [decide_eq_true_eq] at isFresh
          exact ⟨remade, rfl, isFresh⟩
        · rw [if_neg may] at fills
          cases fills

/-- The executor compares the clone there is. -/
theorem executorStep_compares {branch : String} {request : RestoreRequest}
    {step : ExecutorRestore} (taken : system.executorStep branch = .took request step)
    (other : step ≠ .done) :
    ∃ clone state, system.clone = some clone ∧ clone.state = some state ∧
      executorRestore request system.answer state clone.gitOperation = step := by
  obtain ⟨asks, own⟩ := executorStep_asks (Or.inl taken)
  unfold executorStep at taken
  rw [show system.request = some (some request) from asks] at taken
  dsimp only at taken
  rw [if_neg (fun apart => apart own)] at taken
  by_cases done : (system.answer.any fun answer =>
      answer.answers request.snapshotId request.attempt && answer.restored) = true
  · rw [if_pos done] at taken
    exact absurd (Taken.took.inj taken).2.symm other
  · rw [if_neg done] at taken
    cases found : system.clone.bind fun clone => clone.state.map fun state => (clone, state) with
    | none =>
      rw [found] at taken
      cases taken
    | some pair =>
      rw [found] at taken
      obtain ⟨clone, present, inner⟩ := Option.bind_eq_some_iff.mp found
      obtain ⟨state, isState, rfl⟩ := Option.map_eq_some_iff.mp inner
      exact ⟨clone, state, present, isState, (Taken.took.inj taken).2⟩

/-- What the control side records is the answer to the attempt under way. -/
theorem controlStep_record {resuming : Bool} {outcome : Except String String}
    (step : system.controlStep resuming = .record outcome) :
    system.collected = some outcome := by
  unfold controlStep cloneRestore at step
  unfold collected
  cases filtered : system.answer.filter fun answer =>
      answer.answers system.saved.id system.attempt with
  | some answer =>
    rw [filtered] at step
    rw [Option.map_some, CloneRestore.record.inj step]
  | none =>
    rw [filtered] at step
    dsimp only at step
    by_cases resumes : resuming = true
    · rw [if_pos resumes] at step
      cases step
    · rw [if_neg resumes] at step
      cases step

theorem Kept.collected_own (kept : Kept system) {outcome : Except String String}
    (found : system.collected = some outcome) :
    ∃ answer, system.answer = some answer ∧ answer.outcome = outcome ∧
      answer.key = system.current ∧
      (system.failed < u32Max → system.answeredAt = system.failed) := by
  obtain ⟨answer, filtered, isOutcome⟩ := Option.map_eq_some_iff.mp found
  obtain ⟨isAnswer, answers⟩ := Option.filter_eq_some_iff.mp filtered
  have own : answer.key = system.current := (answer.answers_iff _ _).mp answers
  refine ⟨answer, isAnswer, isOutcome, own, fun fits => ?_⟩
  obtain ⟨_, numbered⟩ := kept.answered answer isAnswer
  obtain ⟨number, order⟩ := numbered (congrArg Prod.fst own)
  refine attemptAfter_inj order fits ?_
  rw [← number, own]
  rfl

/-- A clone taken for restored was answered to be. -/
theorem executorStep_answered {branch : String} {request : RestoreRequest}
    (taken : system.executorStep branch = .took request .done) :
    system.AnsweredDone request.key := by
  obtain ⟨asks, own⟩ := executorStep_asks (Or.inl taken)
  unfold executorStep at taken
  rw [show system.request = some (some request) from asks] at taken
  dsimp only at taken
  rw [if_neg (fun apart => apart own)] at taken
  by_cases done : (system.answer.any fun answer =>
      answer.answers request.snapshotId request.attempt && answer.restored) = true
  · obtain ⟨answer, isAnswer, both⟩ := Option.any_eq_true _ _ |>.mp done
    obtain ⟨answers, restored⟩ := (Bool.and_eq_true _ _).mp both
    exact ⟨answer, isAnswer, (answer.answers_iff _ _).mp answers, restored⟩
  · rw [if_neg done] at taken
    cases found : system.clone.bind fun clone => clone.state.map fun state => (clone, state) with
    | none =>
      rw [found] at taken
      cases taken
    | some pair =>
      rw [found] at taken
      have isDone := (Taken.took.inj taken).2
      unfold executorRestore at isDone
      cases earlier : system.answer.filter fun answer =>
          answer.answers request.snapshotId request.attempt with
      | some answer =>
        obtain ⟨isAnswer, answers⟩ := Option.filter_eq_some_iff.mp earlier
        rw [earlier] at isDone
        dsimp only at isDone
        refine ⟨answer, isAnswer, (answer.answers_iff _ _).mp answers, ?_⟩
        unfold RestoreResult.restored
        cases outcome : answer.outcome with
        | ok _ => rfl
        | error _ =>
          rw [outcome] at isDone
          cases isDone
      | none =>
        rw [earlier] at isDone
        cases operation : pair.1.gitOperation with
        | some _ =>
          rw [operation] at isDone
          cases isDone
        | none =>
          rw [operation] at isDone
          dsimp only at isDone
          cases compared : compare request.state pair.2 with
          | intact =>
            rw [compared] at isDone
            cases isDone
          | missing =>
            rw [compared] at isDone
            cases isDone
          | diverged why =>
            rw [compared] at isDone
            dsimp only at isDone
            split at isDone <;> cases isDone

/-- An answer to another attempt changes no step of the control side. -/
theorem controlStep_stale (stale : ∀ answer, system.answer = some answer →
    answer.key ≠ system.current) (resuming : Bool) :
    system.controlStep resuming = { system with answer := none }.controlStep resuming := by
  have none_ : (system.answer.filter fun answer =>
      answer.answers system.saved.id system.attempt) = none := by
    rw [Option.filter_eq_none_iff]
    intro answer isAnswer answers
    exact stale answer isAnswer ((answer.answers_iff _ _).mp answers)
  unfold controlStep cloneRestore
  rw [none_]
  rfl

/-- An answer to another attempt changes no step of the executor. -/
theorem executorStep_stale {request : RestoreRequest} (asks : system.Asks request)
    (stale : ∀ answer, system.answer = some answer → answer.key ≠ request.key) (branch : String) :
    system.executorStep branch = { system with answer := none }.executorStep branch := by
  have none_ : (system.answer.filter fun answer =>
      answer.answers request.snapshotId request.attempt) = none := by
    rw [Option.filter_eq_none_iff]
    intro answer isAnswer answers
    exact stale answer isAnswer ((answer.answers_iff _ _).mp answers)
  have undone : ¬(system.answer.any fun answer =>
      answer.answers request.snapshotId request.attempt && answer.restored) = true := by
    intro done
    obtain ⟨answer, isAnswer, both⟩ := Option.any_eq_true _ _ |>.mp done
    exact stale answer isAnswer
      ((answer.answers_iff _ _).mp ((Bool.and_eq_true _ _).mp both).1)
  unfold executorStep
  rw [show system.request = some (some request) from asks]
  dsimp only
  rw [if_neg undone]
  unfold executorRestore
  rw [none_]
  rfl

/-- The restore over every order of its steps. -/
structure RestoreSafe (system : System) : Prop where
  /-- The executor fills a clone only when it was made again for the very attempt and is at the
  base with nothing uncommitted. -/
  fills : ∀ branch request, system.executorStep branch = .took request .fill →
    ∃ clone state, system.clone = some clone ∧ clone.madeFor = some request.key ∧
      clone.state = some state ∧ state.head = request.base ∧ state.dirty = false ∧
      clone.gitOperation = none
  /-- What is recorded is the answer to the attempt under way, given since its last failure while
  attempts have numbers of their own. -/
  records : ∀ outcome, (∃ resuming, system.controlStep resuming = .record outcome) ∨
      system.collected = some outcome →
    ∃ answer, system.answer = some answer ∧ answer.outcome = outcome ∧
      answer.key = system.current ∧ (system.failed < u32Max → system.answeredAt = system.failed)
  /-- An answer that ends a request is to its attempt, given after it was handed. -/
  ends : ∀ branch request, system.executorStep branch = .took request .done →
    ∃ answer, system.answer = some answer ∧ answer.key = request.key ∧ answer.restored = true ∧
      (request.snapshotId = system.saved.id → system.failed < u32Max →
        system.answeredAt = system.handedAt)
  /-- An answer to another attempt changes no step of either side. -/
  staleControl : (∀ answer, system.answer = some answer → answer.key ≠ system.current) →
    ∀ resuming, system.controlStep resuming = { system with answer := none }.controlStep resuming
  staleExecutor : ∀ request, system.Asks request →
    (∀ answer, system.answer = some answer → answer.key ≠ request.key) →
    ∀ branch, system.executorStep branch = { system with answer := none }.executorStep branch
  /-- A clone answered to be restored is not filled or refused again in the same attempt. -/
  restored : ∀ clone branch request, system.clone = some clone → system.Asks request →
    request.branch = branch → clone.restoredFor = some request.key →
    system.executorStep branch = .took request .done

theorem restore_safe {saved : Saved} {clone : Option (Option WorktreeState × Option String)}
    (reached : Reachable (parked saved clone) Step system) : RestoreSafe system where
  fills branch request taken := by
    have kept := kept_of_reachable reached
    obtain ⟨clone, state, present, isState, fills⟩ := executorStep_compares taken (by simp)
    obtain ⟨remade, operation, atBase, clean⟩ := executorRestore_fill fills
    have asks := (executorStep_asks (Or.inl taken)).1
    exact ⟨clone, state, present, (kept.asked request asks).2.1 remade clone present, isState,
      atBase, clean, operation⟩
  records outcome := by
    have kept := kept_of_reachable reached
    rintro (⟨_, step⟩ | found)
    · exact kept.collected_own (controlStep_record step)
    · exact kept.collected_own found
  ends branch request taken := by
    have kept := kept_of_reachable reached
    obtain ⟨answer, isAnswer, same, restored⟩ := executorStep_answered taken
    refine ⟨answer, isAnswer, same, restored, fun own fits => ?_⟩
    have asks := (executorStep_asks (Or.inl taken)).1
    obtain ⟨number, handed⟩ := (kept.asked request asks).2.2 own
    obtain ⟨answerNumber, answered⟩ :=
      (kept.answered answer isAnswer).2 ((congrArg Prod.fst same).trans own)
    have numbers : attemptAfter system.answeredAt = attemptAfter system.handedAt := by
      rw [← number, ← answerNumber, same]
    rcases le_total system.answeredAt system.handedAt with order | order
    · exact attemptAfter_inj order (handed.trans_lt fits) numbers
    · exact (attemptAfter_inj order (answered.trans_lt fits) numbers.symm).symm
  staleControl := controlStep_stale
  staleExecutor request asks stale branch := executorStep_stale asks stale branch
  restored clone branch request present asks own restored := by
    have found := (kept_of_reachable reached).restored clone present request.key restored
    refine executorStep_done asks own ?_
    rcases found.answered with done | isOver
    · exact done
    · exact absurd rfl (isOver.2 request asks)

/-! ### Attempts without a number of their own -/

def parkedWork : Saved where
  operation := 3
  generation := 2
  id := "replan-3-g2"
  base := "89abcdef"
  branch := "dagq/run-1"
  head := "01234567"
  bundle := { kind := .bundle, sha256 := emptySha }
  files := []
  fits := by decide

/-- The run parked, its clone one that cannot be read whole. -/
def unreadableClone : System := parked parkedWork (some (none, none))

/-- The run parked with no clone left. -/
def goneClone : System := parked parkedWork none

/-- The clone made again for the restore handed. -/
def remadeClone : System :=
  let request := goneClone.restoreRequest true
  let handing := { goneClone with control := .handing request true }
  (System.writeRequest handing request true).makeClone request

/-- The clone filled, and answered to be restored. -/
def restoredClone : System :=
  let request := goneClone.restoreRequest true
  let filled := (remadeClone.changed (some request.state) none).answering request (.ok "recreated")
  filled.writeAnswer (answerTo request (.ok "recreated")) filled.handedAt

theorem restore_safe_restored : RestoreSafe remadeClone ∧
    remadeClone.executorStep parkedWork.branch = .took (goneClone.restoreRequest true) .fill ∧
    RestoreSafe restoredClone ∧
    restoredClone.executorStep parkedWork.branch = .took (goneClone.restoreRequest true) .done := by
  have handed : Reachable (parked parkedWork none) Step
      { goneClone with control := .handing (goneClone.restoreRequest true) true } :=
    Reachable.start.step (@Step.hand goneClone true true true rfl rfl)
  have remade : Reachable (parked parkedWork none) Step remadeClone :=
    (handed.step (.writeRequest rfl)).step (.makeClone rfl rfl)
  have fills : remadeClone.executorStep parkedWork.branch =
      .took (goneClone.restoreRequest true) .fill := rfl
  have restored : Reachable (parked parkedWork none) Step restoredClone :=
    (remade.step (.fill rfl fills _ none (by decide))).step (.writeAnswer rfl)
  exact ⟨restore_safe remade, fills, restore_safe restored,
    (restore_safe restored).restored _ _ _ rfl rfl rfl rfl⟩

/-- A restore can fail any number of times. -/
theorem reachable_failed (failures : Nat) :
    ∃ payloads, Reachable unreadableClone Step { unreadableClone with failures := payloads } ∧
      System.failed { unreadableClone with failures := payloads } = failures := by
  induction failures with
  | zero => exact ⟨[], .start, rfl⟩
  | succ failures inductionHypothesis =>
    obtain ⟨payloads, reached, counted⟩ := inductionHypothesis
    refine ⟨_, reached.step (.failOtherwise "the snapshot cannot be read" rfl), ?_⟩
    exact (failed_recordFailure _ _).trans (congrArg (· + 1) counted)

theorem controlStep_answered {answer : RestoreResult} (isAnswer : system.answer = some answer)
    (own : answer.key = system.current) (resuming : Bool) :
    system.controlStep resuming = .record answer.outcome := by
  have answers : answer.answers system.saved.id system.attempt = true :=
    (answer.answers_iff _ _).mpr own
  unfold controlStep cloneRestore
  rw [isAnswer, Option.filter_some, if_pos answers]

/-- The attempts from the greatest number on share it: the answer to one whose failure was
recorded is recorded of the next. -/
theorem saturated_answer_recorded :
    ∃ system, Reachable (parked parkedWork (some (none, none))) Step system ∧
      system.controlStep true = .record (.error "it cannot be compared") ∧
      system.answeredAt = u32Max - 1 ∧ system.failed = u32Max := by
  obtain ⟨payloads, reached, counted⟩ := reachable_failed (u32Max - 1)
  let before : System := { unreadableClone with failures := payloads }
  let request := before.restoreRequest false
  let why := "it cannot be compared"
  -- The last attempt with a number of its own is handed, answered and recorded.
  let written := System.writeRequest { before with control := .handing request false } request false
  let answered := (written.answering request (.error why)).writeAnswer
    (answerTo request (.error why)) written.handedAt
  have isAnswer : answered.answer = some (answerTo request (.error why)) := rfl
  have handedReached : Reachable unreadableClone Step
      { before with control := .handing request false } :=
    reached.step (@Step.hand before true false false rfl rfl)
  have answeredReached : Reachable unreadableClone Step answered :=
    ((handedReached.step (.writeRequest rfl)).step
      (@Step.unreadable written parkedWork.branch request why rfl rfl)).step (.writeAnswer rfl)
  have recordedReached : Reachable unreadableClone Step (answered.recordOutcome (.error why)) :=
    answeredReached.step
      (@Step.record answered true _ rfl (controlStep_answered isAnswer rfl true))
  have failed : (answered.recordOutcome (.error why)).failed = u32Max := by
    refine (failed_recordFailure answered why).trans ?_
    rw [show answered.failed = u32Max - 1 from counted]
    rfl
  have attempt : answered.attempt = (answered.recordOutcome (.error why)).attempt := by
    rw [attempt_eq, attempt_eq, failed, show answered.failed = u32Max - 1 from counted]
    rfl
  refine ⟨answered.recordOutcome (.error why), recordedReached, ?_, counted, failed⟩
  refine @controlStep_answered (answered.recordOutcome (.error why)) _ isAnswer ?_ true
  exact Prod.ext rfl attempt

end System

end Dagq.Clone
