/-
This file proves that the resume a run starts next is counted as it was planned. The
plan reads the history of the run before it, the count folds over its events with it;
the two histories differ only in whether a `send_back` parked the run, which neither
puts a resume anywhere. And a resume taken out as it finishes was counted where it is
taken out of, so no count falls below zero.
-/

import Dagq.Resume.Limits

namespace Dagq.Resume

/-! ### The next resume -/

def historyOf (events : List RunEvent) : History := events.foldl History.see {}

/-- Why a run parked only by a conflict counts as such. -/
structure ConflictOnly where
  passed : Bool
  approved : Bool
  rechecked : Bool
  deriving DecidableEq, Repr

def conflictOnlyBasis (events : List RunEvent) : Option ConflictOnly :=
  let history := historyOf events
  if history.conflictOnly then some ⟨history.passed, history.approved, history.rechecked⟩ else none

def parkedForKillOnly (events : List RunEvent) : Bool := (historyOf events).killOnly

/-- What records that a resume is not counted, with the counts as it is among them. -/
inductive ResumeRepair where
  | conflictResumeUncounted (basis : ConflictOnly) (countedResumes conflictOnlyResumes : Nat)
  /-- With the park whose `hold_id` is recorded. -/
  | holdResumeUncounted (hold : Option RunEvent) (countedResumes holdResumes : Nat)
  | killResumeUncounted (countedResumes killOnlyResumes : Nat)
  deriving DecidableEq, Repr

/-- How the next resume of a run starts. -/
structure ResumeStart where
  attempt : Nat
  counted : Bool
  /-- What records a resume not counted, with its attempt and the head of main. -/
  repair : Option (ResumeRepair × Nat × String)
  deriving DecidableEq, Repr

def resumeStartPlan (events : List RunEvent) (main : String) : ResumeStart :=
  let resumes := ResumeCount.ofEvents events
  let attempt := resumes.total + 1
  let basis := conflictOnlyBasis events
  let held := basis.isNone && resumes.parkedForHold
  let killed := basis.isNone && !held && parkedForKillOnly events
  let repair : Option ResumeRepair :=
    match basis with
    | some basis =>
      some (.conflictResumeUncounted basis resumes.counted (resumes.conflictOnly + 1))
    | none =>
      if held then
        let hold := events.reverse.find? fun event => event.kind = .holdParked
        some (.holdResumeUncounted hold resumes.counted (resumes.held + 1))
      else if killed then some (.killResumeUncounted resumes.counted (resumes.killOnly + 1))
      else none
  { attempt
    counted := repair.isNone
    repair := repair.map fun repair => (repair, attempt, main) }

/-- Where the plan counts its resume. -/
def ResumeStart.started (plan : ResumeStart) : Started :=
  match plan.repair with
  | some (.conflictResumeUncounted .., _) => .conflictOnly
  | some (.holdResumeUncounted .., _) => .held
  | some (.killResumeUncounted .., _) => .killOnly
  | none => .counted

/-! ### The history the fold has read -/

/-- What a history says but for a `send_back`. -/
def History.unsent (history : History) : History := { history with sentBack := false }

theorem History.unsent_see (history : History) (event : RunEvent) :
    (history.unsent.see event).unsent = (history.see event).unsent := by
  have kinds : (history.unsent.seeKind event).unsent = (history.seeKind event).unsent := by
    unfold History.seeKind
    split
    · rfl
    · split
      · rfl
      · split
        · rfl
        · split
          · rfl
          · split <;> rfl
  unfold History.see
  dsimp only
  split
  · exact congrArg (fun seen : History => { seen with error := event.payload.code }) kinds
  · exact kinds

theorem History.unsent_see_congr {first second : History} (alike : first.unsent = second.unsent)
    (event : RunEvent) : (first.see event).unsent = (second.see event).unsent := by
  rw [← History.unsent_see, alike, History.unsent_see]

/-- A step of the fold reads its event, but that a `send_back` may be given back. -/
theorem unsent_step (state : Counting) (event : RunEvent) :
    (state.step event).history.unsent = (state.history.see event).unsent := by
  unfold Counting.step
  dsimp only
  split
  · rfl
  · unfold Counting.finish
    dsimp only
    split
    · rfl
    · split
      · split <;> rfl
      · rfl
  · rfl
  · rfl

/-- The fold has read the history of its events, but that a `send_back` may be given back. -/
theorem unsent_historyOf (events : List RunEvent) :
    (historyOf events).unsent = (countingOf events).history.unsent := by
  induction events using List.reverseRecOn with
  | nil => rfl
  | append_singleton events event inductionHypothesis =>
    rw [countingOf_concat, unsent_step, ← History.unsent_see_congr inductionHypothesis event,
      historyOf, List.foldl_append]
    rfl

/-! ### No count falls below zero -/

namespace Counting

/-- A resume that finishes is taken out of a count at zero. -/
def underflows (state : Counting) (event : RunEvent) : Bool :=
  match event.kind, (state.show_ event).resuming with
  | .resumeFinished, some (started, _, facts) =>
    facts.providerOnly event.payload &&
      (started = .counted && state.count.counted = 0 ||
        started = .conflictOnly && state.count.conflictOnly = 0)
  | _, _ => false

/-- A step of the fold as it runs, stopped where a count would fall below zero. -/
def step? (state : Counting) (event : RunEvent) : Option Counting :=
  if state.underflows event then none else some (state.step event)

theorem underflows_eq_false {state : Counting} (backed : Backed state) (event : RunEvent) :
    state.underflows event = false := by
  unfold underflows
  split
  next started sentBack facts _ showing =>
    obtain ⟨⟨before, sent, shown⟩, resuming, same⟩ := Option.map_eq_some_iff.mp showing
    obtain ⟨rfl, _⟩ := Prod.mk.inj same
    obtain ⟨counted, conflictOnly⟩ := backed _ _ _ resuming
    have positive : (decide (before = .counted) && decide (state.count.counted = 0) ||
        decide (before = .conflictOnly) && decide (state.count.conflictOnly = 0)) = false := by
      rw [Bool.or_eq_false_iff, Bool.and_eq_false_iff, Bool.and_eq_false_iff]
      simp only [decide_eq_false_iff_not]
      exact ⟨not_or_of_imp fun isCounted => (counted isCounted).ne',
        not_or_of_imp fun isConflict => (conflictOnly isConflict).ne'⟩
    rw [positive, Bool.and_false]
  next => rfl

end Counting

/-- The fold runs over every list of events. -/
theorem foldlM_step? (events : List RunEvent) :
    events.foldlM Counting.step? {} = some (countingOf events) := by
  induction events using List.reverseRecOn with
  | nil => rfl
  | append_singleton events event inductionHypothesis =>
    have notUnder := Counting.underflows_eq_false (total_countingOf events).2 event
    rw [List.foldlM_append, inductionHypothesis, countingOf_concat]
    show Option.bind (Counting.step? (countingOf events) event) some = _
    rw [Counting.step?, notUnder]
    rfl

/-! ### The plan and the fold -/

namespace ResumeCount

/-- A resume more where it is counted. -/
def raise (count : ResumeCount) : Started → ResumeCount
  | .counted => { count with counted := count.counted + 1 }
  | .conflictOnly => { count with conflictOnly := count.conflictOnly + 1 }
  | .held => { count with held := count.held + 1 }
  | .killOnly => { count with killOnly := count.killOnly + 1 }

/-- What is counted, without what is said of the next resume. -/
def counters (count : ResumeCount) : ResumeCount :=
  { count with
    parkedForConflict := false
    parkedForSendBack := false
    parkedForHold := false
    afterProviderOnly := false }

end ResumeCount

/-- Where the history puts the next resume: a conflict's before a hold's before a kill's. -/
def History.next (history : History) : Started :=
  if history.conflictOnly then .conflictOnly
  else if history.holdOnly then .held
  else if history.killOnly then .killOnly
  else .counted

theorem History.next_unsent (history : History) : history.unsent.next = history.next := rfl

/-- The plan counts its resume where the history puts it. -/
theorem started_resumeStartPlan (events : List RunEvent) (main : String) :
    (resumeStartPlan events main).started = (historyOf events).next := by
  have held : (ResumeCount.ofEvents events).parkedForHold = (historyOf events).holdOnly := by
    show (countingOf events).history.unsent.holdOnly = (historyOf events).unsent.holdOnly
    rw [unsent_historyOf]
  unfold ResumeStart.started resumeStartPlan conflictOnlyBasis parkedForKillOnly History.next
  dsimp only
  rw [held]
  cases (historyOf events).conflictOnly <;> cases (historyOf events).holdOnly <;>
    cases (historyOf events).killOnly <;> rfl

/-- The fold counts a resume that starts where the history puts it. -/
theorem counters_start (state : Counting) (event : RunEvent) :
    (state.start event).count = { state.count.raise state.history.next with
      afterProviderOnly := false } := by
  unfold Counting.start History.next
  cases state.history.conflictOnly <;> cases state.history.holdOnly <;>
    cases state.history.killOnly <;> rfl

theorem counters_ofEvents_started (events : List RunEvent) (payload : Payload) :
    (ResumeCount.ofEvents (events ++ [⟨.resumeStarted, payload⟩])).counters =
      ((ResumeCount.ofEvents events).raise (countingOf events).history.next).counters := by
  have stepped : (countingOf (events ++ [⟨.resumeStarted, payload⟩])).count =
      { (countingOf events).count.raise (countingOf events).history.next with
        afterProviderOnly := false } := by
    rw [countingOf_concat]
    exact counters_start ((countingOf events).show_ ⟨.resumeStarted, payload⟩) _
  have withdrawn : (countingOf (events ++ [⟨.resumeStarted, payload⟩])).withdrawn =
      (countingOf events).withdrawn := by
    rw [countingOf_concat]
    rfl
  show ResumeCount.counters (Counting.result (countingOf (events ++ [_]))) =
    ResumeCount.counters ((Counting.result (countingOf events)).raise _)
  unfold Counting.result ResumeCount.counters
  rw [stepped, withdrawn]
  cases (countingOf events).history.next <;> rfl

/-- What a repair records are the counts once its resume has started. -/
def ResumeRepair.Records (count : ResumeCount) : ResumeRepair → Prop
  | conflictResumeUncounted _ countedResumes conflictOnlyResumes =>
    countedResumes = count.counted ∧ conflictOnlyResumes = count.conflictOnly
  | holdResumeUncounted _ countedResumes holdResumes =>
    countedResumes = count.counted ∧ holdResumes = count.held
  | killResumeUncounted countedResumes killOnlyResumes =>
    countedResumes = count.counted ∧ killOnlyResumes = count.killOnly

theorem resumeStartPlan_records {events : List RunEvent} {main : String} {repair : ResumeRepair}
    {attempt : Nat} {head : String}
    (isRepair : (resumeStartPlan events main).repair = some (repair, attempt, head)) :
    repair.Records
      ((ResumeCount.ofEvents events).raise (resumeStartPlan events main).started) := by
  unfold ResumeStart.started
  rw [isRepair]
  obtain ⟨found, isFound, same⟩ := Option.map_eq_some_iff.mp isRepair
  obtain ⟨rfl, _⟩ := Prod.mk.inj same
  split at isFound
  · obtain rfl := Option.some.inj isFound
    exact ⟨rfl, rfl⟩
  · split at isFound
    · obtain rfl := Option.some.inj isFound
      exact ⟨rfl, rfl⟩
    · split at isFound
      · obtain rfl := Option.some.inj isFound
        exact ⟨rfl, rfl⟩
      · cases isFound

/-- Whatever the events of a run, no count falls below zero and every resume is counted once; and
the next resume, as it starts, is counted where it was planned and nowhere else. -/
theorem resumeStartPlan_agrees (events : List RunEvent) (main : String) (payload : Payload) :
    let plan := resumeStartPlan events main
    let before := ResumeCount.ofEvents events
    let after := ResumeCount.ofEvents (events ++ [⟨.resumeStarted, payload⟩])
    events.foldlM Counting.step? {} = some (countingOf events) ∧
      before.counted + before.conflictOnly + before.killOnly + before.providerOnly + before.held =
        resumes events ∧
      plan.started = (historyOf events).next ∧
      after.counters = (before.raise plan.started).counters ∧
      plan.attempt = resumes events + 1 ∧
      (plan.counted = true ↔ plan.started = .counted) ∧
      ∀ repair attempt head, plan.repair = some (repair, attempt, head) → repair.Records after := by
  intro plan before after
  have total : before.total = resumes events := (total_countingOf events).1
  have started := started_resumeStartPlan events main
  have raised : after.counters = (before.raise plan.started).counters := by
    rw [started, ← History.next_unsent, unsent_historyOf, History.next_unsent]
    exact counters_ofEvents_started events payload
  refine ⟨foldlM_step? events, ?_, started, raised, congrArg (· + 1) total, ?_, ?_⟩
  · rw [← total, ResumeCount.total]
    omega
  · have isNone : plan.counted = plan.repair.isNone := Option.isNone_map.symm
    rw [isNone]
    unfold ResumeStart.started
    cases plan.repair with
    | none => exact iff_of_true rfl rfl
    | some repair => obtain ⟨_ | _ | _, _⟩ := repair <;> simp
  · intro repair attempt head isRepair
    have records := resumeStartPlan_records isRepair
    have same (read : ResumeCount → Nat) : read after.counters =
        read (before.raise plan.started).counters := congrArg read raised
    have counted := same ResumeCount.counted
    cases repair with
    | conflictResumeUncounted basis countedResumes conflictOnlyResumes =>
      exact ⟨records.1.trans counted.symm, records.2.trans (same ResumeCount.conflictOnly).symm⟩
    | holdResumeUncounted hold countedResumes holdResumes =>
      exact ⟨records.1.trans counted.symm, records.2.trans (same ResumeCount.held).symm⟩
    | killResumeUncounted countedResumes killOnlyResumes =>
      exact ⟨records.1.trans counted.symm, records.2.trans (same ResumeCount.killOnly).symm⟩

end Dagq.Resume
