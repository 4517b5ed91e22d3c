/-
This file derives the bounds on a run's resumes. A resume starts only while none
of its limits is used up, so a count grows only below its limit; one taken out as
it finishes at its provider's wall was started below the limit of those. Each
hold's park lets one resume more start, so without one the resumes are bounded.
-/

import Dagq.Lib.Transition
import Dagq.Resume.Count

namespace Dagq.Resume

open Dagq.Lib

/-! ### Parks of a hold -/

/-- An event leaves the park as it is, parks the run, or starts its resume. -/
theorem History.seeKind_cases (history : History) (event : RunEvent) :
    ((history.seeKind event).conflict = history.conflict ∧
      (history.seeKind event).held = history.held ∧ event.kind ≠ .resumeStarted) ∨
    (history.seeKind event = history.park event ∧ event.kind ≠ .resumeStarted) ∨
    ((history.seeKind event).conflict = history.conflict ∧
      (history.seeKind event).held = false ∧ event.kind = .resumeStarted) := by
  unfold seeKind
  split
  · rename_i approved
    exact Or.inl ⟨rfl, rfl, by rw [approved]; decide⟩
  · split
    · rename_i reviewed
      exact Or.inl ⟨rfl, rfl, by rw [reviewed]; decide⟩
    · split
      · rename_i judged
        have kind : event.kind = .reviseLimitJudged :=
          of_decide_eq_true (Bool.and_eq_true_iff.mp judged).1
        exact Or.inl ⟨rfl, rfl, by rw [kind]; decide⟩
      · split
        · rename_i parked
          refine Or.inr (Or.inl ⟨rfl, fun started => ?_⟩)
          unfold parks recheckParks at parked
          rw [started] at parked
          cases parked
        · split
          · rename_i started
            exact Or.inr (Or.inr ⟨rfl, rfl, started⟩)
          · rename_i other
            exact Or.inl ⟨rfl, rfl, other⟩

theorem History.see_held (history : History) (event : RunEvent) :
    (history.see event).held = (history.seeKind event).held := by
  unfold see
  split <;> rfl

theorem History.see_conflict (history : History) (event : RunEvent) :
    (history.see event).conflict = (history.seeKind event).conflict := by
  unfold see
  split <;> rfl

/-- A hold's park is no conflict's. -/
def History.Apart (history : History) : Prop := history.held = true → history.conflict = false

theorem History.Apart.see {history : History} (apart : history.Apart) (event : RunEvent) :
    (history.see event).Apart := by
  unfold Apart
  rw [History.see_held, History.see_conflict]
  rcases history.seeKind_cases event with ⟨conflict, held, _⟩ | ⟨isPark, _⟩ | ⟨_, held, _⟩
  · rw [conflict, held]
    exact apart
  · rw [isPark]
    intro held
    have isHold : event.kind = .holdParked := of_decide_eq_true held
    show ((decide (event.kind = .integrationDeferred) ||
      decide (event.kind = .landingRecheckFailed)) && _) = false
    rw [isHold]
    rfl
  · rw [held]
    intro never
    cases never

/-- Only a hold's park marks the run held, and a resume takes the mark. -/
theorem History.see_held_le (history : History) (event : RunEvent)
    (noHold : event.kind ≠ .holdParked) :
    (history.see event).held = true → history.held = true ∧ event.kind ≠ .resumeStarted := by
  rw [History.see_held]
  intro held
  rcases history.seeKind_cases event with ⟨_, same, other⟩ | ⟨isPark, _⟩ | ⟨_, taken, _⟩
  · exact ⟨same ▸ held, other⟩
  · rw [isPark] at held
    exact absurd (of_decide_eq_true held) noHold
  · rw [taken] at held
    cases held

/-! ### What one event does to the counts -/

/-- Whether a resume was counted where it may be taken out again. -/
def Started.fenced : Started → Bool
  | .counted | .conflictOnly => true
  | .held | .killOnly => false

/-- What the counts of a run keep while none of its limits is passed. -/
structure Within (config : ResumeConfig) (state : Counting) : Prop where
  apart : state.history.Apart
  counted : state.count.counted ≤ maxResumeAttempts
  killOnly : state.count.killOnly ≤ killOnlyResumeLimit
  providerOnly : state.count.providerOnly ≤ providerOnlyResumeLimit
  conflictOnly : state.count.conflictOnly ≤ config.conflictOnlyLimit
  /-- A resume that may be taken out was started below the limit of those. -/
  takes : ∀ started sentBack facts, state.resuming = some (started, sentBack, facts) →
    started.fenced = true → state.count.providerOnly < providerOnlyResumeLimit

/-- A hold's resume is stopped by no limit, and any other starts below them all. -/
theorem below_of_not_exhausted {config : ResumeConfig} {state : Counting}
    (left : state.result.exhausted config = false) (unheld : state.history.held = false) :
    state.count.counted < maxResumeAttempts ∧ state.count.killOnly < killOnlyResumeLimit ∧
      state.count.providerOnly < providerOnlyResumeLimit ∧
      (state.history.conflictOnly = true → state.count.conflictOnly < config.conflictOnlyLimit) := by
  have free : (!state.history.held) = true := by
    rw [unheld]
    rfl
  have used : (decide (state.count.counted ≥ maxResumeAttempts) ||
      decide (state.count.killOnly ≥ killOnlyResumeLimit) ||
      decide (state.count.providerOnly ≥ providerOnlyResumeLimit) ||
      (decide (state.count.conflictOnly ≥ config.conflictOnlyLimit) && !state.history.sentBack) ||
      (state.history.conflictOnly && decide (state.count.conflictOnly +
        (state.count.conflictRequests - state.withdrawn) ≥ config.conflictOnlyLimit))) = false := by
    have whole : (!state.history.held && _) = false := left
    rw [free, Bool.true_and] at whole
    exact whole
  simp only [Bool.or_eq_false_iff, decide_eq_false_iff_not, not_le, Bool.and_eq_false_iff,
    ge_iff_le] at used
  obtain ⟨⟨⟨⟨counted, killOnly⟩, providerOnly⟩, _⟩, conflict⟩ := used
  refine ⟨counted, killOnly, providerOnly, fun parked => ?_⟩
  rcases conflict with notParked | below
  · rw [parked] at notParked
    cases notParked
  · exact (Nat.le_add_right _ _).trans_lt below

theorem Within.seen {config : ResumeConfig} {state : Counting} (within : Within config state)
    (event : RunEvent) : Within config (state.show_ event) := by
  refine ⟨within.apart, within.counted, within.killOnly, within.providerOnly, within.conflictOnly,
    fun started sentBack facts resumes fenced => ?_⟩
  obtain ⟨⟨before, sent, shown⟩, resuming, same⟩ := Option.map_eq_some_iff.mp resumes
  cases same
  exact within.takes _ _ _ resuming fenced

/-- A resume that starts while none of the limits is used up passes none. -/
theorem Within.start {config : ResumeConfig} {state : Counting} (within : Within config state)
    (event : RunEvent) (left : state.result.exhausted config = false) :
    Within config (state.start event) := by
  have apart := within.apart.see event
  have unheld : state.history.conflictOnly = true → state.history.held = false := by
    intro conflict
    refine eq_false_of_ne_true fun held => ?_
    have none := within.apart held
    rw [History.conflictOnly, none] at conflict
    cases conflict
  unfold Counting.start
  split
  rename_i count started starts
  by_cases conflict : state.history.conflictOnly = true
  · rw [if_pos conflict] at starts
    cases starts
    obtain ⟨_, _, providerOnly, below⟩ := below_of_not_exhausted left (unheld conflict)
    exact ⟨apart, within.counted, within.killOnly, within.providerOnly, below conflict,
      fun _ _ _ _ _ => providerOnly⟩
  · rw [if_neg conflict] at starts
    by_cases held : state.history.holdOnly = true
    · rw [if_pos held] at starts
      cases starts
      refine ⟨apart, within.counted, within.killOnly, within.providerOnly, within.conflictOnly,
        fun started sentBack facts resumes fenced => ?_⟩
      cases resumes
      cases fenced
    · rw [if_neg held] at starts
      obtain ⟨counted, killOnly, providerOnly, _⟩ :=
        below_of_not_exhausted left (eq_false_of_ne_true held)
      by_cases killed : state.history.killOnly = true
      · rw [if_pos killed] at starts
        cases starts
        exact ⟨apart, within.counted, killOnly, within.providerOnly, within.conflictOnly,
          fun _ _ _ _ _ => providerOnly⟩
      · rw [if_neg killed] at starts
        cases starts
        exact ⟨apart, counted, within.killOnly, within.providerOnly, within.conflictOnly,
          fun _ _ _ _ _ => providerOnly⟩

theorem Within.finish {config : ResumeConfig} {state : Counting} (within : Within config state)
    (event : RunEvent) : Within config (state.finish event) := by
  have apart := within.apart.see event
  have ended : Within config
      { state with resuming := none, history := state.history.see event } :=
    ⟨apart, within.counted, within.killOnly, within.providerOnly, within.conflictOnly, nofun⟩
  unfold Counting.finish
  simp only
  split
  · exact ended
  · rename_i started sentBack facts resumes
    split
    · split
      · rename_i fenced
        rcases (Bool.or_eq_true _ _).mp fenced with counted | conflict
        · obtain rfl : started = .counted := of_decide_eq_true counted
          exact ⟨apart, (Nat.sub_le _ _).trans within.counted, within.killOnly,
            within.takes _ _ _ resumes rfl, within.conflictOnly, nofun⟩
        · obtain rfl : started = .conflictOnly := of_decide_eq_true conflict
          exact ⟨apart, within.counted, within.killOnly, within.takes _ _ _ resumes rfl,
            (Nat.sub_le _ _).trans within.conflictOnly, nofun⟩
      · exact ⟨apart, within.counted, within.killOnly, within.providerOnly, within.conflictOnly,
          nofun⟩
    · exact ended

theorem Within.step {config : ResumeConfig} {state : Counting} (within : Within config state)
    (event : RunEvent)
    (left : event.kind = .resumeStarted → state.result.exhausted config = false) :
    Within config (state.step event) := by
  have seen := within.seen event
  have apart := seen.apart.see event
  unfold Counting.step
  simp only
  split
  · rename_i started
    exact seen.start event (left started)
  · exact seen.finish event
  · exact ⟨apart, seen.counted, seen.killOnly, seen.providerOnly, seen.conflictOnly, seen.takes⟩
  · exact ⟨apart, seen.counted, seen.killOnly, seen.providerOnly, seen.conflictOnly, seen.takes⟩

/-! ### Every resume is counted once -/

/-- The resumes of a run. -/
def resumes (events : List RunEvent) : Nat :=
  events.countP fun event => event.kind = .resumeStarted

/-- What is taken out was counted there. -/
def Backed (state : Counting) : Prop :=
  ∀ started sentBack facts, state.resuming = some (started, sentBack, facts) →
    (started = .counted → 0 < state.count.counted) ∧
      (started = .conflictOnly → 0 < state.count.conflictOnly)

/-- A resume that starts is counted once, and backed. -/
theorem total_start (state : Counting) (event : RunEvent) :
    (state.start event).count.total = state.count.total + 1 ∧ Backed (state.start event) := by
  unfold Counting.start
  split
  rename_i count started starts
  unfold ResumeCount.total Backed
  by_cases conflict : state.history.conflictOnly = true
  · rw [if_pos conflict] at starts
    cases starts
    refine ⟨by simp only; omega, fun _ _ _ same => ?_⟩
    cases same
    exact ⟨nofun, fun _ => Nat.succ_pos _⟩
  · rw [if_neg conflict] at starts
    by_cases held : state.history.holdOnly = true
    · rw [if_pos held] at starts
      cases starts
      refine ⟨by simp only; omega, fun _ _ _ same => ?_⟩
      cases same
      exact ⟨nofun, nofun⟩
    · rw [if_neg held] at starts
      by_cases killed : state.history.killOnly = true
      · rw [if_pos killed] at starts
        cases starts
        refine ⟨by simp only; omega, fun _ _ _ same => ?_⟩
        cases same
        exact ⟨nofun, nofun⟩
      · rw [if_neg killed] at starts
        cases starts
        refine ⟨by simp only; omega, fun _ _ _ same => ?_⟩
        cases same
        exact ⟨fun _ => Nat.succ_pos _, nofun⟩

/-- A resume taken out as it finishes moves from one count to another. -/
theorem total_finish {state : Counting} (backed : Backed state) (event : RunEvent) :
    (state.finish event).count.total = state.count.total ∧ Backed (state.finish event) := by
  unfold Counting.finish
  simp only
  split
  · exact ⟨rfl, nofun⟩
  · rename_i started sentBack facts resumes
    split
    · split
      · rename_i fenced
        rcases (Bool.or_eq_true _ _).mp fenced with counted | conflict
        · obtain rfl : started = .counted := of_decide_eq_true counted
          have positive := (backed _ _ _ resumes).1 rfl
          refine ⟨?_, nofun⟩
          simp only [Counting.takeOut, ResumeCount.total]
          omega
        · obtain rfl : started = .conflictOnly := of_decide_eq_true conflict
          have positive := (backed _ _ _ resumes).2 rfl
          refine ⟨?_, nofun⟩
          simp only [Counting.takeOut, ResumeCount.total]
          omega
      · exact ⟨rfl, nofun⟩
    · exact ⟨rfl, nofun⟩

theorem total_step {state : Counting} (backed : Backed state) (event : RunEvent) :
    (state.step event).count.total =
        state.count.total + (if event.kind = .resumeStarted then 1 else 0) ∧
      Backed (state.step event) := by
  have seen : Backed (state.show_ event) := by
    intro started sentBack facts resumes
    obtain ⟨⟨before, sent, shown⟩, resuming, same⟩ := Option.map_eq_some_iff.mp resumes
    cases same
    exact backed _ _ _ resuming
  unfold Counting.step
  simp only
  split
  · rename_i started
    rw [if_pos started]
    exact total_start (state.show_ event) event
  · rename_i finished
    rw [if_neg (by rw [finished]; decide)]
    exact total_finish seen event
  · rename_i requested
    rw [if_neg (by rw [requested]; decide)]
    exact ⟨rfl, seen⟩
  · rename_i other _ _
    rw [if_neg other]
    exact ⟨rfl, seen⟩

/-! ### A hold's resume follows its park -/

/-- The holds' resumes, with the one a hold's park lets start. -/
def heldLoad (state : Counting) : Nat :=
  state.count.held + if state.history.held then 1 else 0

theorem heldLoad_see {state after : Counting} (event : RunEvent)
    (noHold : event.kind ≠ .holdParked) (counts : after.count.held = state.count.held)
    (sees : after.history.held = (state.history.see event).held) :
    heldLoad after ≤ heldLoad state := by
  unfold heldLoad
  rw [counts, sees]
  refine Nat.add_le_add_left ?_ _
  by_cases held : (state.history.see event).held = true
  · rw [if_pos held, if_pos (History.see_held_le _ _ noHold held).1]
  · rw [if_neg held]
    exact Nat.zero_le _

theorem heldLoad_start (state : Counting) {event : RunEvent} (started : event.kind = .resumeStarted) :
    heldLoad (state.start event) ≤ heldLoad state := by
  have taken : (state.history.see event).held = false := by
    refine eq_false_of_ne_true fun held => ?_
    have noHold : event.kind ≠ .holdParked := by
      rw [started]
      decide
    exact (History.see_held_le _ _ noHold held).2 started
  unfold heldLoad Counting.start
  split
  rename_i count placed starts
  show count.held + (if (state.history.see event).held = true then 1 else 0) ≤ _
  rw [taken]
  by_cases conflict : state.history.conflictOnly = true
  · rw [if_pos conflict] at starts
    cases starts
    exact Nat.le_add_right _ _
  · rw [if_neg conflict] at starts
    by_cases held : state.history.holdOnly = true
    · rw [if_pos held] at starts
      cases starts
      rw [if_pos (show state.history.held = true from held)]
      exact le_rfl
    · rw [if_neg held] at starts
      by_cases killed : state.history.killOnly = true
      · rw [if_pos killed] at starts
        cases starts
        exact Nat.le_add_right _ _
      · rw [if_neg killed] at starts
        cases starts
        exact Nat.le_add_right _ _

theorem heldLoad_step (state : Counting) {event : RunEvent} (noHold : event.kind ≠ .holdParked) :
    heldLoad (state.step event) ≤ heldLoad state := by
  unfold Counting.step
  simp only
  split
  · rename_i started
    exact heldLoad_start (state.show_ event) started
  · refine @heldLoad_see (state.show_ event) _ event noHold ?_ ?_
    · unfold Counting.finish
      simp only
      split
      · rfl
      · rename_i started _ _ _
        split
        · split
          · cases started <;> rfl
          · rfl
        · rfl
    · unfold Counting.finish
      simp only
      split
      · rfl
      · split
        · split <;> rfl
        · rfl
  · exact @heldLoad_see (state.show_ event) _ event noHold rfl rfl
  · exact @heldLoad_see (state.show_ event) _ event noHold rfl rfl

/-! ### A run of events -/

/-- The fold over the events of a run. -/
def countingOf (events : List RunEvent) : Counting := events.foldl Counting.step {}

theorem countingOf_concat (events : List RunEvent) (event : RunEvent) :
    countingOf (events ++ [event]) = (countingOf events).step event := by
  unfold countingOf
  rw [List.foldl_append]
  rfl

/-- An event is appended; a resume starts only while the run's resumes are not used up. -/
def ResumeStep (config : ResumeConfig) (before after : List RunEvent) : Prop :=
  ∃ event, (event.kind = .resumeStarted →
    (ResumeCount.ofEvents before).exhausted config = false) ∧ after = before ++ [event]

/-- The histories of a run. -/
abbrev ResumesReached (config : ResumeConfig) : List RunEvent → Prop :=
  Reachable [] (ResumeStep config)

theorem within_of_reached {config : ResumeConfig} {events : List RunEvent}
    (reached : ResumesReached config events) : Within config (countingOf events) := by
  refine reached.invariant (fun events => Within config (countingOf events)) ?_ ?_
  · exact ⟨nofun, Nat.zero_le _, Nat.zero_le _, Nat.zero_le _, Nat.zero_le _, nofun⟩
  · rintro before after _ within ⟨event, left, rfl⟩
    rw [countingOf_concat]
    exact within.step event left

/-- The resumes counted are those started, and what is taken out was counted there. -/
theorem total_countingOf (events : List RunEvent) :
    (countingOf events).count.total = resumes events ∧ Backed (countingOf events) := by
  induction events using List.reverseRecOn with
  | nil => exact ⟨rfl, nofun⟩
  | append_singleton events event inductionHypothesis =>
    obtain ⟨total, backed⟩ := inductionHypothesis
    obtain ⟨more, backed⟩ := total_step backed event
    rw [countingOf_concat]
    refine ⟨?_, backed⟩
    rw [more, total, resumes, resumes, List.countP_append, List.countP_singleton]
    simp only [decide_eq_true_eq]

theorem heldLoad_append (events stretch : List RunEvent)
    (noHold : ∀ event ∈ stretch, event.kind ≠ .holdParked) :
    heldLoad (countingOf (events ++ stretch)) ≤ heldLoad (countingOf events) := by
  induction stretch using List.reverseRecOn with
  | nil => rw [List.append_nil]
  | append_singleton stretch event inductionHypothesis =>
    rw [← List.append_assoc, countingOf_concat]
    have last := noHold event (List.mem_append_right _ List.mem_cons_self)
    exact (heldLoad_step _ last).trans (inductionHypothesis fun other member =>
      noHold other (List.mem_append_left _ member))

/-- A stretch without a hold's park starts so many resumes at most. -/
theorem resumes_stretch {config : ResumeConfig} {events stretch : List RunEvent}
    (reached : ResumesReached config (events ++ stretch))
    (noHold : ∀ event ∈ stretch, event.kind ≠ .holdParked) :
    resumes stretch ≤ maxResumeAttempts + config.conflictOnlyLimit + killOnlyResumeLimit +
      providerOnlyResumeLimit + 1 := by
  have within := within_of_reached reached
  have whole := (total_countingOf (events ++ stretch)).1
  have before := (total_countingOf events).1
  have split : resumes (events ++ stretch) = resumes events + resumes stretch :=
    List.countP_append
  have held := heldLoad_append events stretch noHold
  have flag : heldLoad (countingOf events) ≤ (countingOf events).count.held + 1 := by
    unfold heldLoad
    split <;> omega
  have least : (countingOf (events ++ stretch)).count.held ≤
      heldLoad (countingOf (events ++ stretch)) := Nat.le_add_right _ _
  have counted := within.counted
  have conflictOnly := within.conflictOnly
  have killOnly := within.killOnly
  have providerOnly := within.providerOnly
  unfold ResumeCount.total at whole before
  omega

/-- In every history of a run whose resumes start while they are not used up, each count stays
within its limit, and a stretch without a hold's park starts a bounded number of resumes. -/
theorem resumes_limited {config : ResumeConfig} {events : List RunEvent}
    (reached : ResumesReached config events) :
    (ResumeCount.ofEvents events).counted ≤ maxResumeAttempts ∧
      (ResumeCount.ofEvents events).killOnly ≤ killOnlyResumeLimit ∧
      (ResumeCount.ofEvents events).providerOnly ≤ providerOnlyResumeLimit ∧
      (ResumeCount.ofEvents events).conflictOnly ≤ config.conflictOnlyLimit ∧
      (∀ earlier stretch, events = earlier ++ stretch →
        (∀ event ∈ stretch, event.kind ≠ .holdParked) →
        resumes stretch ≤ maxResumeAttempts + config.conflictOnlyLimit + killOnlyResumeLimit +
          providerOnlyResumeLimit + 1) := by
  have within := within_of_reached reached
  refine ⟨within.counted, within.killOnly, within.providerOnly, within.conflictOnly, ?_⟩
  rintro earlier stretch rfl noHold
  exact resumes_stretch reached noHold

/-- A run parked for a conflict after its review passed, and resumed. -/
def conflictRun : List RunEvent :=
  [⟨.reviewFinished, { verdict := some "pass" }⟩,
    ⟨.integrationDeferred, { code := some "rebase_conflict" }⟩, ⟨.resumeStarted, {}⟩]

theorem reached_conflictRun : ResumesReached {} conflictRun := by
  refine .step (.step (.step .start
    ⟨⟨.reviewFinished, { verdict := some "pass" }⟩, fun started => (by cases started), rfl⟩)
    ⟨⟨.integrationDeferred, { code := some "rebase_conflict" }⟩, fun started => (by cases started),
      rfl⟩) ⟨⟨.resumeStarted, {}⟩, fun _ => ?_, rfl⟩
  decide

theorem resumes_limited_conflict :
    (ResumeCount.ofEvents conflictRun).conflictOnly = 1 ∧
      (ResumeCount.ofEvents conflictRun).conflictOnly ≤ 5 :=
  ⟨by decide, (resumes_limited reached_conflictRun).2.2.2.1⟩

end Dagq.Resume
