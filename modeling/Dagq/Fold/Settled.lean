/-
This file shows what the fold of a run loses: nothing. Its intervals follow each other
from the run's start, through records dated out of order, before the claim or not at
all, to its end, or to now where it has none; and it has an end exactly when its last
dated record is an end, or waits for a push that came.
-/

import Dagq.Fold.Tiling

namespace Dagq.Fold

open Dagq.Ledger Dagq.Lib

/-! ### When a run is settled -/

/-- `push` is to the remote and the branch that the last failed push before the event `before`
recorded. -/
def ToTheSame (events : List RunEvent) (before : Nat) (push : RunEvent) : Prop :=
  ∀ failed, (events.reverse.find? fun event =>
      event.kind = .pushFailed ∧ event.id < before) = some failed →
    ((PushedTo.of failed).remote = none ∨
        (PushedTo.of failed).remote = (PushedTo.of push).remote) ∧
      ((PushedTo.of failed).branch = none ∨
        (PushedTo.of failed).branch = (PushedTo.of push).branch)

/-- `record`, the last of a run, settles it: it is an end, or a wait for a push with a later
push to where the last failed one was. -/
def Settles (events pushes : List RunEvent) (record : Record) : Prop :=
  record.phase = ended ∨
    (record.phase = pushPending ∧ ∃ push ∈ pushes, push.kind = .pushFinished ∧
      record.event.id < push.id ∧ ToTheSame events record.event.id push)

section

variable (events pushes : List RunEvent) (nowMs : Int)

theorem laterPush_isSome (after : Nat) :
    (laterPush events pushes after).isSome = true ↔
      ∃ push ∈ pushes, push.kind = .pushFinished ∧ after < push.id ∧
        ToTheSame events after push := by
  have closes (push : RunEvent) :
      ((((events.reverse.find? fun event =>
          event.kind = .pushFailed ∧ event.id < after).map PushedTo.of).getD
            ⟨none, none⟩).closedBy push after = true) ↔
        push.kind = .pushFinished ∧ after < push.id ∧ ToTheSame events after push := by
    unfold ToTheSame PushedTo.closedBy
    rw [decide_eq_true_iff]
    cases events.reverse.find? fun event => event.kind = .pushFailed ∧ event.id < after with
    | none => simp
    | some failed => simp
  unfold laterPush closingPush
  rw [List.find?_isSome]
  simp only [closes]

theorem lastRecord_settled (record : Record) (start : Int) :
    (lastRecord events pushes nowMs record start).end_.isSome = true ↔
      Settles events pushes record := by
  unfold lastRecord Settles
  by_cases isEnd : record.phase = ended
  · rw [if_pos isEnd]
    exact iff_of_true rfl (Or.inl isEnd)
  · rw [if_neg isEnd, or_iff_right isEnd, ← laterPush_isSome]
    by_cases waits : record.phase = pushPending
    · rw [if_pos waits, and_iff_right waits]
      cases laterPush events pushes record.event.id <;> exact Iff.rfl
    · rw [if_neg waits]
      exact iff_of_false Bool.false_ne_true fun both => waits both.1

/-- The walk of a run's records has an end exactly when the last of them settles the run. -/
theorem walk_settled (records : List Record) (cursor : Int) :
    (walk events pushes nowMs cursor records).end_.isSome = true ↔
      ∃ record, records.getLast? = some record ∧ Settles events pushes record := by
  induction records generalizing cursor with
  | nil => exact iff_of_false Bool.false_ne_true fun ⟨_, none_, _⟩ => nomatch none_
  | cons record rest inductionHypothesis =>
    cases rest with
    | nil =>
      refine (lastRecord_settled events pushes nowMs record _).trans ⟨fun settles => ?_, ?_⟩
      · exact ⟨record, rfl, settles⟩
      · rintro ⟨_, ⟨⟩, settles⟩
        exact settles
    | cons next rest =>
      rw [List.getLast?_cons_cons]
      exact inductionHypothesis _

/-! ### Where the last record starts -/

/-- Without an end, the last interval is the last record's. -/
theorem walk_last (record : Record) (rest : List Record) (cursor : Int)
    (unsettled : (walk events pushes nowMs cursor (record :: rest)).end_ = none) :
    ∃ interval, (walk events pushes nowMs cursor (record :: rest)).intervals.getLast? =
        some interval ∧
      interval.start = lastStart cursor (record :: rest) := by
  induction rest generalizing record cursor with
  | nil =>
    change (lastRecord events pushes nowMs record (max record.at_ cursor)).end_ = none at unsettled
    show ∃ interval, (lastRecord events pushes nowMs record _).intervals.getLast? = _ ∧ _
    unfold lastRecord at unsettled ⊢
    by_cases isEnd : record.phase = ended
    · rw [if_pos isEnd] at unsettled
      cases unsettled
    · rw [if_neg isEnd] at unsettled ⊢
      cases push : (if record.phase = pushPending then laterPush events pushes record.event.id
        else none) with
      | some push =>
        rw [push] at unsettled
        cases unsettled
      | none => exact ⟨_, rfl, record.interval_start _ _⟩
  | cons next rest inductionHypothesis =>
    obtain ⟨interval, isLast, starts⟩ := inductionHypothesis next _ unsettled
    refine ⟨interval, ?_, ?_⟩
    · show (_ :: _ : List Interval).getLast? = some interval
      rw [List.getLast?_cons, isLast]
      rfl
    · rw [starts]
      show lastStart (max next.at_ (max next.at_ (max record.at_ cursor))) rest = _
      rw [max_eq_right (le_max_left next.at_ _)]
      rfl

end

/-! ### A run's life -/

/-- The intervals of a run's life follow each other from its start to its end. Without an end,
the last record's interval, from its start on, ends at now or at once. The run has an end
exactly when its last dated record settles it. -/
theorem foldRun_follows {events pushes : List RunEvent} {nowMs : Int} {life : RunLife}
    (folded : foldRun events pushes nowMs = some life) :
    life.intervals.IsChain (fun before after => after.start = before.end_) ∧
      (∀ interval ∈ life.intervals, interval.start ≤ interval.end_) ∧
      (∀ first, life.intervals.head? = some first → first.start = life.start) ∧
      (∀ last, life.intervals.getLast? = some last →
        last.end_ =
          life.end_.getD (max nowMs (lastStart life.start (recordsOf events)))) ∧
      (life.intervals = [] →
        life.start = life.end_.getD (max nowMs (lastStart life.start (recordsOf events)))) ∧
      (life.end_ = none → recordsOf events ≠ [] →
        ∃ last, life.intervals.getLast? = some last ∧
          last.start = lastStart life.start (recordsOf events)) ∧
      (life.end_.isSome = true ↔
        ∃ record, (recordsOf events).getLast? = some record ∧ Settles events pushes record) := by
  have laid := foldRun_laid events pushes nowMs folded
  obtain ⟨firstAt, -, -, intervals, end_⟩ := foldRun_spec events pushes nowMs folded
  refine ⟨laid.chain, laid.long_of_mem, laid.head, laid.last_ends, ?_, ?_, ?_⟩
  · intro none_
    rw [none_] at laid
    exact laid
  · intro unsettled recorded
    obtain ⟨record, rest, records⟩ := List.exists_cons_of_ne_nil recorded
    rw [end_, records] at unsettled
    obtain ⟨last, isLast, starts⟩ := walk_last events pushes nowMs record rest _ unsettled
    refine ⟨last, ?_, records ▸ starts⟩
    rw [intervals, records, List.getLast?_append, isLast]
    rfl
  · rw [end_]
    exact walk_settled events pushes nowMs _ _

/-- A run claimed at one o'clock, whose push to the branch `main` failed and came an hour on. -/
def pushedRun : List RunEvent :=
  [{ id := 4, runId := some "run", kind := .runClaimed, createdAt := "1970-01-01T01:00:00Z" },
    { id := 6, runId := some "run", kind := .pushFailed, createdAt := "1970-01-01T02:00:00Z"
      payload := .object [("branch", .text "main")] },
    { id := 7, runId := some "run", kind := .runPhaseChanged, createdAt := "1970-01-01T02:00:00Z"
      payload := .object [("phase", .text "push_pending"), ("blocker", .text "external"),
        ("holds", .text "none")] }]

def laterPushes : List RunEvent :=
  [{ id := 9, runId := some "other", kind := .pushFinished, createdAt := "1970-01-01T03:00:00Z"
     payload := .object [("branch", .text "main")] }]

def pushedLife : RunLife where
  start := 3600000
  intervals :=
    [.unattributed 3600000 7200000, .tagged "push_pending" .external .none 7200000 10800000]
  end_ := some 10800000
  outcome := some "pushed"
  closedBy := some "other"
  milestones := { claimed := some 3600000 }
  inputsThrough := 9

theorem foldRun_follows_pushed :
    pushedLife.intervals.IsChain (fun before after => after.start = before.end_) ∧
      (∀ interval ∈ pushedLife.intervals, interval.start ≤ interval.end_) ∧
      (∀ first, pushedLife.intervals.head? = some first → first.start = pushedLife.start) ∧
      (∀ last, pushedLife.intervals.getLast? = some last →
        last.end_ = pushedLife.end_.getD
          (max 14400000 (lastStart pushedLife.start (recordsOf pushedRun)))) ∧
      (pushedLife.intervals = [] → pushedLife.start = pushedLife.end_.getD
        (max 14400000 (lastStart pushedLife.start (recordsOf pushedRun)))) ∧
      (pushedLife.end_ = none → recordsOf pushedRun ≠ [] →
        ∃ last, pushedLife.intervals.getLast? = some last ∧
          last.start = lastStart pushedLife.start (recordsOf pushedRun)) ∧
      (pushedLife.end_.isSome = true ↔
        ∃ record, (recordsOf pushedRun).getLast? = some record ∧
          Settles pushedRun laterPushes record) :=
  foldRun_follows (show foldRun pushedRun laterPushes 14400000 = some pushedLife by decide)

end Dagq.Fold
