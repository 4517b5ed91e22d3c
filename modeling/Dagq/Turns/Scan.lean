/-
This file reads a request's fate as one scan over the events, a step for each:
looking for the turn that took it, in that turn or a retry of it, at the wall,
read, or lost to a turn that was no retry. The two searches that go over the
events back and forth then follow the events as they are appended.
-/

import Dagq.Turns.Planner

namespace Dagq.Turns

inductive Scan where
  | seeking
  | running (turn : Option Nat)
  | atWall
  | read
  | lost
  deriving DecidableEq

def Scan.step (seq : Nat) (scan : Scan) (event : RunEvent) : Scan :=
  match scan with
  | .seeking =>
    if event.isStarted && event.payload.request == some seq then .running event.payload.turn
    else .seeking
  | .running turn =>
    if event.isFinished && event.payload.turn == turn then
      if event.atWall then .atWall else .read
    else .running turn
  | .atWall =>
    if event.isStarted then
      if event.payload.what == some providerRetry then .running event.payload.turn else .lost
    else .atWall
  | .read => .read
  | .lost => .lost

def scan (events : List RunEvent) (seq : Nat) : Scan := events.foldl (Scan.step seq) .seeking

theorem scan_append (events : List RunEvent) (event : RunEvent) (seq : Nat) :
    scan (events ++ [event]) seq = (scan events seq).step seq event := by
  unfold scan
  rw [List.foldl_append]
  rfl

/-! ### The scan is the search -/

theorem foldl_read (seq : Nat) (events : List RunEvent) :
    events.foldl (Scan.step seq) .read = .read := by
  induction events with
  | nil => rfl
  | cons event rest inductionHypothesis => exact inductionHypothesis

theorem foldl_lost (seq : Nat) (events : List RunEvent) :
    events.foldl (Scan.step seq) .lost = .lost := by
  induction events with
  | nil => rfl
  | cons event rest inductionHypothesis => exact inductionHypothesis

theorem foldl_started (seq : Nat) (events : List RunEvent) :
    (∀ turn, readFrom turn events = true ↔
      events.foldl (Scan.step seq) (.running turn) = .read) ∧
    (retriedFrom events = true ↔ events.foldl (Scan.step seq) .atWall = .read) := by
  induction events with
  | nil => simp [readFrom, retriedFrom]
  | cons event rest inductionHypothesis =>
    obtain ⟨running, atWall⟩ := inductionHypothesis
    refine ⟨fun turn => ?_, ?_⟩
    · rw [readFrom, List.foldl_cons, Scan.step]
      by_cases ended : (event.isFinished && event.payload.turn == turn) = true
      · rw [if_pos ended, if_pos ended]
        by_cases wall : event.atWall = true
        · rw [if_pos wall, wall, ← atWall]
          simp
        · rw [if_neg wall, foldl_read]
          simp [wall]
      · rw [if_neg ended, if_neg ended]
        exact running turn
    · rw [retriedFrom, List.foldl_cons, Scan.step]
      by_cases started : event.isStarted = true
      · rw [if_pos started, if_pos started]
        by_cases retry : (event.payload.what == some providerRetry) = true
        · rw [if_pos retry, retry, Bool.true_and]
          exact running _
        · rw [if_neg retry, foldl_lost]
          simp [retry]
      · rw [if_neg started, if_neg started]
        exact atWall

theorem requestRead_iff_scan (events : List RunEvent) (seq : Nat) :
    requestRead events seq = true ↔ scan events seq = .read := by
  unfold requestRead scan
  induction events with
  | nil => simp
  | cons event rest inductionHypothesis =>
    rw [List.dropWhile_cons, List.foldl_cons, Scan.step]
    by_cases started : (event.isStarted && event.payload.request == some seq) = true
    · rw [if_pos started, started]
      exact (foldl_started seq rest).1 _
    · rw [if_neg started, Bool.eq_false_iff.mpr started]
      exact inductionHypothesis

/-- A request read stays read. -/
theorem requestRead_append {events : List RunEvent} {seq : Nat} (read : requestRead events seq = true)
    (more : List RunEvent) : requestRead (events ++ more) seq = true := by
  rw [requestRead_iff_scan] at read ⊢
  unfold scan at read ⊢
  rw [List.foldl_append, read]
  exact foldl_read seq more

/-! ### What one more event does -/

theorem scan_append_quiet {events : List RunEvent} {event : RunEvent} (started : event.isStarted = false)
    (finished : event.isFinished = false) (seq : Nat) :
    scan (events ++ [event]) seq = scan events seq := by
  rw [scan_append]
  cases scan events seq <;> simp [Scan.step, started, finished]

/-- No turn started from a request the scan still looks for. -/
theorem scan_eq_seeking_iff (events : List RunEvent) (seq : Nat) :
    scan events seq = .seeking ↔
      ∀ event ∈ events, event.isStarted = true → event.payload.request ≠ some seq := by
  induction events using List.reverseRecOn with
  | nil => simp [scan]
  | append_singleton rest event inductionHypothesis =>
    rw [scan_append]
    constructor
    · intro seeking earlier member started named
      cases state : scan rest seq with
      | seeking =>
        rw [state, Scan.step] at seeking
        rcases List.mem_append.mp member with before | last
        · exact inductionHypothesis.mp state earlier before started named
        · rw [List.mem_singleton.mp last] at started named
          simp [started, named] at seeking
      | running turn =>
        rw [state, Scan.step] at seeking
        split_ifs at seeking
      | atWall =>
        rw [state, Scan.step] at seeking
        split_ifs at seeking
      | read =>
        rw [state] at seeking
        cases seeking
      | lost =>
        rw [state] at seeking
        cases seeking
    · intro none
      have before := inductionHypothesis.mpr fun earlier member =>
        none earlier (List.mem_append_left _ member)
      have last := none event (List.mem_append_right _ (List.mem_singleton.mpr rfl))
      rw [before, Scan.step, if_neg]
      simpa using last

theorem turnToRetry_append (events : List RunEvent) (event : RunEvent) :
    turnToRetry (events ++ [event]) =
      if event.isStarted && event.payload.what != some providerRetry then some event
      else turnToRetry events := by
  unfold turnToRetry
  rw [List.reverse_append, List.reverse_singleton, List.singleton_append, List.filter_cons]
  by_cases started : event.isStarted = true
  · rw [if_pos started, List.find?_cons, started, Bool.true_and]
    cases event.payload.what != some providerRetry <;> rfl
  · rw [if_neg started]
    simp [started]

/-- The call to retry is that of a turn that is no retry. -/
theorem turnToRetry_spec {events : List RunEvent} {started : RunEvent}
    (found : turnToRetry events = some started) :
    started ∈ events ∧ started.isStarted = true ∧ started.payload.what ≠ some providerRetry := by
  unfold turnToRetry at found
  have kept := List.mem_filter.mp (List.mem_of_find?_eq_some found)
  have another := List.find?_some found
  exact ⟨List.mem_reverse.mp kept.1, kept.2, by simpa using another⟩

end Dagq.Turns
