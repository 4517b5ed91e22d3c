/-
This file proves when reading a session's growing events in stretches records what one
reading of them all does, turns that do not overlap: just when no turn's end follows
another's directly, but for a first at the span's start, and no turn that began in the
millisecond it ended in is followed by another's end in that millisecond.
-/

import Dagq.Lib.Fresh
import Dagq.Headless.Span

namespace Dagq.Headless

open Dagq.Ledger Dagq.Lib Dagq.Tokens

/-! ### The marks of turns -/

/-- The start or the end of a turn, at its time. -/
inductive Mark where
  | started (at_ : Int)
  | finished (at_ : Int)
  deriving DecidableEq, Repr

def Mark.at_ : Mark → Int
  | started at_ | finished at_ => at_

def Mark.isStarted : Mark → Bool
  | started _ => true
  | finished _ => false

/-- The mark that an event is, where its kind is a turn's and its time can be read. -/
def markOf (event : RunEvent) : Option Mark :=
  event.millis.bind fun at_ =>
    if event.kind = turnStarted then some (.started at_)
    else if event.kind = turnFinished then some (.finished at_)
    else none

def marksOf (events : List RunEvent) : List Mark := events.filterMap markOf

/-- The marks with the end of a turn still running, where the last reading cuts it. -/
def closing (marks : List Mark) (now : Option Int) : List Mark :=
  match marks.getLast?, now with
  | some (.started begun), some now => marks ++ [.finished (max now begun)]
  | _, _ => marks

/-- The turn that ends at `at_` after these marks began in that millisecond; times before the
span's start count as the start. -/
def BeganAt (start : Int) (before : List Mark) (at_ : Int) : Prop :=
  (∃ begun, before.getLast? = some (.started begun) ∧ max begun start = max at_ start) ∨
    ((∀ begun, before.getLast? ≠ some (.started begun)) ∧ at_ ≤ start)

/-- The ends of turns are separate: only after one at or before the span's start does another follow
with no start between, and after a turn that began in the millisecond it ended in the next end
is in a later millisecond. -/
structure Separate (start : Int) (marks : List Mark) : Prop where
  bare : ∀ before first second after,
    marks = before ++ .finished first :: .finished second :: after → first ≤ start
  empty : ∀ before first between second after,
    marks = before ++ .finished first :: (between ++ .finished second :: after) →
    (∀ mark ∈ between, mark.isStarted = true) → BeganAt start before first →
    max first start < max second start

/-! ### Turns read off the marks -/

/-- The turn that ends at `at_`. -/
def turnAt (start : Int) (running : Option Int) (at_ : Int) : Turn :=
  ⟨running.getD start, max at_ (running.getD start)⟩

/-- The turns that end among the marks, with one running before them. -/
def turnsFrom (start : Int) : Option Int → List Mark → List Turn
  | _, [] => []
  | _, .started at_ :: rest => turnsFrom start (some (max at_ start)) rest
  | running, .finished at_ :: rest => turnAt start running at_ :: turnsFrom start none rest

/-- The start of the turn that runs after the marks. -/
def runningAfter (start : Int) : Option Int → List Mark → Option Int
  | running, [] => running
  | _, .started at_ :: rest => runningAfter start (some (max at_ start)) rest
  | _, .finished _ :: rest => runningAfter start none rest

section Marks

variable {start : Int} {running : Option Int}

theorem turnsFrom_append (first second : List Mark) :
    turnsFrom start running (first ++ second) =
      turnsFrom start running first ++
        turnsFrom start (runningAfter start running first) second := by
  induction first generalizing running with
  | nil => rfl
  | cons mark rest inductionHypothesis =>
    cases mark with
    | started at_ => exact inductionHypothesis
    | finished at_ => exact congrArg (turnAt start running at_ :: ·) inductionHypothesis

theorem runningAfter_append (first second : List Mark) :
    runningAfter start running (first ++ second) =
      runningAfter start (runningAfter start running first) second := by
  induction first generalizing running with
  | nil => rfl
  | cons mark rest inductionHypothesis =>
    cases mark <;> exact inductionHypothesis

@[simp] theorem runningAfter_concat (marks : List Mark) (mark : Mark) :
    runningAfter start running (marks ++ [mark]) =
      if mark.isStarted then some (max mark.at_ start) else none := by
  rw [runningAfter_append]
  cases mark <;> rfl

theorem turnsFrom_of_started {marks : List Mark}
    (all : ∀ mark ∈ marks, mark.isStarted = true) : turnsFrom start running marks = [] := by
  induction marks generalizing running with
  | nil => rfl
  | cons mark rest inductionHypothesis =>
    obtain ⟨isStarted, later⟩ := List.forall_mem_cons.mp all
    cases mark with
    | started at_ => exact inductionHypothesis later
    | finished at_ => cases isStarted

/-- A turn among those read off is the one that ends at one of the marks. -/
theorem turnsFrom_split {marks : List Mark} {earlier later : List Turn} {turn : Turn}
    (split : turnsFrom start running marks = earlier ++ turn :: later) :
    ∃ before at_ after, marks = before ++ .finished at_ :: after ∧
      turnsFrom start running before = earlier ∧
      turn = turnAt start (runningAfter start running before) at_ ∧
      turnsFrom start none after = later := by
  induction marks generalizing running earlier with
  | nil => exact absurd split.symm (by simp [turnsFrom])
  | cons mark rest inductionHypothesis =>
    cases mark with
    | started begun =>
      obtain ⟨before, at_, after, rfl, isEarlier, isTurn, isLater⟩ := inductionHypothesis split
      exact ⟨.started begun :: before, at_, after, rfl, isEarlier, isTurn, isLater⟩
    | finished end_ =>
      cases earlier with
      | nil =>
        obtain ⟨isTurn, isLater⟩ := List.cons.inj split
        exact ⟨[], end_, rest, rfl, rfl, isTurn.symm, isLater⟩
      | cons head tail =>
        obtain ⟨isHead, isTail⟩ := List.cons.inj split
        obtain ⟨before, at_, after, rfl, isEarlier, isTurn, isLater⟩ := inductionHypothesis isTail
        refine ⟨.finished end_ :: before, at_, after, rfl, ?_, isTurn, isLater⟩
        rw [turnsFrom, isHead, isEarlier]

theorem started_of_turnsFrom {marks : List Mark} (noTurns : turnsFrom start running marks = []) :
    ∀ mark ∈ marks, mark.isStarted = true := by
  intro mark isMark
  obtain ⟨before, after, rfl⟩ := List.append_of_mem isMark
  cases mark with
  | started at_ => rfl
  | finished at_ =>
    rw [turnsFrom_append, turnsFrom] at noTurns
    exact absurd noTurns (by simp)

theorem turnsFrom_start_le {marks : List Mark} :
    ∀ turn ∈ turnsFrom start running marks, turn.start ≤ turn.end_ := by
  intro turn isTurn
  obtain ⟨earlier, later, split⟩ := List.append_of_mem isTurn
  obtain ⟨before, at_, after, _, _, rfl, _⟩ := turnsFrom_split split
  exact le_max_right _ _

end Marks

/-! ### Two ends with only starts between -/

/-- The first turn ends no later than the second starts, and the second ends later than the first
started. -/
def Before (one two : Turn) : Prop :=
  one.start ≤ one.end_ ∧ one.end_ ≤ two.start ∧ two.start ≤ two.end_ ∧ one.start < two.end_

instance : IsTrans Turn Before where
  trans one two three first second := by
    obtain ⟨oneRuns, oneFirst, twoRuns, _⟩ := first
    obtain ⟨_, twoFirst, threeRuns, _⟩ := second
    exact ⟨oneRuns, by omega, threeRuns, by omega⟩

/-- Turns are apart just when each is before the next. -/
theorem apart_iff_isChain {turns : List Turn} (runs : ∀ turn ∈ turns, turn.start ≤ turn.end_) :
    turns.Pairwise (Apart Turn.start Turn.end_) ↔ turns.IsChain Before := by
  rw [List.isChain_iff_pairwise]
  refine ⟨fun apart => apart.imp_of_mem fun {one two} isOne isTwo both => ?_,
    fun before => before.imp fun {one two} isBefore => ?_⟩
  · obtain ⟨inOrder, different⟩ := both
    refine ⟨runs one isOne, inOrder, runs two isTwo, ?_⟩
    by_contra noLater
    have oneRuns := runs one isOne
    have twoRuns := runs two isTwo
    refine different ?_
    obtain ⟨oneStart, oneEnd⟩ := one
    obtain ⟨twoStart, twoEnd⟩ := two
    simp only [Turn.mk.injEq] at *
    omega
  · obtain ⟨oneRuns, inOrder, twoRuns, later⟩ := isBefore
    refine ⟨inOrder, ?_⟩
    rintro rfl
    omega

section Marks

variable {start : Int}

/-- When a turn that ends began: at the start right before, else at the span's. -/
theorem begun_spec {before : List Mark} {at_ : Int}
    (earlier : ∀ mark ∈ before, mark.at_ ≤ at_) :
    start ≤ (runningAfter start none before).getD start ∧
      (runningAfter start none before).getD start ≤ max at_ start ∧
      (BeganAt start before at_ ↔ (runningAfter start none before).getD start = max at_ start) := by
  rcases List.eq_nil_or_concat' before with rfl | ⟨marks, mark, rfl⟩
  · simp only [BeganAt, runningAfter, List.getLast?_nil, Option.getD_none]
    refine ⟨le_rfl, le_max_right _ _, ?_⟩
    simp [eq_comm]
  · have notLater := earlier mark (by simp)
    rw [runningAfter_concat, BeganAt, List.getLast?_concat]
    cases mark with
    | started begun =>
      simp only [Mark.at_] at notLater
      simp [Mark.isStarted, Mark.at_]
      omega
    | finished end_ =>
      simp [Mark.isStarted, eq_comm]

/-- Of two ends with only starts between, the first turn is before the second. -/
theorem before_iff {before between : List Mark} {first second : Int}
    (earlier : ∀ mark ∈ before, mark.at_ ≤ first)
    (inside : ∀ mark ∈ between, first ≤ mark.at_ ∧ mark.at_ ≤ second) (ordered : first ≤ second)
    (starts : ∀ mark ∈ between, mark.isStarted = true) :
    Before (turnAt start (runningAfter start none before) first)
        (turnAt start (runningAfter start none between) second) ↔
      (between = [] → first ≤ start) ∧
        (BeganAt start before first → max first start < max second start) := by
  obtain ⟨notBefore, notAfter, began⟩ := @begun_spec start before first earlier
  rw [began, Before, turnAt, turnAt]
  generalize (runningAfter start none before).getD start = begun at *
  rcases List.eq_nil_or_concat' between with rfl | ⟨marks, mark, rfl⟩
  · simp only [runningAfter, Option.getD_none, true_imp_iff]
    omega
  · have bounds := inside mark (by simp)
    rw [runningAfter_concat, if_pos (starts mark (by simp)), Option.getD_some]
    simp only [List.append_eq_nil_iff, List.cons_ne_nil, and_false, false_imp_iff, true_and]
    omega

/-- Turns read off marks in ascending time are apart just when the ends are separate. -/
theorem turnsFrom_apart_iff {marks : List Mark}
    (ascending : marks.Pairwise fun one two => one.at_ ≤ two.at_) :
    (turnsFrom start none marks).Pairwise (Apart Turn.start Turn.end_) ↔ Separate start marks := by
  rw [apart_iff_isChain turnsFrom_start_le, List.isChain_iff_forall_rel_of_append_cons_cons]
  -- What the order of the times says of two ends with only starts between.
  have locally : ∀ {before first between second after},
      marks = before ++ .finished first :: (between ++ .finished second :: after) →
      (∀ mark ∈ between, mark.isStarted = true) →
      (Before (turnAt start (runningAfter start none before) first)
          (turnAt start (runningAfter start none between) second) ↔
        (between = [] → first ≤ start) ∧
          (BeganAt start before first → max first start < max second start)) := by
    rintro before first between second after rfl starts
    obtain ⟨_, laterAscending, earlier⟩ := List.pairwise_append.mp ascending
    obtain ⟨afterFirst, innerAscending⟩ := List.pairwise_cons.mp laterAscending
    obtain ⟨_, _, beforeSecond⟩ := List.pairwise_append.mp innerAscending
    exact before_iff (fun mark isMark => earlier mark isMark _ List.mem_cons_self)
      (fun mark isMark => ⟨afterFirst mark (List.mem_append_left _ isMark),
        beforeSecond mark isMark _ List.mem_cons_self⟩)
      (afterFirst _ (List.mem_append_right _ List.mem_cons_self)) starts
  constructor
  · intro chained
    have each : ∀ {before first between second after},
        marks = before ++ .finished first :: (between ++ .finished second :: after) →
        (∀ mark ∈ between, mark.isStarted = true) →
        (between = [] → first ≤ start) ∧
          (BeganAt start before first → max first start < max second start) := by
      intro before first between second after isMarks starts
      refine (locally isMarks starts).mp
        (@chained _ _ (turnsFrom start none before) (turnsFrom start none after) ?_)
      rw [isMarks, turnsFrom_append, turnsFrom, turnsFrom_append, turnsFrom_of_started starts]
      rfl
    exact
      { bare := fun before first second after isMarks =>
          (@each before first [] second after isMarks (by simp)).1 rfl
        empty := fun before first between second after isMarks starts =>
          (each isMarks starts).2 }
  · intro separate one two earlier later split
    obtain ⟨before, first, rest, rfl, _, rfl, isRest⟩ := turnsFrom_split split
    obtain ⟨between, second, after, rfl, noTurns, rfl, _⟩ :=
      @turnsFrom_split _ _ _ [] _ _ isRest
    have starts := started_of_turnsFrom noTurns
    refine (locally rfl starts).mpr ⟨?_, separate.empty _ _ _ _ _ rfl starts⟩
    rintro rfl
    exact separate.bare _ _ _ _ rfl

end Marks

/-! ### The span and its marks -/

namespace HeadlessSpan

variable {Cost : Type} [Costs Cost] (asF64 : Value → Option Cost)

/-- What the loop holds of the turns, where these marks were taken in. -/
structure Reading.Holds (start : Int) (marks : List Mark) (reading : Reading Cost) : Prop where
  finished : reading.span.finished = turnsFrom start none marks
  running : reading.span.running = runningAfter start none marks

theorem Reading.span_count (reading : Reading Cost) (used : Value) :
    (reading.count asF64 used).span = reading.span := by
  cases used <;> rfl

theorem Reading.Holds.take {start : Int} {marks : List Mark} {reading : Reading Cost}
    (holds : reading.Holds start marks) (event : RunEvent) :
    (reading.take asF64 start event).Holds start (marks ++ (markOf event).toList) := by
  obtain ⟨finished, running⟩ := holds
  rw [Reading.take, markOf]
  cases event.millis with
  | none => exact ⟨by simpa using finished, by simpa using running⟩
  | some at_ =>
    dsimp only [Option.bind_some]
    split
    · refine ⟨?_, ?_⟩
      · rw [Option.toList_some, turnsFrom_append]
        simpa [turnsFrom] using finished
      · rw [Option.toList_some, runningAfter_concat]
        rfl
    · split
      · refine ⟨?_, ?_⟩
        · rw [Reading.span_count, Option.toList_some, turnsFrom_append, finished, running]
          rfl
        · rw [Reading.span_count, Option.toList_some, runningAfter_concat]
          rfl
      · exact ⟨by simpa using finished, by simpa using running⟩

theorem Reading.holds_foldl {start : Int} {marks : List Mark} {reading : Reading Cost}
    (holds : reading.Holds start marks) (events : List RunEvent) :
    (events.foldl (Reading.take asF64 start) reading).Holds start (marks ++ marksOf events) := by
  induction events generalizing reading marks with
  | nil => simpa [marksOf] using holds
  | cons event rest inductionHypothesis =>
    have later := inductionHypothesis (holds.take asF64 event)
    have isMarks : marksOf (event :: rest) = (markOf event).toList ++ marksOf rest := by
      rw [marksOf, List.filterMap_cons]
      cases markOf event <;> rfl
    rwa [List.append_assoc, ← isMarks] at later

theorem holds_of (events : List RunEvent) (start : Int) :
    (events.foldl (Reading.take asF64 start) { costs := some Costs.zero }).Holds start
      (marksOf events) := by
  have initial : Reading.Holds start [] ({ costs := some Costs.zero } : Reading Cost) := ⟨rfl, rfl⟩
  exact Reading.holds_foldl asF64 initial events

theorem finished_of (events : List RunEvent) (start : Int) :
    (of asF64 events start).finished = turnsFrom start none (marksOf events) :=
  (holds_of asF64 events start).finished

theorem running_of (events : List RunEvent) (start : Int) :
    (of asF64 events start).running = runningAfter start none (marksOf events) :=
  (holds_of asF64 events start).running

/-- The turns of a span are those read off its marks, with the running one cut. -/
theorem turns_of (events : List RunEvent) (start : Int) (now : Option Int) :
    (of asF64 events start).finished ++ ((of asF64 events start).cut now).toList =
      turnsFrom start none (closing (marksOf events) now) := by
  rw [cut, finished_of, running_of]
  unfold closing
  rcases List.eq_nil_or_concat' (marksOf events) with noMarks | ⟨marks, mark, isMarks⟩
  · rw [noMarks]
    rfl
  · rw [isMarks, List.getLast?_concat, runningAfter_concat]
    cases mark with
    | finished at_ => simp [Mark.isStarted]
    | started at_ =>
      cases now with
      | none => simp
      | some now =>
        dsimp only
        rw [turnsFrom_append (marks ++ [Mark.started at_]), runningAfter_concat]
        simp [turnsFrom, turnAt, Mark.isStarted, Mark.at_, max_assoc]

omit [Costs Cost] in
/-- What a reading takes in beyond what is recorded. -/
theorem newTurns_eq (span : HeadlessSpan Cost) (recorded : List Turn) (now : Option Int) :
    span.newTurns recorded now =
      fresh Turn.start Turn.end_ recorded (span.finished ++ (span.cut now).toList) := by
  refine List.filter_congr fun turn _ => ?_
  rw [Bool.eq_iff_iff, Bool.and_eq_true, decide_eq_true_eq, decide_eq_true_eq]
  refine and_congr_right fun _ => ?_
  cases greatest : (recorded.map (·.end_)).max? with
  | none =>
    rw [List.max?_eq_none_iff, List.map_eq_nil_iff] at greatest
    simp [greatest]
  | some through =>
    obtain ⟨isEnd, bounds⟩ := List.max?_eq_some_iff.mp greatest
    obtain ⟨other, isRecorded, isThrough⟩ := List.mem_map.mp isEnd
    rw [Option.all_some, decide_eq_true_eq]
    refine ⟨fun starts third isThird => ?_, fun all => isThrough ▸ all other isRecorded⟩
    exact (bounds _ (List.mem_map_of_mem isThird)).trans starts

theorem newTurns_nil (events : List RunEvent) (start : Int) (now : Option Int) :
    (of asF64 events start).newTurns [] now = turnsFrom start none (closing (marksOf events) now) := by
  rw [newTurns_eq, turns_of, fresh_nil]

/-- Each reading takes in what is fresh of the turns that its events read as. -/
theorem recordedBy_eq (start : Int) (events : List RunEvent) (stretches : List Nat)
    (now : Option Int) :
    recordedBy asF64 start events stretches now =
      takenIn Turn.start Turn.end_ []
        ((stretches.map fun length => turnsFrom start none (marksOf (events.take length))) ++
          [turnsFrom start none (closing (marksOf events) now)]) := by
  have noCut : ∀ span : HeadlessSpan Cost, (span.cut none).toList = [] := by
    intro span
    rw [cut]
    cases span.running <;> rfl
  rw [recordedBy, takenIn, List.foldl_append, List.foldl_map]
  simp only [newTurns_eq, noCut, finished_of, List.append_nil, List.foldl_cons, List.foldl_nil]
  rw [← finished_of asF64 events, turns_of]

/-! ### Readings of growing events -/

theorem turnsFrom_prefix (start : Int) {first second : List RunEvent}
    (isPrefix : first <+: second) :
    turnsFrom start none (marksOf first) <+: turnsFrom start none (marksOf second) := by
  obtain ⟨later, rfl⟩ := isPrefix
  rw [marksOf, marksOf, List.filterMap_append, turnsFrom_append]
  exact List.prefix_append _ _

theorem turnsFrom_closing_prefix (start : Int) (marks : List Mark) (now : Option Int) :
    turnsFrom start none marks <+: turnsFrom start none (closing marks now) := by
  unfold closing
  split
  · rw [turnsFrom_append]
    exact List.prefix_append _ _
  · exact List.prefix_rfl

/-- The end of the running turn adds one turn at most. -/
theorem length_turnsFrom_closing (start : Int) (marks : List Mark) (now : Option Int) :
    (turnsFrom start none (closing marks now)).length ≤
      (turnsFrom start none marks).length + 1 := by
  unfold closing
  split
  · rw [turnsFrom_append, List.length_append]
    exact Nat.add_le_add_left le_rfl _
  · exact Nat.le_succ _

/-- However many of the finished turns, some first events read as these. -/
theorem exists_take (start : Int) (events : List RunEvent) {length : Nat}
    (isLength : length ≤ (turnsFrom start none (marksOf events)).length) :
    ∃ stretch, turnsFrom start none (marksOf (events.take stretch)) =
      (turnsFrom start none (marksOf events)).take length := by
  rcases eq_or_ne length 0 with rfl | notZero
  · exact ⟨0, by simp [marksOf, turnsFrom]⟩
  · -- The turn at that place ends at one of the marks, and so at one of the events.
    have isTurn : length - 1 < (turnsFrom start none (marksOf events)).length := by omega
    have split := (List.take_append_drop (length - 1) (turnsFrom start none (marksOf events))).symm
    rw [List.drop_eq_getElem_cons isTurn] at split
    obtain ⟨before, at_, after, isMarks, isBefore, isEnd, _⟩ := turnsFrom_split split
    obtain ⟨first, second, isEvents, isFirst, _⟩ := List.filterMap_eq_append_iff.mp
      (isMarks.trans (List.append_cons before (Mark.finished at_) after))
    refine ⟨first.length, ?_⟩
    have taken : events.take first.length = first := by rw [isEvents, List.take_left]
    have next : length - 1 + 1 = length := by omega
    rw [taken, marksOf, isFirst, turnsFrom_append, isBefore, turnsFrom, turnsFrom, ← isEnd,
      List.take_append_getElem isTurn, next]

/-! ### What the readings record -/

/-- Whatever stretches the events are read in, one after another and whole at the last, the turns
recorded are those that one reading of them all records, the finished ones once and in order, and
none overlaps another. -/
structure RecordsAll (start : Int) (events : List RunEvent) (now : Option Int) : Prop where
  same : ∀ stretches : List Nat, stretches.Pairwise (· ≤ ·) →
    recordedBy asF64 start events stretches now = (of asF64 events start).newTurns [] now
  finished : (of asF64 events start).newTurns [] now =
    (of asF64 events start).finished ++ ((of asF64 events start).cut now).toList
  apart : ((of asF64 events start).newTurns [] now).Pairwise fun one two => one.end_ ≤ two.start

theorem closing_ascending {marks : List Mark}
    (ascending : marks.Pairwise fun one two => one.at_ ≤ two.at_) (now : Option Int) :
    (closing marks now).Pairwise fun one two => one.at_ ≤ two.at_ := by
  unfold closing
  split
  · rename_i begun now isLast
    obtain ⟨before, rfl⟩ := List.getLast?_eq_some_iff.mp isLast
    refine List.pairwise_append.mpr ⟨ascending, List.pairwise_singleton _ _, ?_⟩
    intro one isOne two isTwo
    rw [List.mem_singleton.mp isTwo]
    refine le_trans ?_ (le_max_right now begun)
    rcases List.mem_append.mp isOne with isBefore | isLast
    · exact (List.pairwise_append.mp ascending).2.2 one isBefore _ List.mem_cons_self
    · rw [List.mem_singleton.mp isLast]
      exact le_rfl
  · exact ascending

/-- Of turn events in ascending time, readings record all turns and none overlapping just when the
ends of turns are separate. -/
theorem recordsAll_iff (start : Int) (events : List RunEvent) (now : Option Int)
    (ascending : (marksOf events).Pairwise fun one two => one.at_ ≤ two.at_) :
    RecordsAll asF64 start events now ↔ Separate start (closing (marksOf events) now) := by
  rw [← turnsFrom_apart_iff (closing_ascending ascending now)]
  have whole := newTurns_nil asF64 events start now
  have isPrefix := turnsFrom_closing_prefix start (marksOf events) now
  constructor
  · rintro ⟨same, _, apart⟩
    rw [whole] at same apart
    refine apart.and
      (@nodup_of_append_fresh _ _ _ _ Turn.start Turn.end_ _ fun length isLength => ?_)
    have notLonger := length_turnsFrom_closing start (marksOf events) now
    have isFinished : length ≤ (turnsFrom start none (marksOf events)).length := by omega
    obtain ⟨stretch, isStretch⟩ := exists_take start events isFinished
    have recorded := same [stretch] (List.pairwise_singleton _ _)
    have taken : (turnsFrom start none (closing (marksOf events) now)).take length =
        (turnsFrom start none (marksOf events)).take length := by
      obtain ⟨running, isWhole⟩ := isPrefix
      rw [← isWhole, List.take_append_of_le_length isFinished]
    rw [recordedBy_eq, List.map_singleton, isStretch, ← taken] at recorded
    simpa [takenIn] using recorded
  · intro apart
    refine ⟨fun stretches growing => ?_, by rw [whole, turns_of], ?_⟩
    · have within : ∀ length, turnsFrom start none (marksOf (events.take length)) <+:
          turnsFrom start none (closing (marksOf events) now) := fun length =>
        ( turnsFrom_prefix start ( List.take_prefix length events)).trans isPrefix
      rw [recordedBy_eq, whole, takenIn_eq apart, List.getLast?_concat, Option.getD_some]
      · refine List.Pairwise.isChain (List.pairwise_cons.mpr ⟨fun _ _ => List.nil_prefix,
          List.pairwise_append.mpr ⟨List.pairwise_map.mpr (growing.imp fun isLess =>
            turnsFrom_prefix start (List.take_prefix_take_left isLess)),
          List.pairwise_singleton _ _, ?_⟩⟩)
        intro reading isReading last isLast
        obtain ⟨length, _, rfl⟩ := List.mem_map.mp isReading
        rw [List.mem_singleton.mp isLast]
        exact within length
      · intro reading isReading
        rcases List.mem_append.mp isReading with isEarlier | isLast
        · obtain ⟨length, _, rfl⟩ := List.mem_map.mp isEarlier
          exact within length
        · rw [List.mem_singleton.mp isLast]
    · rw [whole]
      exact apart.imp fun both => both.1

end HeadlessSpan

/-! ### Two turns of one millisecond -/

/-- A turn that starts and ends, and another, all in one millisecond. -/
def sameMillisecond : List RunEvent :=
  [⟨1, none, none, turnStarted, .object [], "1970-01-01T00:00:00.100Z"⟩,
    ⟨2, none, none, turnFinished, .object [], "1970-01-01T00:00:00.100Z"⟩,
    ⟨3, none, none, turnStarted, .object [], "1970-01-01T00:00:00.100Z"⟩,
    ⟨4, none, none, turnFinished, .object [], "1970-01-01T00:00:00.100Z"⟩]

/-- Read in two stretches, one of the two turns is not recorded. -/
theorem sameMillisecond_not_recorded :
    ((marksOf sameMillisecond).Pairwise fun one two => one.at_ ≤ two.at_) ∧
      ¬ HeadlessSpan.RecordsAll (fun _ => none : Value → Option Int) 0 sameMillisecond none := by
  refine ⟨by decide +kernel, fun recorded => ?_⟩
  have same := recorded.same [2] (List.pairwise_singleton _ _)
  revert same
  decide +kernel

/-- A turn that ends in a later millisecond than it starts in, and another that starts when it
ends. -/
def touching : List RunEvent :=
  [⟨1, none, none, turnStarted, .object [], "1970-01-01T00:00:00.100Z"⟩,
    ⟨2, none, none, turnFinished, .object [], "1970-01-01T00:00:00.200Z"⟩,
    ⟨3, none, none, turnStarted, .object [], "1970-01-01T00:00:00.200Z"⟩,
    ⟨4, none, none, turnFinished, .object [], "1970-01-01T00:00:00.200Z"⟩]

/-- Both are recorded, in whatever stretches they are read. -/
theorem recordsAll_touching :
    HeadlessSpan.RecordsAll (fun _ => none : Value → Option Int) 0 touching none := by
  refine (HeadlessSpan.recordsAll_iff (fun _ => none) 0 touching none (by decide +kernel)).mpr ?_
  exact (turnsFrom_apart_iff (by decide +kernel)).mp (by decide +kernel)

end Dagq.Headless
