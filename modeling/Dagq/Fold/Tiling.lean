/-
This file shows that the fold of a task loses no time and counts none twice: its
intervals tile the span from the task's start to its end, or to now. The folds of
its runs are contiguous, each part of a status is tiled by what the composer makes
of it, and the runs cut to the time before them leave off where the next begin.
-/

import Dagq.Fold.Task
import Dagq.Lib.Tiles

namespace Dagq.Fold

open Dagq.Ledger Dagq.Lib Dagq.PreClaim

/-- Intervals one after another, some of them of no length. -/
abbrev ContiguousIntervals : Int → List Interval → Int → Prop :=
  Contiguous Interval.start Interval.end_

/-- Intervals one after another, each of some length. -/
abbrev TilingIntervals : Int → List Interval → Int → Prop := Tiles Interval.start Interval.end_

/-! ### A run -/

theorem Record.interval_start (record : Record) (start end_ : Int) :
    (record.interval start end_).start = start := by
  unfold Record.interval
  dsimp only
  split <;> rfl

theorem Record.interval_end (record : Record) (start end_ : Int) :
    (record.interval start end_).end_ = end_ := by
  unfold Record.interval
  dsimp only
  split <;> rfl

theorem Record.interval_single (record : Record) {start end_ : Int} (order : start ≤ end_) :
    ContiguousIntervals start [record.interval start end_] end_ :=
  ⟨record.interval_start start end_, (record.interval_end start end_).symm ▸ order,
    record.interval_end start end_⟩

section Run

variable (events pushes : List RunEvent) (nowMs : Int)

/-- Where the last record starts: at the latest of the records' times, and not before the run. -/
def lastStart (start : Int) (records : List Record) : Int :=
  records.foldl (fun start record => max record.at_ start) start

/-- The last record's interval ends at the run's end, or at now. -/
theorem lastRecord_laid (record : Record) (start : Int) :
    ContiguousIntervals start (lastRecord events pushes nowMs record start).intervals
      ((lastRecord events pushes nowMs record start).end_.getD (max nowMs start)) := by
  unfold lastRecord
  by_cases isEnd : record.phase = ended
  · rw [if_pos isEnd]
    exact laid_nil
  · rw [if_neg isEnd]
    cases (if record.phase = pushPending then laterPush events pushes record.event.id else none) with
    | some push => exact record.interval_single (le_max_right _ _)
    | none => exact record.interval_single (le_max_right _ _)

/-- The records of a run follow each other from the start of the first. -/
theorem walk_laid (record : Record) (rest : List Record) (cursor : Int) :
    ContiguousIntervals (max record.at_ cursor)
      (walk events pushes nowMs cursor (record :: rest)).intervals
      ((walk events pushes nowMs cursor (record :: rest)).end_.getD
        (max nowMs (lastStart cursor (record :: rest)))) := by
  induction rest generalizing record cursor with
  | nil => exact lastRecord_laid events pushes nowMs record _
  | cons next rest inductionHypothesis =>
    have follows := inductionHypothesis next (max next.at_ (max record.at_ cursor))
    have later : lastStart (max next.at_ (max record.at_ cursor)) (next :: rest) =
        lastStart cursor (record :: next :: rest) := by
      show lastStart (max next.at_ (max next.at_ (max record.at_ cursor))) rest = _
      rw [max_eq_right (le_max_left next.at_ _)]
      rfl
    rw [max_eq_right (le_max_left next.at_ _), later] at follows
    exact (record.interval_single (le_max_right _ _)).append follows

/-- What a run's life is: the time before its first record, and its records walked. -/
theorem foldRun_spec {life : RunLife} (folded : foldRun events pushes nowMs = some life) :
    ∃ firstAt, ((recordsOf events).head?.map (·.at_)).getD nowMs = firstAt ∧
      life.start ≤ firstAt ∧
      life.intervals =
        (if firstAt > life.start then [Interval.unattributed life.start firstAt] else []) ++
          (walk events pushes nowMs life.start (recordsOf events)).intervals ∧
      life.end_ = (walk events pushes nowMs life.start (recordsOf events)).end_ := by
  unfold foldRun at folded
  dsimp only at folded
  by_cases legacy : ((recordsOf events).isEmpty && finished events) = true
  · rw [if_pos legacy] at folded
    cases folded
  · rw [if_neg legacy] at folded
    rw [← Option.some.inj folded]
    exact ⟨_, rfl, min_le_right _ _, rfl, rfl⟩

/-- A run's intervals follow each other from its start to its end, or to now. -/
theorem foldRun_laid {life : RunLife} (folded : foldRun events pushes nowMs = some life) :
    ContiguousIntervals life.start life.intervals
      (life.end_.getD (max nowMs (lastStart life.start (recordsOf events)))) := by
  obtain ⟨firstAt, isFirst, order, intervals, end_⟩ := foldRun_spec events pushes nowMs folded
  -- The time before the first record, when there is any.
  have before : ContiguousIntervals life.start
      (if firstAt > life.start then [Interval.unattributed life.start firstAt] else [])
      firstAt := by
    by_cases some_ : firstAt > life.start
    · rw [if_pos some_]
      exact ⟨rfl, order, rfl⟩
    · rw [if_neg some_]
      exact le_antisymm order (not_lt.mp some_)
  rw [intervals, end_]
  cases records : recordsOf events with
  | nil =>
    rw [records] at isFirst
    have toNow : max nowMs (lastStart life.start []) = firstAt :=
      (max_eq_left (order.trans_eq isFirst.symm)).trans isFirst
    show ContiguousIntervals life.start (_ ++ []) (max nowMs (lastStart life.start []))
    rw [toNow]
    exact before.append laid_nil
  | cons record rest =>
    rw [records] at isFirst
    obtain rfl : record.at_ = firstAt := isFirst
    have follows := walk_laid events pushes nowMs record rest life.start
    rw [max_eq_left order] at follows
    exact before.append follows

/-- A run's intervals follow each other from its start to the end of the last. -/
theorem foldRun_contiguous {life : RunLife} (folded : foldRun events pushes nowMs = some life) :
    ContiguousIntervals life.start life.intervals
      ((life.intervals.getLast?.map (·.end_)).getD life.start) := by
  have laid := foldRun_laid events pushes nowMs folded
  exact laid.upper_eq ▸ laid

end Run

/-! ### A status -/

namespace Composer

theorem readyParts_tiles (phase : String) {to_ cursor : Int} (order : cursor ≤ to_)
    {holds : List (Int × Int)} (within : ∀ hold ∈ holds, hold.2 ≤ to_) :
    TilingIntervals cursor (readyParts phase to_ cursor holds) to_ := by
  induction holds generalizing cursor with
  | nil =>
    exact @tiles_optional Int Interval _ _ _ (.tagged phase .queue .none cursor to_) order
  | cons hold rest inductionHypothesis =>
    obtain ⟨start, end_⟩ := hold
    have restWithin : ∀ hold ∈ rest, hold.2 ≤ to_ := fun other among =>
      within other (List.mem_cons_of_mem _ among)
    unfold readyParts
    dsimp only
    by_cases none_ : end_ ≤ max start cursor
    · rw [if_pos none_]
      exact inductionHypothesis order restWithin
    · rw [if_neg none_]
      have before : TilingIntervals cursor
          (if max start cursor > cursor then
            [Interval.tagged phase .queue .none cursor (max start cursor)] else [])
          (max start cursor) :=
        @tiles_optional Int Interval _ _ _ (.tagged phase .queue .none cursor (max start cursor))
          (le_max_right _ _)
      refine before.append ⟨rfl, not_le.mp none_, ?_⟩
      exact inductionHypothesis (within (start, end_) (List.mem_cons_self ..)) restWithin

variable (composer : Composer)

theorem pushReady_tiles (phase : String) {start to_ : Int} (order : start ≤ to_) :
    TilingIntervals start (composer.pushReady phase start to_) to_ := by
  refine readyParts_tiles phase order fun hold among => ?_
  have member := (List.mem_filter.mp ((List.mem_insertionSort _).mp among)).1
  obtain ⟨own, _, rfl⟩ := List.mem_map.mp member
  cases own.2 with
  | none => exact le_rfl
  | some end_ => exact min_le_right _ _

theorem status_tiles (name : String) {start to_ : Int} (order : start < to_) :
    TilingIntervals start (composer.status name start to_) to_ := by
  unfold status
  by_cases isDraft : name = "draft"
  · rw [if_pos isDraft]
    exact ⟨rfl, order, rfl⟩
  · rw [if_neg isDraft]
    by_cases isSubmitted : name = "submitted"
    · rw [if_pos isSubmitted]
      exact ⟨rfl, order, rfl⟩
    · rw [if_neg isSubmitted]
      by_cases isReady : name = "ready"
      · rw [if_pos isReady]
        dsimp only
        cases split : Option.filter _ _ with
        | none => exact composer.pushReady_tiles ready order.le
        | some readyAt =>
          obtain ⟨found, after⟩ := Option.filter_eq_some_iff.mp split
          obtain ⟨recorded, _, rfl⟩ := Option.map_eq_some_iff.mp found
          have before : max start (min recorded to_) ≤ to_ := max_le order.le (min_le_right _ _)
          refine (composer.pushReady_tiles dependencyWait (le_max_left _ _)).append ?_
          by_cases left : to_ > max start (min recorded to_)
          · rw [if_pos left]
            exact composer.pushReady_tiles ready left.le
          · rw [if_neg left]
            exact le_antisymm before (not_lt.mp left)
      · rw [if_neg isReady]
        exact ⟨rfl, order, rfl⟩

/-- What is left of a status in the time from `start` to `to_`. -/
theorem cutStatus_tiles (name : String) {start to_ began until_ : Int} (order : began ≤ until_) :
    TilingIntervals (clip start to_ began)
      (if min until_ to_ > max began start then
        composer.status name (max began start) (min until_ to_) else [])
      (clip start to_ until_) := by
  by_cases left : max began start < min until_ to_
  · obtain ⟨starts, stops⟩ := clip_cut left
    rw [if_pos left, starts, stops]
    exact composer.status_tiles name left
  · rw [if_neg left]
    exact clip_empty order left

/-- Statuses that begin in order cover the time from the first on. -/
theorem statusesFrom_tiles {start to_ : Int} (order : start ≤ to_) {statuses : List (Int × String)}
    {began : Int} {name : String}
    (ordered : ((began, name) :: statuses).IsChain fun one next => one.1 ≤ next.1) :
    TilingIntervals (clip start to_ began)
      (composer.statusesFrom start to_ ((began, name) :: statuses)) to_ := by
  induction statuses generalizing began name with
  | nil =>
    have last := @cutStatus_tiles composer name start to_ _ _ (le_max_left began to_)
    rw [min_eq_right (le_max_right began to_), clip_of_ge order (le_max_right began to_)] at last
    exact last.append laid_nil
  | cons next rest inductionHypothesis =>
    obtain ⟨follows, restOrdered⟩ := List.isChain_cons_cons.mp ordered
    exact (composer.cutStatus_tiles name follows).append (inductionHypothesis restOrdered)

theorem statusesBetween_tiles {start from_ to_ : Int} {first : String}
    {rest : List (Int × String)} (statuses : composer.statuses = (start, first) :: rest)
    (ordered : composer.statuses.IsChain fun one next => one.1 ≤ next.1)
    (after : start ≤ from_) (order : from_ ≤ to_) :
    TilingIntervals from_ (composer.statusesBetween from_ to_) to_ := by
  rw [statuses] at ordered
  have tiles := composer.statusesFrom_tiles order ordered
  rw [clip_of_le order after] at tiles
  unfold statusesBetween
  rw [statuses]
  exact tiles

end Composer

/-- The statuses of a task begin in order. -/
theorem movedTo_ordered (moves : List (Int × RunEvent)) (began : Int) (name : String) :
    ((began, name) :: movedTo began moves).IsChain fun one next => one.1 ≤ next.1 := by
  induction moves generalizing began name with
  | nil => exact List.isChain_singleton _
  | cons move rest inductionHypothesis =>
    unfold movedTo
    cases move.2.text "to" with
    | none => exact inductionHypothesis began name
    | some to_ =>
      exact List.isChain_cons_cons.mpr ⟨le_max_left _ _, inductionHypothesis _ to_⟩

/-! ### A task -/

/-- A run cut to the time from `from_` to the horizon. -/
theorem cutRun_tiles (run : String) {from_ horizon lower upper : Int} {intervals : List Interval}
    (laid : ContiguousIntervals lower intervals upper) :
    TilingIntervals (clip from_ horizon lower)
      (intervals.filterMap fun interval =>
        if min interval.end_ horizon > max interval.start from_ then
          some { interval with
            start := max interval.start from_
            end_ := min interval.end_ horizon
            runId := some run }
        else none)
      (clip from_ horizon upper) := by
  rw [List.filterMap_eq_flatMap_toList]
  refine laid.flatMap (clip from_ horizon) fun interval _ order => ?_
  by_cases left : max interval.start from_ < min interval.end_ horizon
  · obtain ⟨starts, stops⟩ := clip_cut left
    rw [if_pos left, starts, stops]
    exact ⟨rfl, left, rfl⟩
  · rw [if_neg left]
    exact clip_empty order left

/-- The runs of a task and its statuses between them tile the time from `cursor` on. -/
theorem layRuns_tiles {composer : Composer} {start : Int} {first : String}
    {rest : List (Int × String)} (statuses : composer.statuses = (start, first) :: rest)
    (ordered : composer.statuses.IsChain fun one next => one.1 ≤ next.1) {horizon : Int}
    (runs : List TaskRun)
    (contiguous : ∀ run ∈ runs, ContiguousIntervals run.life.start run.life.intervals
      ((run.life.intervals.getLast?.map (·.end_)).getD run.life.start))
    {cursor : Int} (after : start ≤ cursor) (before : cursor ≤ horizon) :
    TilingIntervals cursor (layRuns composer horizon cursor runs) horizon := by
  induction runs generalizing cursor with
  | nil => exact composer.statusesBetween_tiles statuses ordered after before
  | cons run more inductionHypothesis =>
    have laid := contiguous run (List.mem_cons_self ..)
    unfold layRuns
    dsimp only
    generalize ((run.life.intervals.getLast?.map (·.end_)).getD run.life.start) = runEnd at laid ⊢
    -- The run starts where the statuses before it end, and leaves the cursor where it ends.
    have cut := @cutRun_tiles run.run (max cursor (min run.life.start horizon)) horizon _ _ _ laid
    have starts : clip (max cursor (min run.life.start horizon)) horizon run.life.start =
        max cursor (min run.life.start horizon) := max_eq_left (le_max_right _ _)
    have stops : clip (max cursor (min run.life.start horizon)) horizon runEnd =
        max cursor (min runEnd horizon) := by
      rw [clip, max_assoc, max_eq_right (min_le_min laid.le le_rfl)]
    rw [starts, stops] at cut
    refine ((composer.statusesBetween_tiles statuses ordered after (le_max_left _ _)).append
      cut).append ?_
    exact inductionHypothesis (fun other among => contiguous other (List.mem_cons_of_mem _ among))
      (after.trans (le_max_left _ _)) (max_le before (min_le_right _ _))

theorem foldLives_tiles (task : Nat) (events : List RunEvent) (runs : List TaskRun)
    (preClaim : List PreClaimInterval) (nowMs : Int)
    (contiguous : ∀ run ∈ runs, ContiguousIntervals run.life.start run.life.intervals
      ((run.life.intervals.getLast?.map (·.end_)).getD run.life.start)) :
    let life := foldLives task events runs preClaim nowMs
    TilingIntervals life.start life.intervals (max (life.end_.getD nowMs) life.start) := by
  refine @layRuns_tiles _ _ _ _ rfl ?_ _ runs contiguous _ le_rfl (le_max_right _ _)
  exact movedTo_ordered _ _ _

/-- The runs of a task's claims are folds. -/
theorem claimedRuns_contiguous {events pushes : List RunEvent} {nowMs : Int} {run : String}
    {readyAt : Option Int} {life : RunLife}
    (among : (run, readyAt, some life) ∈ claimedRuns events pushes nowMs) :
    ContiguousIntervals life.start life.intervals
      ((life.intervals.getLast?.map (·.end_)).getD life.start) := by
  obtain ⟨claim, _, found⟩ := List.mem_filterMap.mp among
  obtain ⟨claimed, _, folded⟩ := Option.map_eq_some_iff.mp found
  exact foldRun_contiguous _ _ _ (Prod.mk.inj (Prod.mk.inj folded).2).2

/-- The intervals of a task's life tile the span from its start to its end, or to now: the first
starts at its start, each next where the one before ends, the last ends at the horizon, each has
some length, and their lengths add up to that of the span. -/
theorem foldTask_tiles {task : Nat} {events pushes : List RunEvent}
    {preClaim : List PreClaimInterval} {nowMs : Int} {life : TaskLife}
    (folded : foldTask task events pushes preClaim nowMs = .life life) :
    (∀ first, life.intervals.head? = some first → first.start = life.start) ∧
      life.intervals.IsChain (fun before after => after.start = before.end_) ∧
      (∀ last, life.intervals.getLast? = some last →
        last.end_ = max life.start (life.end_.getD nowMs)) ∧
      (∀ interval ∈ life.intervals, interval.start < interval.end_) ∧
      (life.intervals.map Interval.millis).sum =
        max life.start (life.end_.getD nowMs) - life.start := by
  have tiles : TilingIntervals life.start life.intervals
      (max life.start (life.end_.getD nowMs)) := by
    unfold foldTask at folded
    dsimp only at folded
    by_cases legacy : ((claimedRuns events pushes nowMs).any fun run => run.2.2.isNone) = true
    · rw [if_pos legacy] at folded
      cases folded
    · rw [if_neg legacy] at folded
      rw [← TaskFold.life.inj folded, max_comm]
      refine foldLives_tiles task events _ preClaim nowMs fun run among => ?_
      obtain ⟨claimed, isClaimed, found⟩ := List.mem_filterMap.mp among
      obtain ⟨name, readyAt, life⟩ := claimed
      obtain ⟨own, isLife, rfl⟩ := Option.map_eq_some_iff.mp found
      obtain rfl : life = some own := isLife
      exact claimedRuns_contiguous isClaimed
  exact ⟨tiles.head, tiles.chain, tiles.last_ends, tiles.long_of_mem, tiles.sum⟩

/-- A task held for ten minutes while its prerequisites were not done, claimed, and completed
half an hour after its run ended. -/
def closedTask : List RunEvent :=
  [{ id := 1, kind := .taskCreated, createdAt := "1970-01-01T00:00:00Z" },
    { id := 2, kind := .taskHeld, createdAt := "1970-01-01T00:10:00Z"
      payload := .object [("hold_id", .int 1)] },
    { id := 3, kind := .taskReleased, createdAt := "1970-01-01T00:20:00Z"
      payload := .object [("hold_id", .int 1)] },
    { id := 4, runId := some "run", kind := .runClaimed, createdAt := "1970-01-01T01:00:00Z"
      payload := .object [("from", .text "ready"), ("to", .text "in_progress"),
        ("ready_at", .text "1970-01-01T00:30:00Z")] },
    { id := 5, runId := some "run", kind := .runPhaseChanged, createdAt := "1970-01-01T01:00:00Z"
      payload := .object [("phase", .text "worker"), ("blocker", .text "ai"),
        ("holds", .text "worker_slot")] },
    { id := 6, runId := some "run", kind := .runPhaseChanged, createdAt := "1970-01-01T02:00:00Z"
      payload := .object [("phase", .text "ended"), ("cause", .text "canceled")] },
    { id := 7, kind := .taskStatusChanged, createdAt := "1970-01-01T02:30:00Z"
      payload := .object [("from", .text "in_progress"), ("to", .text "completed")] }]

def closedLife : TaskLife where
  start := 0
  intervals :=
    [.tagged dependencyWait .queue .none 0 600000, .tagged held .human .none 600000 1200000,
      .tagged dependencyWait .queue .none 1200000 1800000,
      .tagged ready .queue .none 1800000 3600000,
      { Interval.tagged "worker" .ai .workerSlot 3600000 7200000 with runId := some "run" },
      .unattributed 7200000 9000000]
  end_ := some 9000000
  outcome := some "completed"
  readyAt := some 1800000
  firstClaimed := some 3600000
  runs := ["run"]
  overlays := []
  overlayMillis := []
  inputsThrough := 7
  lifeEnded := []
  readySince := none
  waitsOpen := false

theorem foldTask_tiles_closed :
    (∀ first, closedLife.intervals.head? = some first → first.start = closedLife.start) ∧
      closedLife.intervals.IsChain (fun before after => after.start = before.end_) ∧
      (∀ last, closedLife.intervals.getLast? = some last →
        last.end_ = max closedLife.start (closedLife.end_.getD 10800000)) ∧
      (∀ interval ∈ closedLife.intervals, interval.start < interval.end_) ∧
      (closedLife.intervals.map Interval.millis).sum =
        max closedLife.start (closedLife.end_.getD 10800000) - closedLife.start :=
  foldTask_tiles (show foldTask 1 closedTask [] [] 10800000 = .life closedLife by decide)

end Dagq.Fold
