/-
This file proves when a breakdown made to another end is the breakdown of the same
records to that end. A window counts to the category of the interval that leads where
it starts. To a later end nothing that leads is changed; to an earlier one the
intervals still open there end together, and of those that led together the first now
leads and not the first to end.
-/

import Dagq.Lib.Least
import Dagq.Work.Breakdown

namespace Dagq.Work

open Lib

/-! ### The category of a time -/

/-- It lies over the time. -/
def Interval.covers (time : Int) (interval : Interval) : Bool :=
  decide (interval.start ≤ time) && decide (time < interval.end_)

/-- What intervals are sorted by. -/
def Interval.key (interval : Interval) : (ℕ ×ₗ ℕ ×ₗ ℤ) ×ₗ ℤ :=
  toLex (interval.rank, interval.end_)

/-- The intervals that lead at a time but for their ends. -/
def leadersAt (intervals : List Interval) (time : Int) : List Interval :=
  leading Interval.rank (intervals.filter (Interval.covers time))

/-- The category a time counts to. -/
def categoryAt (intervals : List Interval) (time : Int) : String :=
  ((leastBy Interval.key (intervals.filter (Interval.covers time))).map Interval.category).getD idle

variable {intervals : List Interval} {from_ to_ earlier : Int}

theorem categoryAt_eq_leaders (time : Int) :
    categoryAt intervals time =
      ((leastBy Interval.end_ (leadersAt intervals time)).map Interval.category).getD idle := by
  unfold categoryAt leadersAt Interval.key
  rw [leastBy_lex]

theorem mem_boundsOf {bound : Int} :
    bound ∈ boundsOf intervals from_ to_ ↔
      (∃ interval ∈ intervals, bound = interval.start ∨ bound = interval.end_) ∨
        bound = from_ ∨ bound = to_ := by
  unfold boundsOf
  rw [mem_sorted_dedup]
  simp

theorem boundsOf_ascending : (boundsOf intervals from_ to_).Pairwise (· < ·) := sorted_dedup _

/-- A time lies between the same bounds as the last of them not after it. -/
theorem covers_floor {start time : Int} {interval : Interval} (among : interval ∈ intervals)
    (isBefore : start ≤ time)
    (isFloor : ∀ bound ∈ boundsOf intervals from_ to_, bound ≤ time → bound ≤ start) :
    interval.covers time = interval.covers start := by
  have starts := isFloor interval.start (mem_boundsOf.mpr (.inl ⟨interval, among, .inl rfl⟩))
  have ends := isFloor interval.end_ (mem_boundsOf.mpr (.inl ⟨interval, among, .inr rfl⟩))
  unfold Interval.covers
  rw [Bool.eq_iff_iff, Bool.and_eq_true, Bool.and_eq_true, decide_eq_true_iff, decide_eq_true_iff,
    decide_eq_true_iff, decide_eq_true_iff]
  omega

/-- The windows are the pieces of the bounds, each with the category of its start. -/
theorem windowsOf_eq_pieces :
    windowsOf intervals from_ to_ =
      pieces (categoryAt intervals) (boundsOf intervals from_ to_) := by
  unfold windowsOf pieces
  dsimp only
  refine List.map_congr_left fun ends piece => ?_
  obtain ⟨start, end_⟩ := ends
  obtain ⟨isLong, gap⟩ := zip_tail_gap boundsOf_ascending piece
  have same : (intervals.filter fun interval =>
      interval.start ≤ start && end_ ≤ interval.end_) =
        intervals.filter (Interval.covers start) := by
    refine List.filter_congr fun interval among => ?_
    have ends := gap interval.end_ (mem_boundsOf.mpr (.inl ⟨interval, among, .inr rfl⟩))
    unfold Interval.covers
    rw [Bool.eq_iff_iff, Bool.and_eq_true, Bool.and_eq_true, decide_eq_true_iff,
      decide_eq_true_iff, decide_eq_true_iff]
    omega
  have found := @find?_insertionSort Interval _ _ Interval.key (fun interval =>
    decide (interval.start ≤ start) && decide (end_ ≤ interval.end_)) intervals
  exact congrArg (fun found : Option Interval =>
    (start, end_, (found.map Interval.category).getD idle))
    (found.trans (congrArg (leastBy Interval.key) same))

theorem categoryAt_floor {start time : Int} (isBefore : start ≤ time)
    (isFloor : ∀ bound ∈ boundsOf intervals from_ to_, bound ≤ time → bound ≤ start) :
    leadersAt intervals time = leadersAt intervals start :=
  congrArg (leading Interval.rank)
    (List.filter_congr fun _ among => covers_floor among isBefore isFloor)

theorem windowsOf_nil_self : windowsOf [] from_ from_ = [] := by
  simp [windowsOf, boundsOf]

theorem windowsOf_nil (isLong : from_ < to_) : windowsOf [] from_ to_ = [(from_, to_, idle)] := by
  simp [windowsOf, boundsOf, isLong.le, isLong.ne]

/-! ### Cut at an earlier end -/

/-- The interval ended at a time. -/
def Interval.until (end_ : Int) (interval : Interval) : Interval :=
  { interval with end_ := min interval.end_ end_ }

/-- The intervals ended at a time, those begun before it. -/
def endedAt (end_ : Int) (intervals : List Interval) : List Interval :=
  (intervals.map (Interval.until end_)).filter fun interval => interval.start < interval.end_

theorem covers_endedAt {time : Int} (isEarlier : time < earlier) :
    (endedAt earlier intervals).filter (Interval.covers time) =
      (intervals.filter (Interval.covers time)).map (Interval.until earlier) := by
  unfold endedAt
  rw [List.filter_filter, List.filter_map]
  congr 1
  refine List.filter_congr fun interval _ => ?_
  unfold Interval.covers Interval.until
  rw [Bool.eq_iff_iff]
  simp only [Function.comp_apply, Bool.and_eq_true, decide_eq_true_iff]
  omega

/-- Leaders still open at the end they are cut at lead by their order, others by their ends. -/
theorem categoryAt_endedAt {time : Int} (isEarlier : time < earlier) :
    categoryAt (endedAt earlier intervals) time =
      ((if ∀ interval ∈ leadersAt intervals time, earlier ≤ interval.end_ then
        (leadersAt intervals time).head?
      else leastBy Interval.end_ (leadersAt intervals time)).map Interval.category).getD idle := by
  have least : leastBy Interval.key ((endedAt earlier intervals).filter (Interval.covers time)) =
      (leastBy (fun interval => min interval.end_ earlier) (leadersAt intervals time)).map
        (Interval.until earlier) := by
    rw [covers_endedAt isEarlier, leastBy_map]
    exact congrArg _ leastBy_lex
  have same : leastBy (fun interval => min interval.end_ earlier) (leadersAt intervals time) =
      if ∀ interval ∈ leadersAt intervals time, earlier ≤ interval.end_ then
        (leadersAt intervals time).head?
      else leastBy Interval.end_ (leadersAt intervals time) := by
    split
    next allOpen =>
      refine leastBy_head fun first firstAmong second secondAmong => ?_
      have := allOpen first firstAmong
      have := allOpen second secondAmong
      omega
    next someEnds =>
      refine leastBy_min ?_
      push Not at someEnds
      exact someEnds
  unfold categoryAt
  rw [least, same, Option.map_map]
  rfl

theorem boundsOf_endedAt (inSpan : ∀ interval ∈ intervals, from_ ≤ interval.start ∧
      interval.start < interval.end_ ∧ interval.end_ ≤ to_)
    (notBefore : from_ ≤ earlier) (isEarlier : earlier < to_) :
    boundsOf (endedAt earlier intervals) from_ earlier =
      (boundsOf intervals from_ to_).filter (· < earlier) ++ [earlier] := by
  have ascending : ((boundsOf intervals from_ to_).filter (· < earlier) ++ [earlier]).Pairwise
      (· < ·) := by
    refine List.pairwise_append.mpr ⟨boundsOf_ascending.filter _, List.pairwise_singleton _ _, ?_⟩
    simp
  refine boundsOf_ascending.eq_of_mem_iff ascending fun bound => ?_
  rw [mem_boundsOf, List.mem_append, List.mem_filter, mem_boundsOf, List.mem_singleton]
  unfold endedAt
  simp only [List.mem_filter, List.mem_map, decide_eq_true_iff]
  constructor
  · rintro (⟨_, ⟨⟨interval, among, rfl⟩, isLong⟩, isBound⟩ | isBound)
    · obtain ⟨_, _, _⟩ := inSpan interval among
      unfold Interval.until at isLong isBound
      dsimp only at isLong isBound
      rcases isBound with rfl | rfl
      · exact .inl ⟨.inl ⟨interval, among, .inl rfl⟩, by omega⟩
      · rcases lt_or_ge interval.end_ earlier with ended | stillOpen
        · rw [min_eq_left ended.le]
          exact .inl ⟨.inl ⟨interval, among, .inr rfl⟩, ended⟩
        · exact .inr (min_eq_right stillOpen)
    · omega
  · rintro (⟨⟨interval, among, isBound⟩ | isBound, isBefore⟩ | rfl)
    · obtain ⟨_, isLong, _⟩ := inSpan interval among
      refine .inl ⟨interval.until earlier, ⟨⟨interval, among, rfl⟩, ?_⟩, ?_⟩ <;>
        unfold Interval.until <;> dsimp only <;> omega
    · omega
    · exact .inr (.inr rfl)

/-- Windows cut at an earlier end are those of the intervals ended there, but for the categories
of the times at which the leaders still open there lead together. -/
theorem windowsOf_endedAt (inSpan : ∀ interval ∈ intervals, from_ ≤ interval.start ∧
      interval.start < interval.end_ ∧ interval.end_ ≤ to_)
    (notBefore : from_ ≤ earlier) (isEarlier : earlier < to_) :
    endLast (min · earlier) ((windowsOf intervals from_ to_).filter (·.1 < earlier)) =
        windowsOf (endedAt earlier intervals) from_ earlier ↔
      ∀ time, from_ ≤ time → time < earlier →
        categoryAt intervals time = categoryAt (endedAt earlier intervals) time := by
  have reaches : ∃ bound ∈ boundsOf intervals from_ to_, earlier ≤ bound :=
    ⟨to_, mem_boundsOf.mpr (.inr (.inr rfl)), isEarlier.le⟩
  rw [windowsOf_eq_pieces, windowsOf_eq_pieces, boundsOf_endedAt inSpan notBefore isEarlier,
    endLast_filter_pieces boundsOf_ascending reaches, pieces_eq_iff]
  constructor
  · intro same time isAfter isBefore
    obtain ⟨start, isBound, reached, isFloor⟩ := exists_floor
      (mem_boundsOf.mpr (.inr (.inl rfl)) : from_ ∈ boundsOf intervals from_ to_) isAfter
    have atStart := same start (List.mem_filter.mpr ⟨isBound, by simpa using by omega⟩)
    have sameLeaders := categoryAt_floor reached isFloor
    rw [categoryAt_endedAt (by omega)] at atStart ⊢
    rw [categoryAt_eq_leaders] at atStart ⊢
    rw [sameLeaders]
    exact atStart
  · intro same start among
    obtain ⟨isBound, isBefore⟩ := List.mem_filter.mp among
    refine same start ?_ (of_decide_eq_true isBefore)
    rcases mem_boundsOf.mp isBound with ⟨interval, isAmong, isEnd⟩ | isEnd
    · obtain ⟨_, _, _⟩ := inSpan interval isAmong
      omega
    · omega

/-! ### Commands and intervals of an earlier end -/

variable {records : List TranscriptRecord} {rules : CommandClassifier}

theorem commandOf_min (at_ : Int) (toolUse : ToolUse) (isStarted : at_ < earlier)
    (isEarlier : earlier ≤ to_) :
    commandOf records earlier rules at_ toolUse =
      { commandOf records to_ rules at_ toolUse with
        end_ := min (commandOf records to_ rules at_ toolUse).end_ earlier } := by
  unfold commandOf
  dsimp only
  congr 1
  split
  · omega
  · omega

/-- The commands of an earlier end: those that start before it, ended there at the latest. -/
theorem commandsOf_earlier (isEarlier : earlier ≤ to_) :
    commandsOf records from_ earlier rules =
      ((commandsOf records from_ to_ rules).filter fun command => command.start < earlier).map
        fun command => { command with end_ := min command.end_ earlier } := by
  unfold commandsOf
  suffices each : ∀ scanned : List TranscriptRecord,
      (scanned.filter fun record => !record.sidechain && decide (from_ ≤ record.at_) &&
        decide (record.at_ < earlier)).flatMap (fun record =>
          record.toolUses.map (commandOf records earlier rules record.at_)) =
      (((scanned.filter fun record => !record.sidechain && decide (from_ ≤ record.at_) &&
        decide (record.at_ < to_)).flatMap fun record =>
          record.toolUses.map (commandOf records to_ rules record.at_)).filter
            fun command => command.start < earlier).map
              fun command => { command with end_ := min command.end_ earlier } from each records
  intro scanned
  induction scanned with
  | nil => rfl
  | cons record rest inductionHypothesis =>
    have ofRecord : ((record.toolUses.map (commandOf records to_ rules record.at_)).filter
        fun command => command.start < earlier).map
          (fun command => { command with end_ := min command.end_ earlier }) =
        if record.at_ < earlier then
          record.toolUses.map (commandOf records earlier rules record.at_) else [] := by
      split
      next isStarted =>
        rw [List.filter_eq_self.mpr, List.map_map]
        · exact List.map_congr_left fun toolUse _ =>
            (commandOf_min record.at_ toolUse isStarted isEarlier).symm
        · intro command among
          obtain ⟨toolUse, _, rfl⟩ := List.mem_map.mp among
          exact decide_eq_true isStarted
      next isLater =>
        rw [List.filter_eq_nil_iff.mpr]
        · rfl
        · intro command among
          obtain ⟨toolUse, _, rfl⟩ := List.mem_map.mp among
          exact fun isStarted => isLater (of_decide_eq_true isStarted)
    rw [List.filter_cons, List.filter_cons]
    by_cases inSpan : (!record.sidechain && decide (from_ ≤ record.at_)) = true
    · rw [inSpan, Bool.true_and, Bool.true_and]
      by_cases isStarted : record.at_ < earlier
      · rw [if_pos (decide_eq_true isStarted), if_pos (decide_eq_true (isStarted.trans_le isEarlier)),
          List.flatMap_cons, List.flatMap_cons, List.filter_append, List.map_append, ofRecord,
          if_pos isStarted, inductionHypothesis]
      · rw [if_neg (by simpa using isStarted)]
        by_cases inOther : record.at_ < to_
        · rw [if_pos (decide_eq_true inOther), List.flatMap_cons, List.filter_append,
            List.map_append, ofRecord, if_neg isStarted, inductionHypothesis]
          rfl
        · rw [if_neg (by simpa using inOther), inductionHypothesis]
    · rw [Bool.not_eq_true] at inSpan
      rw [inSpan, Bool.false_and, Bool.false_and, if_neg Bool.false_ne_true,
        if_neg Bool.false_ne_true, inductionHypothesis]

theorem endedAt_cut (uncut : List Interval) (isEarlier : earlier ≤ to_) :
    endedAt earlier ((uncut.map (Interval.cut from_ to_)).filter fun interval =>
        interval.start < interval.end_) =
      (uncut.map (Interval.cut from_ earlier)).filter fun interval =>
        interval.start < interval.end_ := by
  have both : Interval.until earlier ∘ Interval.cut from_ to_ = Interval.cut from_ earlier := by
    funext interval
    unfold Interval.until Interval.cut
    simp only [Function.comp_apply, min_assoc, min_eq_right isEarlier]
  unfold endedAt
  rw [List.filter_map, List.filter_map, List.filter_map, List.filter_filter, List.map_map, both]
  conv_rhs => rw [List.filter_map]
  congr 1
  refine List.filter_congr fun interval _ => ?_
  unfold Interval.until Interval.cut
  rw [Bool.eq_iff_iff]
  simp only [Function.comp_apply, Bool.and_eq_true, decide_eq_true_iff]
  omega

/-- The intervals of an earlier end are those of the later one ended there. -/
theorem intervalsOf_earlier (commands : List Command) (modelTime : List (Int × Int))
    (isEarlier : earlier ≤ to_) :
    intervalsOf ((commands.filter fun command => command.start < earlier).map
        fun command => { command with end_ := min command.end_ earlier }) modelTime from_ earlier =
      endedAt earlier (intervalsOf commands modelTime from_ to_) := by
  unfold intervalsOf
  dsimp only
  rw [endedAt_cut _ isEarlier, List.map_append, List.map_append, List.filter_append,
    List.filter_append, List.map_map, List.map_map, List.map_map, List.filter_map,
    List.filter_map, List.filter_filter]
  congr 1
  have same : (Interval.cut from_ earlier ∘ fun command : Command =>
      Interval.mk command.start command.end_ command.priority command.category) ∘
        (fun command => { command with end_ := min command.end_ earlier }) =
      Interval.cut from_ earlier ∘ fun command : Command =>
        Interval.mk command.start command.end_ command.priority command.category := by
    funext command
    unfold Interval.cut
    simp only [Function.comp_apply, min_assoc, min_self]
    rfl
  rw [same]
  conv_rhs => rw [List.map_map, List.filter_map]
  congr 1
  refine List.filter_congr fun command _ => ?_
  unfold Interval.cut
  rw [Bool.eq_iff_iff]
  simp only [Function.comp_apply, Bool.and_eq_true, decide_eq_true_iff]
  omega

/-- Every interval lies in the span. -/
theorem intervalsOf_inSpan (commands : List Command) (modelTime : List (Int × Int)) :
    ∀ interval ∈ intervalsOf commands modelTime from_ to_, from_ ≤ interval.start ∧
      interval.start < interval.end_ ∧ interval.end_ ≤ to_ := by
  intro interval among
  obtain ⟨isCut, isLong⟩ := List.mem_filter.mp among
  obtain ⟨uncut, _, rfl⟩ := List.mem_map.mp isCut
  exact ⟨le_max_right _ _, of_decide_eq_true isLong, min_le_right _ _⟩

/-! ### Commands and intervals of a later end -/

variable {later : Int}

theorem mem_of_resultOf {id : String} {result : Int × ToolResult}
    (isResult : resultOf records id = some result) : ∃ record ∈ records, record.at_ = result.1 := by
  obtain ⟨record, among, isOf⟩ := List.mem_flatMap.mp (List.mem_of_find?_eq_some isResult)
  obtain ⟨toolResult, _, rfl⟩ := List.mem_map.mp isOf
  exact ⟨record, among, rfl⟩

theorem mem_of_noticeOf {id : String} {notice : Int × Notification}
    (isNotice : noticeOf records id = some notice) : ∃ record ∈ records, record.at_ = notice.1 := by
  obtain ⟨record, among, isOf⟩ := List.mem_flatMap.mp (List.mem_of_find?_eq_some isNotice)
  obtain ⟨notification, _, rfl⟩ := List.mem_map.mp isOf
  exact ⟨record, among, rfl⟩

/-- A tool use ends at its result or its notification. -/
theorem endOf_among (toolUse : ToolUse) (result : Option (Int × ToolResult))
    (notice : Option (Int × Notification)) {end_ : Int}
    (isEnd : (endOf toolUse result notice rules).2.2 = some end_) :
    result.map (·.1) = some end_ ∨ notice.map (·.1) = some end_ := by
  unfold endOf at isEnd
  dsimp only at isEnd
  split_ifs at isEnd
  · exact (Option.or_eq_some_iff.mp isEnd).symm.imp And.right id
  · exact .inr isEnd
  · exact .inl isEnd
  · exact .inl isEnd
  · exact .inl isEnd

theorem endOf_before (allBefore : ∀ record ∈ records, record.at_ < to_) (toolUse : ToolUse)
    {end_ : Int} (isEnd : (endOf toolUse (resultOf records toolUse.id)
      (noticeOf records toolUse.id) rules).2.2 = some end_) : end_ < to_ := by
  rcases endOf_among toolUse _ _ isEnd with ofResult | ofNotice
  · obtain ⟨result, isResult, rfl⟩ := Option.map_eq_some_iff.mp ofResult
    obtain ⟨record, among, isAt⟩ := mem_of_resultOf isResult
    exact isAt ▸ allBefore record among
  · obtain ⟨notice, isNotice, rfl⟩ := Option.map_eq_some_iff.mp ofNotice
    obtain ⟨record, among, isAt⟩ := mem_of_noticeOf isNotice
    exact isAt ▸ allBefore record among

/-- A command not finished lasts to a later end. -/
def Command.until (later : Int) (command : Command) : Command :=
  if command.finished then command else { command with end_ := later }

theorem commandOf_finished (at_ : Int) (toolUse : ToolUse) :
    (commandOf records to_ rules at_ toolUse).finished =
      (endOf toolUse (resultOf records toolUse.id) (noticeOf records toolUse.id)
        rules).2.2.isSome := rfl

theorem commandOf_later (allBefore : ∀ record ∈ records, record.at_ < to_) (isLater : to_ ≤ later)
    (at_ : Int) (toolUse : ToolUse) :
    commandOf records later rules at_ toolUse =
      (commandOf records to_ rules at_ toolUse).until later := by
  unfold Command.until
  rw [commandOf_finished]
  cases isEnd : (endOf toolUse (resultOf records toolUse.id) (noticeOf records toolUse.id)
      rules).2.2 with
  | none =>
    rw [Option.isSome_none, if_neg Bool.false_ne_true]
    unfold commandOf
    dsimp only
    rw [isEnd]
    rfl
  | some end_ =>
    have endsBefore := endOf_before allBefore toolUse isEnd
    rw [Option.isSome_some, if_pos rfl]
    unfold commandOf
    dsimp only
    rw [isEnd]
    dsimp only
    rw [min_eq_left (by omega), min_eq_left (by omega)]

/-- The commands of a later end than all records: those not finished last to it. -/
theorem commandsOf_later (allBefore : ∀ record ∈ records, record.at_ < to_)
    (isLater : to_ ≤ later) :
    commandsOf records from_ later rules =
      (commandsOf records from_ to_ rules).map (Command.until later) := by
  unfold commandsOf
  rw [List.map_flatMap]
  have sameRecords : (records.filter fun record => !record.sidechain &&
      decide (from_ ≤ record.at_) && decide (record.at_ < later)) =
      records.filter fun record => !record.sidechain && decide (from_ ≤ record.at_) &&
        decide (record.at_ < to_) := by
    refine List.filter_congr fun record among => ?_
    have isBefore := allBefore record among
    rw [decide_eq_true isBefore, decide_eq_true (isBefore.trans_le isLater)]
  rw [sameRecords]
  congr 1
  funext record
  rw [List.map_map]
  exact List.map_congr_left fun toolUse _ => commandOf_later allBefore isLater record.at_ toolUse

/-- A command of the span starts in it before its last record, and unless it lasts to the span's
end is finished before it. -/
theorem commandsOf_spans (allBefore : ∀ record ∈ records, record.at_ < to_) :
    ∀ command ∈ commandsOf records from_ to_ rules, from_ ≤ command.start ∧
      command.start < to_ ∧
      (if command.finished then command.end_ < to_ else command.end_ = to_) := by
  intro command among
  obtain ⟨record, isKept, isOf⟩ := List.mem_flatMap.mp among
  obtain ⟨isRecord, inSpan⟩ := List.mem_filter.mp isKept
  obtain ⟨toolUse, _, rfl⟩ := List.mem_map.mp isOf
  simp only [Bool.and_eq_true, decide_eq_true_iff] at inSpan
  refine ⟨inSpan.1.2, inSpan.2, ?_⟩
  rw [commandOf_finished]
  unfold commandOf
  dsimp only
  cases isEnd : (endOf toolUse (resultOf records toolUse.id) (noticeOf records toolUse.id)
      rules).2.2 with
  | none => rfl
  | some end_ =>
    have endsBefore := endOf_before allBefore toolUse isEnd
    rw [Option.isSome_some, if_pos rfl]
    dsimp only
    omega

theorem modelIntervals_before (allBefore : ∀ record ∈ records, record.at_ < to_) :
    ∀ time ∈ modelIntervals records, time.2 < to_ := by
  intro time among
  obtain ⟨pair, isPair, rfl⟩ := List.mem_map.mp among
  have isMain := List.mem_of_mem_tail (List.of_mem_zip (a := pair.1) (b := pair.2)
    (List.mem_filter.mp isPair).1).2
  exact allBefore pair.2 (List.mem_filter.mp ((List.mem_insertionSort _).mp isMain)).1

/-- An interval that lasts to the end lasts to a later one. -/
def Interval.stretch (to_ later : Int) (interval : Interval) : Interval :=
  if interval.end_ = to_ then { interval with end_ := later } else interval

theorem Interval.stretch_of_lt {interval : Interval} (isBefore : interval.end_ < to_) :
    interval.stretch to_ later = interval := if_neg isBefore.ne

theorem Interval.stretch_of_eq {interval : Interval} (isEnd : interval.end_ = to_) :
    interval.stretch to_ later = { interval with end_ := later } := if_pos isEnd

/-- An interval that ends before the span is cut the same by a later end. -/
theorem Interval.cut_of_lt {interval : Interval} (isBefore : interval.end_ < to_)
    (isLater : to_ < later) : interval.cut from_ later = (interval.cut from_ to_).stretch to_ later := by
  have sameCut : interval.cut from_ later = interval.cut from_ to_ := by
    unfold Interval.cut
    rw [min_eq_left isBefore.le, min_eq_left (isBefore.trans isLater).le]
  have cutBefore : (interval.cut from_ to_).end_ < to_ := (min_le_left _ _).trans_lt isBefore
  rw [stretch_of_lt cutBefore, sameCut]

theorem filter_stretch {Item : Type*} {items : List Item} {before after : Item → Interval}
    (each : ∀ item ∈ items, after item = (before item).stretch to_ later ∧
      ((after item).start < (after item).end_ ↔ (before item).start < (before item).end_)) :
    ((items.map after).filter fun interval => interval.start < interval.end_) =
      ((items.map before).filter fun interval => interval.start < interval.end_).map
        (Interval.stretch to_ later) := by
  rw [List.filter_map, List.filter_map, List.map_map]
  have sameKept : items.filter ((fun interval : Interval =>
      decide (interval.start < interval.end_)) ∘ after) =
      items.filter ((fun interval : Interval =>
        decide (interval.start < interval.end_)) ∘ before) :=
    List.filter_congr fun item among => decide_eq_decide.mpr (each item among).2
  rw [sameKept]
  exact List.map_congr_left fun item kept => (each item (List.mem_filter.mp kept).1).1

theorem intervalsOf_later (allBefore : ∀ record ∈ records, record.at_ < to_)
    (isLater : to_ < later) :
    intervalsOf (commandsOf records from_ later rules) (modelIntervals records) from_ later =
      (intervalsOf (commandsOf records from_ to_ rules) (modelIntervals records) from_ to_).map
        (Interval.stretch to_ later) := by
  unfold intervalsOf
  dsimp only
  rw [commandsOf_later allBefore isLater.le, List.map_append, List.map_append, List.filter_append,
    List.filter_append, List.map_append, List.map_map, List.map_map, List.map_map, List.map_map]
  congr 1
  · refine filter_stretch fun command among => ?_
    obtain ⟨isAfter, isBefore, isEnd⟩ := commandsOf_spans allBefore command among
    by_cases isFinished : command.finished = true
    · rw [if_pos isFinished] at isEnd
      have isKept : command.until later = command := if_pos isFinished
      dsimp only [Function.comp_apply]
      rw [isKept]
      refine ⟨Interval.cut_of_lt isEnd isLater, ?_⟩
      unfold Interval.cut
      dsimp only
      omega
    · rw [if_neg isFinished] at isEnd
      have isLonger : command.until later = { command with end_ := later } := if_neg isFinished
      dsimp only [Function.comp_apply]
      rw [isLonger, Interval.stretch_of_eq (min_eq_right isEnd.ge)]
      unfold Interval.cut
      dsimp only
      refine ⟨?_, by omega⟩
      rw [min_self]
      rfl
  · rw [List.map_map]
    refine filter_stretch fun time among => ?_
    have isBefore := modelIntervals_before allBefore time among
    refine ⟨Interval.cut_of_lt isBefore isLater, ?_⟩
    unfold Interval.cut
    dsimp only [Function.comp_apply]
    omega

/-- What leads at a time is not changed by ends moved on together. -/
theorem categoryAt_stretch (isLater : to_ < later)
    (inSpan : ∀ interval ∈ intervals, interval.end_ ≤ to_) {time : Int} (isBefore : time < to_) :
    categoryAt (intervals.map (Interval.stretch to_ later)) time = categoryAt intervals time := by
  have endMoves (interval : Interval) : (interval.stretch to_ later).end_ =
      if interval.end_ = to_ then later else interval.end_ := by
    unfold Interval.stretch
    split <;> rfl
  have startKept (interval : Interval) :
      (interval.stretch to_ later).start = interval.start := by
    unfold Interval.stretch
    split <;> rfl
  have rankKept (interval : Interval) : (interval.stretch to_ later).rank = interval.rank := by
    unfold Interval.stretch
    split <;> rfl
  have categoryKept (interval : Interval) :
      (interval.stretch to_ later).category = interval.category := by
    unfold Interval.stretch
    split <;> rfl
  have sameCovers : (intervals.filter (Interval.covers time ∘ Interval.stretch to_ later)) =
      intervals.filter (Interval.covers time) := by
    refine List.filter_congr fun interval among => ?_
    unfold Interval.covers
    dsimp only [Function.comp_apply]
    rw [startKept, endMoves]
    congr 1
    refine decide_eq_decide.mpr ?_
    split <;> omega
  have sameLeast : leastBy (Interval.key ∘ Interval.stretch to_ later)
      (intervals.filter (Interval.covers time)) =
      leastBy Interval.key (intervals.filter (Interval.covers time)) := by
    refine leastBy_congr fun first firstAmong second secondAmong => ?_
    have firstEnds := inSpan first (List.mem_filter.mp firstAmong).1
    have secondEnds := inSpan second (List.mem_filter.mp secondAmong).1
    unfold Interval.key
    dsimp only [Function.comp_apply]
    rw [rankKept, rankKept, endMoves, endMoves, Prod.Lex.toLex_le_toLex, Prod.Lex.toLex_le_toLex]
    dsimp only
    split <;> split <;> grind
  unfold categoryAt
  rw [List.filter_map, sameCovers, leastBy_map, sameLeast, Option.map_map]
  congr 2
  funext interval
  exact categoryKept interval

theorem boundsOf_last (inSpan : ∀ interval ∈ intervals, from_ ≤ interval.start ∧
      interval.start < interval.end_ ∧ interval.end_ ≤ to_) (isSpan : from_ ≤ to_) :
    boundsOf intervals from_ to_ = (boundsOf intervals from_ to_).filter (· < to_) ++ [to_] := by
  have ascending : ((boundsOf intervals from_ to_).filter (· < to_) ++ [to_]).Pairwise (· < ·) := by
    refine List.pairwise_append.mpr ⟨boundsOf_ascending.filter _, List.pairwise_singleton _ _, ?_⟩
    simp
  refine boundsOf_ascending.eq_of_mem_iff ascending fun bound => ?_
  rw [List.mem_append, List.mem_filter, List.mem_singleton, decide_eq_true_iff]
  constructor
  · intro isBound
    have inside : bound ≤ to_ := by
      rcases mem_boundsOf.mp isBound with ⟨interval, among, isEnd⟩ | isEnd
      · obtain ⟨_, _, _⟩ := inSpan interval among
        omega
      · omega
    exact inside.lt_or_eq.imp (fun isBefore => ⟨isBound, isBefore⟩) id
  · rintro (⟨isBound, _⟩ | rfl)
    · exact isBound
    · exact mem_boundsOf.mpr (.inr (.inr rfl))

theorem boundsOf_stretch (isLater : to_ < later)
    (inSpan : ∀ interval ∈ intervals, from_ ≤ interval.start ∧
      interval.start < interval.end_ ∧ interval.end_ ≤ to_) (isSpan : from_ < to_) :
    boundsOf (intervals.map (Interval.stretch to_ later)) from_ later =
      (boundsOf intervals from_ to_).filter (· < to_) ++ [later] := by
  have ascending : ((boundsOf intervals from_ to_).filter (· < to_) ++ [later]).Pairwise
      (· < ·) := by
    refine List.pairwise_append.mpr ⟨boundsOf_ascending.filter _, List.pairwise_singleton _ _, ?_⟩
    intro bound among other isLast
    rw [List.mem_singleton.mp isLast]
    exact (of_decide_eq_true (List.mem_filter.mp among).2).trans isLater
  refine boundsOf_ascending.eq_of_mem_iff ascending fun bound => ?_
  rw [mem_boundsOf, List.mem_append, List.mem_filter, mem_boundsOf, List.mem_singleton,
    decide_eq_true_iff]
  constructor
  · rintro (⟨_, isStretched, isBound⟩ | isBound)
    · obtain ⟨interval, among, rfl⟩ := List.mem_map.mp isStretched
      obtain ⟨_, _, isInside⟩ := inSpan interval among
      rcases isInside.lt_or_eq with isBefore | isEnd
      · rw [Interval.stretch_of_lt isBefore] at isBound
        exact .inl ⟨.inl ⟨interval, among, isBound⟩, by omega⟩
      · rw [Interval.stretch_of_eq isEnd] at isBound
        exact isBound.imp (fun isStart => ⟨.inl ⟨interval, among, .inl isStart⟩, by omega⟩) id
    · omega
  · rintro (⟨⟨interval, among, isBound⟩ | isBound, isBefore⟩ | rfl)
    · refine .inl ⟨_, List.mem_map_of_mem among, ?_⟩
      obtain ⟨_, _, isInside⟩ := inSpan interval among
      rcases isInside.lt_or_eq with endsBefore | isEnd
      · rwa [Interval.stretch_of_lt endsBefore]
      · rw [Interval.stretch_of_eq isEnd]
        exact .inl (show bound = interval.start by omega)
    · omega
    · exact .inr (.inr rfl)

/-- The windows to a later end: the last is longer. -/
theorem windowsOf_stretch (isLater : to_ < later)
    (inSpan : ∀ interval ∈ intervals, from_ ≤ interval.start ∧
      interval.start < interval.end_ ∧ interval.end_ ≤ to_) (isSpan : from_ < to_) :
    windowsOf intervals from_ to_ ≠ [] ∧
      windowsOf (intervals.map (Interval.stretch to_ later)) from_ later =
        endLast (fun _ => later) (windowsOf intervals from_ to_) := by
  have isStarted : (boundsOf intervals from_ to_).filter (· < to_) ≠ [] :=
    List.ne_nil_of_mem (List.mem_filter.mpr
      ⟨mem_boundsOf.mpr (.inr (.inl rfl)), decide_eq_true isSpan⟩)
  have sameLabels : pieces (categoryAt (intervals.map (Interval.stretch to_ later)))
      ((boundsOf intervals from_ to_).filter (· < to_) ++ [later]) =
      pieces (categoryAt intervals) ((boundsOf intervals from_ to_).filter (· < to_) ++ [later]) :=
    pieces_eq_iff.mpr fun start among => categoryAt_stretch isLater
      (fun interval among => (inSpan interval among).2.2)
      (of_decide_eq_true (List.mem_filter.mp among).2)
  rw [windowsOf_eq_pieces, windowsOf_eq_pieces, boundsOf_stretch isLater inSpan isSpan, sameLabels,
    ← @endLast_pieces _ _ _ _ to_ later isStarted, ← boundsOf_last inSpan isSpan.le]
  refine ⟨fun isNil => ?_, rfl⟩
  rw [boundsOf_last inSpan isSpan.le] at isNil
  exact pieces_ne_nil isStarted isNil

/-! ### Retargeting -/

/-- What the commands run, by rules that count the checks. -/
def runsFor (rules : CommandClassifier) (commands : List Command) : Option (List Runs) :=
  if rules.countsChecks then some (commands.map fun command =>
    match command.command with
    | some text => runsOf text rules
    | none => {}) else none

theorem retainRuns_map (isKept : Command → Bool) (runs : Command → Runs)
    (commands : List Command) :
    Breakdown.retainRuns (commands.map isKept) (commands.map runs) =
      (commands.filter isKept).map runs := by
  induction commands with
  | nil => rfl
  | cons command rest inductionHypothesis =>
    cases kept : isKept command with
    | true =>
      rw [List.filter_cons_of_pos kept, List.map_cons, List.map_cons, List.map_cons, kept]
      exact congrArg _ inductionHypothesis
    | false =>
      rw [List.filter_cons_of_neg (by rw [kept]; exact Bool.false_ne_true), List.map_cons,
        List.map_cons, kept]
      exact inductionHypothesis

/-- What the commands run does not depend on their ends. -/
theorem runsFor_map (change : Command → Command) (commands : List Command)
    (same : ∀ command, (change command).command = command.command) :
    runsFor rules (commands.map change) = runsFor rules commands := by
  unfold runsFor
  rw [List.map_map]
  congr 3
  funext command
  dsimp only [Function.comp_apply]
  rw [same]

theorem runsFor_filter (isKept : Command → Bool) (commands : List Command) :
    (runsFor rules commands).map (Breakdown.retainRuns (commands.map isKept)) =
      runsFor rules (commands.filter isKept) := by
  unfold runsFor
  split
  · rw [Option.map_some, retainRuns_map]
  · rfl

/-- A breakdown of given windows. -/
def breakdownWith (commands : List Command) (windows : List (Int × Int × String)) (from_ to_ : Int)
    (wanted : List String) (rules : CommandClassifier) : Breakdown :=
  Breakdown.count
    { totalMillis := to_ - from_
      millis := Ordered.empty
      commands := commands
      verificationRepeats := none
      fullTests := none
      llvmCovRuns := none
      to_ := to_
      windows := windows
      runs := runsFor rules commands
      wanted := wanted
      rules := rules }

variable {verification : List String}

theorem breakdown_eq :
    breakdown records from_ to_ verification rules =
      breakdownWith (commandsOf records from_ (max to_ from_) rules)
        (windowsOf (intervalsOf (commandsOf records from_ (max to_ from_) rules)
          (modelIntervals records) from_ (max to_ from_)) from_ (max to_ from_))
        from_ (max to_ from_) (verification.flatMap fun command => checkClasses command rules)
        rules := rfl

theorem cutTo_breakdownWith (commands : List Command) (windows : List (Int × Int × String))
    (wanted : List String) :
    { (breakdownWith commands windows from_ to_ wanted rules).cutTo earlier with
        totalMillis := earlier - from_, to_ := earlier }.count =
      breakdownWith ((commands.filter fun command => command.start < earlier).map
          fun command => { command with end_ := min command.end_ earlier })
        (endLast (min · earlier) (windows.filter (·.1 < earlier))) from_ earlier wanted rules := by
  have sameRuns : (runsFor rules commands).map
      (Breakdown.retainRuns (commands.map fun command => decide (command.start < earlier))) =
      runsFor rules ((commands.filter fun command => command.start < earlier).map
        fun command => { command with end_ := min command.end_ earlier }) := by
    rw [runsFor_filter]
    exact (runsFor_map (fun command => { command with end_ := min command.end_ earlier }) _
      fun _ => rfl).symm
  unfold breakdownWith
  rw [← sameRuns]
  rfl

theorem stretchTo_breakdownWith (commands : List Command) (windows : List (Int × Int × String))
    (wanted : List String) :
    { (breakdownWith commands windows from_ to_ wanted rules).stretchTo from_ later with
        totalMillis := later - from_, to_ := later }.count =
      breakdownWith (commands.map (Command.until later))
        (match windows with
          | [] => [(from_, later, idle)]
          | windows => endLast (fun _ => later) windows) from_ later wanted rules := by
  have sameRuns : runsFor rules (commands.map (Command.until later)) = runsFor rules commands :=
    runsFor_map _ _ fun command => by unfold Command.until; split <;> rfl
  unfold breakdownWith
  rw [sameRuns]
  rfl

/-- What `retarget` makes of a breakdown of given windows. -/
theorem retarget_breakdownWith (commands : List Command) (windows : List (Int × Int × String))
    (wanted : List String) (last : Option Int) (end_ : Int) (notBefore : from_ ≤ end_) :
    (breakdownWith commands windows from_ to_ wanted rules).retarget last end_ =
      if end_ = to_ then (true, breakdownWith commands windows from_ to_ wanted rules)
      else if end_ < to_ then
        (true, breakdownWith ((commands.filter fun command => command.start < end_).map
            fun command => { command with end_ := min command.end_ end_ })
          (endLast (min · end_) (windows.filter (·.1 < end_))) from_ end_ wanted rules)
      else if last.any (to_ ≤ ·) then
        (false, breakdownWith commands windows from_ to_ wanted rules)
      else
        (true, breakdownWith (commands.map (Command.until end_))
          (match windows with
            | [] => [(from_, end_, idle)]
            | windows => endLast (fun _ => end_) windows) from_ end_ wanted rules) := by
  have isFrom : (breakdownWith commands windows from_ to_ wanted rules).to_ -
      (breakdownWith commands windows from_ to_ wanted rules).totalMillis = from_ :=
    Int.sub_sub_self to_ from_
  unfold Breakdown.retarget
  dsimp only
  rw [isFrom, max_eq_left notBefore, ← @cutTo_breakdownWith from_ to_,
    ← @stretchTo_breakdownWith from_ to_]
  rfl

/-- The same commands, total, time by category, windows and counts. -/
def Breakdown.Agrees (retargeted recomputed : Breakdown) : Prop :=
  retargeted.commands = recomputed.commands ∧ retargeted.totalMillis = recomputed.totalMillis ∧
    retargeted.millis = recomputed.millis ∧ retargeted.windows = recomputed.windows ∧
    retargeted.verificationRepeats = recomputed.verificationRepeats ∧
    retargeted.fullTests = recomputed.fullTests ∧ retargeted.llvmCovRuns = recomputed.llvmCovRuns

theorem Breakdown.Agrees.refl (breakdown : Breakdown) : breakdown.Agrees breakdown :=
  ⟨rfl, rfl, rfl, rfl, rfl, rfl, rfl⟩

theorem breakdownWith_agrees {commands : List Command} {windows other : List (Int × Int × String)}
    {wanted : List String} :
    (breakdownWith commands windows from_ to_ wanted rules).Agrees
        (breakdownWith commands other from_ to_ wanted rules) ↔ windows = other :=
  ⟨fun agrees => agrees.2.2.2.1, fun same => same ▸ Breakdown.Agrees.refl _⟩

/-- Of the commands and the model's time that lead together at a time, if all last to the end
`earlier` or longer, the first counts to the category of the first to end. -/
def LeadAlike (intervals : List Interval) (earlier time : Int) : Prop :=
  (∀ interval ∈ leadersAt intervals time, earlier ≤ interval.end_) →
    (leadersAt intervals time).head?.map Interval.category =
      (leastBy Interval.end_ (leadersAt intervals time)).map Interval.category

theorem leadAlike_iff {time : Int} (isEarlier : time < earlier) :
    LeadAlike intervals earlier time ↔
      categoryAt intervals time = categoryAt (endedAt earlier intervals) time := by
  rw [categoryAt_endedAt isEarlier, categoryAt_eq_leaders]
  unfold LeadAlike
  split
  next allOpen =>
    rw [forall_prop_of_true allOpen]
    cases leaders : leadersAt intervals time with
    | nil => exact iff_of_true rfl rfl
    | cons first rest =>
      cases least : leastBy Interval.end_ (first :: rest) with
      | none => exact absurd (leastBy_eq_none.mp least) (List.cons_ne_nil first rest)
      | some ended => simp [eq_comm]
  next someEnds => exact iff_of_true (fun allOpen => absurd allOpen someEnds) rfl

theorem retarget_self (isSpan : from_ ≤ to_) (last : Option Int) :
    (breakdown records from_ to_ verification rules).retarget last to_ =
      (true, breakdown records from_ to_ verification rules) := by
  rw [breakdown_eq, max_eq_left isSpan, retarget_breakdownWith _ _ _ _ _ isSpan, if_pos rfl]

/-- Cut to an earlier end it is the breakdown to that end exactly where all leaders that last to
the end lead alike. -/
theorem retarget_earlier (isSpan : from_ ≤ to_) (notBefore : from_ ≤ earlier)
    (isEarlier : earlier < to_) (last : Option Int) :
    ((breakdown records from_ to_ verification rules).retarget last earlier).1 = true ∧
      (((breakdown records from_ to_ verification rules).retarget last earlier).2.Agrees
        (breakdown records from_ earlier verification rules) ↔
      ∀ time, from_ ≤ time → time < earlier → LeadAlike (intervalsOf
        (commandsOf records from_ to_ rules) (modelIntervals records) from_ to_) earlier time) := by
  rw [breakdown_eq, breakdown_eq, max_eq_left isSpan, max_eq_left notBefore,
    retarget_breakdownWith _ _ _ _ _ notBefore, if_neg isEarlier.ne, if_pos isEarlier]
  refine ⟨rfl, ?_⟩
  dsimp only
  rw [commandsOf_earlier isEarlier.le, intervalsOf_earlier _ _ isEarlier.le, breakdownWith_agrees,
    windowsOf_endedAt (intervalsOf_inSpan _ _) notBefore isEarlier]
  exact forall_congr' fun time => forall_congr' fun _ => forall_congr' fun isBefore =>
    (leadAlike_iff isBefore).symm

/-- To a later end it is the breakdown to that end, or left as it was. -/
theorem retarget_later (isSpan : from_ ≤ to_) (isLater : to_ < later) (last : Option Int)
    (isLast : last = (records.map TranscriptRecord.at_).max?) :
    (((breakdown records from_ to_ verification rules).retarget last later).1 = true →
      ((breakdown records from_ to_ verification rules).retarget last later).2 =
        breakdown records from_ later verification rules) ∧
    (((breakdown records from_ to_ verification rules).retarget last later).1 = false →
      ((breakdown records from_ to_ verification rules).retarget last later).2 =
        breakdown records from_ to_ verification rules) := by
  have notBefore := isSpan.trans isLater.le
  rw [breakdown_eq, breakdown_eq, max_eq_left isSpan, max_eq_left notBefore,
    retarget_breakdownWith _ _ _ _ _ notBefore, if_neg isLater.ne', if_neg isLater.le.not_gt]
  split
  next reached => exact ⟨nofun, fun _ => rfl⟩
  next notReached =>
    refine ⟨fun _ => ?_, nofun⟩
    have allBefore : ∀ record ∈ records, record.at_ < to_ := by
      intro record among
      have isTime : record.at_ ∈ records.map TranscriptRecord.at_ := List.mem_map_of_mem among
      obtain ⟨latest, isLatest⟩ := Option.isSome_iff_exists.mp (List.isSome_max?_of_mem isTime)
      rw [isLast, isLatest, Option.any_some, decide_eq_true_iff, not_le] at notReached
      exact ((List.max?_eq_some_iff.mp isLatest).2 _ isTime).trans_lt notReached
    dsimp only
    rw [commandsOf_later allBefore isLater.le]
    rw [← commandsOf_later allBefore isLater.le, intervalsOf_later allBefore isLater]
    congr 1
    rcases isSpan.lt_or_eq with isLong | rfl
    · obtain ⟨isStarted, same⟩ := windowsOf_stretch isLater (intervalsOf_inSpan _ _) isLong
      rw [same]
      split
      next isNil => exact absurd isNil isStarted
      next => rfl
    · have noIntervals : intervalsOf (commandsOf records from_ from_ rules)
          (modelIntervals records) from_ from_ = [] := by
        refine List.eq_nil_iff_forall_not_mem.mpr fun interval among => ?_
        obtain ⟨_, _, _⟩ := intervalsOf_inSpan _ _ interval among
        omega
      rw [noIntervals, List.map_nil, windowsOf_nil_self, windowsOf_nil isLater]

theorem breakdown_max :
    breakdown records from_ (max to_ from_) verification rules =
      breakdown records from_ to_ verification rules := by
  unfold breakdown
  dsimp only
  rw [max_assoc, max_self]

theorem retarget_max (last : Option Int) (end_ : Int) :
    (breakdown records from_ to_ verification rules).retarget last (max end_ from_) =
      (breakdown records from_ to_ verification rules).retarget last end_ := by
  have isFrom : (breakdown records from_ to_ verification rules).to_ -
      (breakdown records from_ to_ verification rules).totalMillis = from_ :=
    Int.sub_sub_self (max to_ from_) from_
  unfold Breakdown.retarget
  dsimp only
  rw [isFrom, max_assoc, max_self]

/-- A breakdown made to another end, the last record of its transcript at the records' latest
time, is the breakdown to that end, or is left as it was, exactly where the end is not an earlier
one or all leaders that last to it lead alike. -/
theorem retarget_exact (records : List TranscriptRecord) (from_ to_ end_ : Int)
    (verification : List String) (rules : CommandClassifier) :
    let made := breakdown records from_ to_ verification rules
    let retargeted := made.retarget (records.map TranscriptRecord.at_).max? end_
    ((retargeted.1 = true →
        retargeted.2.Agrees (breakdown records from_ end_ verification rules)) ∧
      (retargeted.1 = false → retargeted.2 = made)) ↔
      (max to_ from_ ≤ max end_ from_ ∨ ∀ time, from_ ≤ time → time < end_ →
        LeadAlike (intervalsOf (commandsOf records from_ (max to_ from_) rules)
          (modelIntervals records) from_ (max to_ from_)) end_ time) := by
  dsimp only
  have isSpan : from_ ≤ max to_ from_ := le_max_right _ _
  have notBefore : from_ ≤ max end_ from_ := le_max_right _ _
  rw [← @breakdown_max from_ to_, ← @breakdown_max from_ end_, ← retarget_max]
  rcases lt_or_ge (max end_ from_) (max to_ from_) with isEarlier | notEarlier
  · obtain ⟨isDone, agrees⟩ := @retarget_earlier _ _ _ records rules verification isSpan
      notBefore isEarlier (records.map TranscriptRecord.at_).max?
    rw [isDone, forall_prop_of_true rfl, agrees]
    constructor
    · rintro ⟨alike, -⟩
      refine .inr fun time isAfter isBefore => ?_
      have sameEnd : max end_ from_ = end_ := max_eq_left (isAfter.trans isBefore.le)
      rw [← sameEnd]
      exact alike time isAfter (by rwa [sameEnd])
    · rintro (notEarlier | alike)
      · exact absurd isEarlier notEarlier.not_gt
      · refine ⟨fun time isAfter isBefore => ?_, nofun⟩
        rcases le_total from_ end_ with isEnd | isEnd
        · rw [max_eq_left isEnd] at isBefore ⊢
          exact alike time isAfter isBefore
        · rw [max_eq_right isEnd] at isBefore
          exact absurd isAfter isBefore.not_ge
  · refine iff_of_true ?_ (.inl notEarlier)
    rcases notEarlier.eq_or_lt with sameEnd | isLater
    · rw [← sameEnd, retarget_self isSpan]
      exact ⟨fun _ => Breakdown.Agrees.refl _, nofun⟩
    · obtain ⟨done, kept⟩ := @retarget_later _ _ records rules _ verification isSpan
        isLater _ rfl
      exact ⟨fun isDone => done isDone ▸ Breakdown.Agrees.refl _, kept⟩

/-- Of two commands that start together, both of a project's own groups, the first to end leads:
cut before either ends, the windows still count to it, and the breakdown to that end counts
to the other. -/
theorem retarget_misses_leader :
    let rules : CommandClassifier :=
      { classifyText := fun command =>
          if command = "ruff check" then some ⟨"lint", "lint", .project⟩
          else if command = "make deploy" then some ⟨"deploy", "deploy", .project⟩ else none
        partClasses := fun _ => []
        countsChecks := false
        namesFailedTests := false }
    let records : List TranscriptRecord :=
      [{ at_ := 0, assistant := true, toolUses :=
          [{ id := "1", name := "Bash", command := some "ruff check" },
            { id := "2", name := "Bash", command := some "make deploy" }] },
        { at_ := 10, toolResults := [{ toolUseId := "2" }] },
        { at_ := 20, toolResults := [{ toolUseId := "1" }] }]
    let retargeted := (breakdown records 0 30 [] rules).retarget
      (records.map TranscriptRecord.at_).max? 5
    retargeted.1 = true ∧ retargeted.2.windows = [(0, 5, "deploy")] ∧
      (breakdown records 0 5 [] rules).windows = [(0, 5, "lint")] := by
  decide

end Dagq.Work
