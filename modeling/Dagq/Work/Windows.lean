/-
This file proves that a breakdown counts every millisecond of its span to one category.
The windows tile the span: no interval starts or ends within one, so the intervals over
a window are those over each of its times, and the window counts to the category of the
first of them. The milliseconds of a category are its times of the span, and those of
all categories add up to the span.
-/

import Dagq.Work.Retarget

namespace Dagq.Work

open Lib

/-! ### Intervals and what is left of them in the span -/

/-- The stretches of time of the commands and the model, not cut to a span. -/
def stretches (commands : List Command) (modelTime : List (Int × Int)) : List Interval :=
  (commands.map fun command =>
    Interval.mk command.start command.end_ command.priority command.category) ++
      modelTime.map fun time => Interval.mk time.1 time.2 4 model

/-- What comes first among the intervals over a time: the lower priority, then the earlier
category. -/
def Interval.standing (interval : Interval) : ℕ ×ₗ ℕ :=
  toLex (interval.priority, order interval.category)

/-- What a time counts to: the category of the interval over it that comes first, `idle` where
none is over it. -/
inductive CountsTo (intervals : List Interval) (time : Int) : String → Prop
  | first (interval : Interval) (among : interval ∈ intervals)
      (isOver : interval.covers time = true)
      (isFirst : ∀ other ∈ intervals, other.covers time = true →
        interval.standing ≤ other.standing) :
      CountsTo intervals time interval.category
  | idle (isFree : ∀ other ∈ intervals, other.covers time = false) :
      CountsTo intervals time Work.idle

variable {commands : List Command} {modelTime : List (Int × Int)} {intervals : List Interval}
  {from_ to_ time : Int}

theorem intervalsOf_eq_stretches :
    intervalsOf commands modelTime from_ to_ =
      ((stretches commands modelTime).map (Interval.cut from_ to_)).filter fun interval =>
        interval.start < interval.end_ := rfl

/-- Within the span, an interval is over the times what is left of it is over. -/
theorem Interval.covers_cut (interval : Interval) (isAfter : from_ ≤ time) (isBefore : time < to_) :
    (interval.cut from_ to_).covers time = interval.covers time := by
  unfold Interval.covers Interval.cut
  dsimp only
  rw [Bool.eq_iff_iff, Bool.and_eq_true, Bool.and_eq_true, decide_eq_true_iff, decide_eq_true_iff,
    decide_eq_true_iff, decide_eq_true_iff]
  omega

theorem Interval.long_of_covers {interval : Interval} (isOver : interval.covers time = true) :
    interval.start < interval.end_ := by
  unfold Interval.covers at isOver
  simp only [Bool.and_eq_true, decide_eq_true_iff] at isOver
  exact isOver.1.trans_lt isOver.2

/-- The cut intervals over a time of the span are those over it, cut. -/
theorem mem_intervalsOf_covering (isAfter : from_ ≤ time) (isBefore : time < to_)
    {interval : Interval} :
    interval ∈ (intervalsOf commands modelTime from_ to_).filter (Interval.covers time) ↔
      ∃ whole ∈ stretches commands modelTime, whole.covers time = true ∧
        whole.cut from_ to_ = interval := by
  rw [List.mem_filter, intervalsOf_eq_stretches, List.mem_filter, List.mem_map]
  constructor
  · rintro ⟨⟨⟨whole, among, rfl⟩, _⟩, isOver⟩
    exact ⟨whole, among, (whole.covers_cut isAfter isBefore).symm.trans isOver, rfl⟩
  · rintro ⟨whole, among, isOver, rfl⟩
    have isCutOver := (whole.covers_cut isAfter isBefore).trans isOver
    exact ⟨⟨⟨whole, among, rfl⟩, decide_eq_true (Interval.long_of_covers isCutOver)⟩, isCutOver⟩

theorem Interval.standing_le_of_key_le {interval other : Interval}
    (isLe : interval.key ≤ other.key) : interval.standing ≤ other.standing := by
  unfold Interval.key Interval.rank at isLe
  unfold Interval.standing
  rw [Prod.Lex.toLex_le_toLex] at isLe ⊢
  rcases isLe with ranked | ⟨sameRank, _⟩
  · rw [Prod.Lex.toLex_lt_toLex] at ranked
    refine ranked.imp id fun both => ⟨both.1, ?_⟩
    rcases Prod.Lex.toLex_lt_toLex.mp both.2 with earlier | same
    · exact earlier.le
    · exact same.1.le
  · obtain ⟨samePriority, sameRest⟩ := Prod.mk.inj sameRank
    exact .inr ⟨samePriority, (Prod.mk.inj sameRest).1.le⟩

/-- A time of the span counts to the category of the first interval over it. -/
theorem categoryAt_countsTo (isAfter : from_ ≤ time) (isBefore : time < to_) :
    CountsTo (stretches commands modelTime) time
      (categoryAt (intervalsOf commands modelTime from_ to_) time) := by
  unfold categoryAt
  cases least : leastBy Interval.key
      ((intervalsOf commands modelTime from_ to_).filter (Interval.covers time)) with
  | none =>
    refine CountsTo.idle fun other among => ?_
    rw [← Bool.not_eq_true]
    intro isOver
    have isThere := (mem_intervalsOf_covering isAfter isBefore).mpr ⟨other, among, isOver, rfl⟩
    rw [leastBy_eq_none.mp least] at isThere
    cases isThere
  | some interval =>
    obtain ⟨member, isLe⟩ := leastBy_spec least
    obtain ⟨whole, among, isOver, rfl⟩ := (mem_intervalsOf_covering isAfter isBefore).mp member
    refine CountsTo.first whole among isOver fun other otherAmong otherOver => ?_
    have isCutThere := (mem_intervalsOf_covering isAfter isBefore).mpr
      ⟨other, otherAmong, otherOver, rfl⟩
    show (whole.cut from_ to_).standing ≤ (other.cut from_ to_).standing
    exact Interval.standing_le_of_key_le (isLe (other.cut from_ to_) isCutThere)

/-- A time counts to `idle` exactly when nothing is over it, where nothing is called `idle`. -/
theorem CountsTo.idle_iff {category : String} (counts : CountsTo intervals time category)
    (named : ∀ interval ∈ intervals, interval.category ≠ Work.idle) :
    category = Work.idle ↔ ∀ other ∈ intervals, other.covers time = false := by
  cases counts with
  | first interval among isOver isFirst =>
    refine iff_of_false (named interval among) fun isFree => ?_
    rw [isFree interval among] at isOver
    cases isOver
  | idle isFree => exact iff_of_true rfl isFree

theorem stretches_named (named : ∀ command ∈ commands, command.category ≠ Work.idle) :
    ∀ interval ∈ stretches commands modelTime, interval.category ≠ Work.idle := by
  intro interval among
  rcases List.mem_append.mp among with ofCommand | ofModel
  · obtain ⟨command, isCommand, rfl⟩ := List.mem_map.mp ofCommand
    exact named command isCommand
  · obtain ⟨time, _, rfl⟩ := List.mem_map.mp ofModel
    show model ≠ Work.idle
    decide

/-! ### The windows of a span -/

theorem mem_intervalsOf_span {interval : Interval}
    (among : interval ∈ intervalsOf commands modelTime from_ to_) :
    from_ ≤ interval.start ∧ interval.start < interval.end_ ∧ interval.end_ ≤ to_ := by
  rw [intervalsOf_eq_stretches] at among
  obtain ⟨isCut, isLong⟩ := List.mem_filter.mp among
  obtain ⟨whole, _, rfl⟩ := List.mem_map.mp isCut
  exact ⟨le_max_right _ _, of_decide_eq_true isLong, min_le_right _ _⟩

theorem boundsOf_span (isSpan : from_ ≤ to_) {bound : Int}
    (isBound : bound ∈ boundsOf (intervalsOf commands modelTime from_ to_) from_ to_) :
    from_ ≤ bound ∧ bound ≤ to_ := by
  rcases mem_boundsOf.mp isBound with ⟨interval, among, isEnd⟩ | isEnd
  · have := mem_intervalsOf_span among
    omega
  · omega

/-- The windows tile the span. -/
theorem windowsOf_tiles (isSpan : from_ ≤ to_) :
    Tiles (·.1) (·.2.1) from_
      (windowsOf (intervalsOf commands modelTime from_ to_) from_ to_) to_ := by
  rw [windowsOf_eq_pieces]
  refine tiles_pieces_span boundsOf_ascending (mem_boundsOf.mpr (.inr (.inl rfl)))
    (mem_boundsOf.mpr (.inr (.inr rfl))) fun bound isBound => boundsOf_span isSpan isBound

/-- Every time of a window counts to its category. -/
theorem windowsOf_categoryAt {start end_ : Int} {category : String}
    (isWindow : (start, end_, category) ∈ windowsOf intervals from_ to_)
    (isAfter : start ≤ time) (isBefore : time < end_) :
    categoryAt intervals time = category := by
  rw [windowsOf_eq_pieces] at isWindow
  obtain ⟨⟨first, last⟩, isPiece, isSame⟩ := List.mem_map.mp isWindow
  obtain ⟨rfl, same⟩ := Prod.mk.inj isSame
  obtain ⟨rfl, rfl⟩ := Prod.mk.inj same
  have gap := (zip_tail_gap boundsOf_ascending isPiece).2
  have sameLeaders : leadersAt intervals time = leadersAt intervals first := by
    refine @categoryAt_floor intervals from_ to_ first time isAfter fun bound isBound reached => ?_
    rcases gap bound isBound with notLater | later
    · exact notLater
    · exact absurd (isBefore.trans_le later) (not_lt.mpr reached)
  rw [categoryAt_eq_leaders, categoryAt_eq_leaders, sameLeaders]

/-! ### Milliseconds by category -/

namespace Breakdown

/-- Windows counted onto what is counted already. -/
def countOnto (millis : Ordered String Int) (windows : List (Int × Int × String)) :
    Ordered String Int :=
  windows.foldl (fun millis (start, end_, category) =>
    millis.insert category ((millis.get? category).getD 0 + (end_ - start))) millis

variable {millis : Ordered String Int} {windows : List (Int × Int × String)}

theorem countOnto_get? (category : String) :
    ((countOnto millis windows).get? category).getD 0 = (millis.get? category).getD 0 +
      ((windows.filter fun window => window.2.2 = category).map fun window =>
        window.2.1 - window.1).sum := by
  induction windows generalizing millis with
  | nil => simp [countOnto]
  | cons window rest inductionHypothesis =>
    obtain ⟨start, end_, label⟩ := window
    show ((countOnto (millis.insert label _) rest).get? category).getD 0 = _
    rw [inductionHypothesis, Ordered.get?_insert, List.filter_cons]
    by_cases same : category = label
    · subst same
      simp [add_assoc]
    · simp [same, Ne.symm same]

theorem countOnto_sum :
    (countOnto millis windows).values.sum =
      millis.values.sum + (windows.map fun window => window.2.1 - window.1).sum := by
  induction windows generalizing millis with
  | nil => simp [countOnto]
  | cons window rest inductionHypothesis =>
    show (countOnto (millis.insert window.2.2 _) rest).values.sum = _
    rw [inductionHypothesis, Ordered.sum_values_add, List.map_cons, List.sum_cons, add_assoc]

end Breakdown

/-- Every millisecond of the span counts to one category: the windows tile it, each of their
times counts to the category of the first interval over it and to `idle` where there is none,
a category has as many milliseconds as times count to it, and all have those of the span. -/
theorem assemble_counts_once (commands : List Command) (modelTime : List (Int × Int))
    (from_ to_ : Int) (verification : List String) (rules : CommandClassifier)
    (isSpan : from_ ≤ to_) :
    let made := assemble commands modelTime from_ to_ verification rules
    Tiles (·.1) (·.2.1) from_ made.windows to_ ∧
      (∀ start end_ category, (start, end_, category) ∈ made.windows →
        ∀ time, start ≤ time → time < end_ →
          CountsTo (stretches commands modelTime) time category ∧
            ((∀ command ∈ commands, command.category ≠ idle) →
              (category = idle ↔
                ∀ interval ∈ stretches commands modelTime, interval.covers time = false))) ∧
      (∀ category, (made.millis.get? category).getD 0 =
        ((Finset.Ico from_ to_).filter fun time => ∃ window ∈ made.windows,
          window.1 ≤ time ∧ time < window.2.1 ∧ window.2.2 = category).card) ∧
      made.millis.values.sum = to_ - from_ := by
  intro made
  have tiles : Tiles (·.1) (·.2.1) from_ made.windows to_ := windowsOf_tiles isSpan
  have contiguous := tiles.contiguous
  have counts : ∀ window ∈ made.windows, ∀ time, window.1 ≤ time → time < window.2.1 →
      categoryAt (intervalsOf commands modelTime from_ to_) time = window.2.2 :=
    fun window isWindow time isAfter isBefore => windowsOf_categoryAt isWindow isAfter isBefore
  refine ⟨tiles, ?_, ?_, ?_⟩
  · intro start end_ category isWindow time isAfter isBefore
    have inSpan := Contiguous.mem_span contiguous isWindow
    have isCounted : CountsTo (stretches commands modelTime) time category := by
      have isCategory : categoryAt (intervalsOf commands modelTime from_ to_) time = category :=
        counts _ isWindow time isAfter isBefore
      rw [← isCategory]
      exact categoryAt_countsTo (inSpan.1.trans isAfter) (isBefore.trans_le inSpan.2)
    exact ⟨isCounted, fun named => isCounted.idle_iff (stretches_named named)⟩
  · intro category
    have ofWindows := Contiguous.card_filter contiguous counts category
    have sameTimes : ((Finset.Ico from_ to_).filter fun time => ∃ window ∈ made.windows,
        window.1 ≤ time ∧ time < window.2.1 ∧ window.2.2 = category) =
          (Finset.Ico from_ to_).filter fun time =>
            categoryAt (intervalsOf commands modelTime from_ to_) time = category := by
      refine Finset.filter_congr fun time among => ?_
      obtain ⟨isAfter, isBefore⟩ := Finset.mem_Ico.mp among
      constructor
      · rintro ⟨window, isWindow, isStarted, isOpen, rfl⟩
        exact counts window isWindow time isStarted isOpen
      · intro isCategory
        obtain ⟨window, isWindow, isStarted, isOpen⟩ :=
          Contiguous.exists_piece contiguous isAfter isBefore
        exact ⟨window, isWindow, isStarted, isOpen,
          (counts window isWindow time isStarted isOpen).symm.trans isCategory⟩
    rw [sameTimes, ← ofWindows]
    exact (Breakdown.countOnto_get? category).trans (zero_add _)
  · have isSum : made.millis.values.sum =
        (made.windows.map fun window => window.2.1 - window.1).sum :=
      Breakdown.countOnto_sum.trans (zero_add _)
    rw [isSum]
    exact tiles.sum

/-- A test over a command in the background, and the model before the span and in it. -/
theorem assemble_counts_once_overlapping :
    let command : Bool → Int → Int → String → Command := fun background start end_ category =>
      ⟨"t", "Bash", category, false, start, end_, true, background, none, none, none, none, []⟩
    let rules : CommandClassifier := ⟨fun _ => none, fun _ => [], false, false⟩
    let made := assemble [command true 2 9 "build", command false 4 6 "test"] [(-3, 3), (8, 12)]
      0 10 [] rules
    made.windows = [(0, 2, "model"), (2, 3, "build"), (3, 4, "build"), (4, 6, "test"),
        (6, 8, "build"), (8, 9, "build"), (9, 10, "model")] ∧
      made.millis.values.sum = 10 - 0 := by
  intro command rules made
  refine ⟨by decide +kernel, ?_⟩
  exact (assemble_counts_once _ _ 0 10 [] rules (by decide)).2.2.2

end Dagq.Work
