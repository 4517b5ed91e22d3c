/-
This file proves that the tokens prepared for a span give at every cut what reading the
span to that cut gives. The records a cut takes are the same in both orders, and of the
steps the last before the cut is written once they are all read.
-/

import Dagq.Tokens.Prepared

namespace Dagq.Tokens

open Lib Ledger

variable {Cost : Type}

/-! ### The records to a cut -/

theorem within_ascending (records : List (TranscriptRecord Cost)) (start end_ : Int) :
    (within records start end_).Pairwise fun first second => first.2 < second.2 := by
  refine List.Pairwise.filter _ (List.pairwise_map.mp ?_)
  rw [List.zipIdx_map_snd]
  exact List.pairwise_lt_range'

theorem placed_of_perm {items : List (Item Cost)} {records : List (TranscriptRecord Cost)}
    {start end_ : Int} (same : items.Perm (within records start end_)) : Placed items := by
  have nodup : ((within records start end_).map Prod.snd).Nodup :=
    List.pairwise_map.mpr ((within_ascending records start end_).imp ne_of_lt)
  intro first isFirst second isSecond samePlace
  exact List.inj_on_of_nodup_map nodup (same.mem_iff.mp isFirst) (same.mem_iff.mp isSecond) samePlace

theorem UsageScan.read_outside {start end_ : Int} (scan : UsageScan Cost) (item : Item Cost)
    (outside : item.1.inSpan start end_ = false) : scan.read start end_ item = .ok scan := by
  simp [read, outside]

theorem ModelScan.read_outside {start end_ : Int} (scan : ModelScan) (item : Item Cost)
    (outside : item.1.inSpan start end_ = false) : scan.read start end_ item = scan := by
  simp [read, outside]

theorem Placed.mono {items others : List (Item Cost)} (placed : Placed items)
    (among : others ⊆ items) : Placed others :=
  fun first isFirst second isSecond => placed first (among isFirst) second (among isSecond)

theorem foldl_of_perm {State : Type} {step : State → Item Cost → State}
    (swaps : ∀ state first second, first.2 ≠ second.2 →
      step (step state first) second = step (step state second) first)
    {items others : List (Item Cost)} (placed : Placed items) (same : items.Perm others)
    (state : State) : items.foldl step state = others.foldl step state := by
  refine same.foldl_eq' (fun first isFirst second isSecond state => ?_) state
  by_cases samePlace : first.2 = second.2
  · rw [placed first isFirst second isSecond samePlace]
  · exact swaps state first second samePlace

section

variable {records : List (TranscriptRecord Cost)} {start end_ : Int} {items : List (Item Cost)}
  {state : Prepared Cost}

/-- The steps written are not of what is read. -/
theorem Reads.withSteps (reads : Reads items state) (steps : List (Int × Cut Cost)) :
    Reads items { state with steps := steps } where
  unsupported := reads.unsupported
  messages := reads.messages
  totals := reads.totals
  withoutCost := reads.withoutCost
  named := reads.named
  places := reads.places

theorem Reads.withoutCost_iff (reads : Reads items state) :
    state.withoutCost = 0 ↔ ∀ message ∈ state.messages.values, message.cost ≠ none := by
  have counted := reads.withoutCost
  constructor
  · intro isZero message among noCost
    obtain ⟨key, found⟩ := Ordered.mem_values.mp among
    have := Prepared.withoutCost_pos counted found noCost
    omega
  · intro all
    have each : (state.messages.values.map fun message =>
        if message.cost.isNone then (1 : Int) else 0) = state.messages.values.map fun _ => 0 :=
      List.map_congr_left fun message among => by simp [all message among]
    rw [each] at counted
    simpa using counted

variable [Costs Cost]

theorem costs_of_all {messages : List (Kept Cost)}
    (all : ∀ message ∈ messages, message.cost ≠ none) :
    sumCosts (messages.map fun kept => kept.message.cost) =
      some ((messages.map fun message => message.cost.elim Costs.zero Prod.snd).foldl Costs.add
        Costs.zero) := by
  have each : ∀ cost ∈ messages.map fun kept => kept.message.cost, cost ≠ none := by
    intro cost among
    obtain ⟨kept, isKept, rfl⟩ := List.mem_map.mp among
    simpa [Kept.message] using all kept isKept
  rw [sumCosts, sumCosts_of_all each, List.map_map]
  congr 2
  refine List.map_congr_left fun kept isKept => ?_
  obtain ⟨last, isLast⟩ := Option.ne_none_iff_exists'.mp (all kept isKept)
  simp [Kept.message, isLast]

theorem costs_of_missing {messages : List (Kept Cost)}
    (missing : ¬ ∀ message ∈ messages, message.cost ≠ none) :
    sumCosts (messages.map fun kept => kept.message.cost) = none := by
  push Not at missing
  obtain ⟨kept, isKept, noCost⟩ := missing
  exact sumCosts_of_missing (List.mem_map.mpr ⟨kept, isKept, by simp [Kept.message, noCost]⟩) _

/-- Once the records of a span are read, in any order, their tokens are those of the span. -/
theorem Reads.usage (reads : Reads items state) (same : items.Perm (within records start end_))
    (some : items ≠ []) : state.cut.1 = spanUsage records start end_ := by
  have messages : state.messages = (within records start end_).foldl usageInto .empty := by
    rw [reads.messages]
    exact foldl_of_perm (fun messages _ _ => usageInto_comm messages) (placed_of_perm same) same _
  obtain ⟨stops, goesOn⟩ := usageScan_reads (within_ascending records start end_)
    fun item among => (List.mem_filter.mp among).2
  unfold Prepared.cut spanUsage
  rw [foldlM_filter_kept UsageScan.read_outside, ← within, reads.unsupported, same.any_eq]
  cases readable : (within records start end_).any unreadable with
  | true =>
    rw [stops readable]
    rfl
  | false =>
    obtain ⟨scan, isScan, assistants, kept⟩ := goesOn readable
    have values : scan.messages.values = state.messages.values.map Kept.message := by
      have entries := Ordered.entries_eq_map fun key => (kept key).trans (by rw [← messages])
      rw [Ordered.values, entries, List.map_map, Ordered.values, List.map_map]
      rfl
    have notNone : scan.assistants > 0 := by
      rw [assistants, ← same.length_eq]
      exact List.length_pos_of_ne_nil some
    rw [isScan]
    simp only [bind, Except.bind, values, List.isEmpty_map, List.map_map, Bool.false_or, notNone, decide_true,
      Bool.true_and, List.length_map]
    split
    · rfl
    · have sums : state.totals = fun kind =>
          sumCounts (state.messages.values.map fun kept => kept.message.counts kind) := by
        funext kind
        rw [reads.totals, sumCounts_eq]
        rfl
      have costs : (if state.withoutCost = 0 then
            Option.some ((state.messages.values.map
              fun message => message.cost.elim Costs.zero Prod.snd).foldl Costs.add Costs.zero)
          else none) = sumCosts (state.messages.values.map fun kept => kept.message.cost) := by
        split
        · next isZero => rw [costs_of_all (reads.withoutCost_iff.mp isZero)]
        · next notZero => rw [costs_of_missing fun all => notZero (reads.withoutCost_iff.mpr all)]
      rw [sums, costs]
      rfl

/-- Once the records of a span are read, in any order, their models are those of the span. -/
theorem Reads.models (reads : Reads items state) (same : items.Perm (within records start end_)) :
    state.cut.2 = spanModels records start end_ := by
  have named : state.named = (within records start end_).foldl namedInto .empty := by
    rw [reads.named]
    exact foldl_of_perm (fun named _ _ => namedInto_comm named) (placed_of_perm same) same _
  obtain ⟨_, counted⟩ := modelScan_reads (within_ascending records start end_)
    fun item among => (List.mem_filter.mp among).2
  have entries := @Ordered.entries_eq_map _ _ _ _ ((within records start end_).foldl
      (ModelScan.read start end_) {}).pairs state.pairs
      (fun places => ((places.card : Int), places.sup id)) fun pair => by
    rw [counted, ← named, ← reads.places.places]
    cases found : state.pairs.get? pair with
    | none => rfl
    | some places =>
      have notEmpty : places ≠ ∅ := fun isEmpty => reads.places.held pair (isEmpty ▸ found)
      rw [Option.getD_some, if_neg notEmpty, Option.map_some]
  have isScan : records.zipIdx.foldl (ModelScan.read start end_) {} =
      (within records start end_).foldl (ModelScan.read start end_) {} := foldl_filter_kept ModelScan.read_outside _ _
  rw [spanModels, isScan]
  have uses := congrArg (List.map fun entry : ModelPair × Int × Nat =>
    (({ model := (ofLex entry.1).1, effort := (ofLex entry.1).2, messages := entry.2.1 } : ModelUse),
      entry.2.2)) entries
  exact congrArg mostFirst (uses.trans List.map_map).symm

/-! ### The steps -/

/-- What the last step before a cut is. -/
def lastBefore (steps : List (Int × Cut Cost)) (cut : Int) : Option (Int × Cut Cost) :=
  (steps.takeWhile fun step => decide (step.1 < cut)).getLast?

/-- The records before a cut. -/
def itemsBefore (items : List (Item Cost)) (cut : Int) : List (Item Cost) :=
  items.takeWhile fun item => decide (item.1.at_ < cut)

omit [Costs Cost] in
theorem takeWhile_before {steps : List (Int × Cut Cost)} {cut : Int}
    (before : ∀ step ∈ steps, step.1 < cut) :
    (steps.takeWhile fun step => decide (step.1 < cut)) = steps := by
  have all := @List.takeWhile_append_of_pos _ (fun step => decide (step.1 < cut)) steps []
    fun step among => decide_eq_true (before step among)
  simpa using all

namespace Prepared

omit [Costs Cost] in
theorem read_steps (state : Prepared Cost) (item : Item Cost) :
    (state.read item).steps = state.steps := by
  unfold read readModel readUsage
  grind

theorem take_steps (state : Prepared Cost) (items : List (Item Cost)) :
    ∃ added, (state.take items).steps = state.steps ++ added ∧
      ∀ step ∈ added, ∃ item ∈ items, item.1.at_ = step.1 := by
  induction items generalizing state with
  | nil => exact ⟨[], by simp [take], nofun⟩
  | cons item rest inductionHypothesis =>
    unfold take
    dsimp only
    split
    · obtain ⟨added, isSteps, times⟩ := inductionHypothesis (state.read item)
      refine ⟨added, by rw [isSteps, read_steps], fun step among => ?_⟩
      obtain ⟨other, isOther, isTime⟩ := times step among
      exact ⟨other, List.mem_cons_of_mem _ isOther, isTime⟩
    · obtain ⟨added, isSteps, times⟩ := inductionHypothesis { state.read item with
        steps := (state.read item).steps ++ [(item.1.at_, (state.read item).cut)] }
      refine ⟨(item.1.at_, (state.read item).cut) :: added,
        by rw [isSteps, read_steps, List.append_assoc, List.singleton_append], fun step among => ?_⟩
      rcases List.mem_cons.mp among with rfl | isLater
      · exact ⟨item, List.mem_cons_self, rfl⟩
      · obtain ⟨other, isOther, isTime⟩ := times step isLater
        exact ⟨other, List.mem_cons_of_mem _ isOther, isTime⟩

/-- The last step before a cut is written once the records before the cut are read. -/
theorem lastBefore_take {read : List (Item Cost)} {state : Prepared Cost} (cut : Int)
    (items : List (Item Cost))
    (reads : Reads read state) (placed : Placed (read ++ items))
    (sorted : items.Pairwise fun first second => first.1.at_ ≤ second.1.at_)
    (before : ∀ step ∈ state.steps, step.1 < cut) :
    ∃ after : Prepared Cost, Reads (read ++ itemsBefore items cut) after ∧
      (itemsBefore items cut = [] → lastBefore (state.take items).steps cut = state.steps.getLast?) ∧
      (itemsBefore items cut ≠ [] →
        ∃ time, lastBefore (state.take items).steps cut = some (time, after.cut)) := by
  induction items generalizing read state with
  | nil =>
    refine ⟨state, by simpa [itemsBefore] using reads, fun _ => ?_, fun some => absurd rfl some⟩
    rw [take, lastBefore, takeWhile_before before]
  | cons item rest inductionHypothesis =>
    obtain ⟨later, sortedRest⟩ := List.pairwise_cons.mp sorted
    by_cases inCut : item.1.at_ < cut
    · have isBefore : itemsBefore (item :: rest) cut = item :: itemsBefore rest cut := by
        simp [itemsBefore, inCut]
      have joined : ∀ others, read ++ item :: others = read ++ [item] ++ others := by simp
      have readsNext := reads.read item (placed.mono (by simp))
      rw [joined] at placed
      rw [isBefore, joined]
      unfold take
      dsimp only
      split
      · next sameTime =>
        -- The step waits for the last record of the time.
        obtain ⟨after, readsAfter, _, isStep⟩ := inductionHypothesis readsNext placed sortedRest
          (by rwa [read_steps])
        have notEmpty : itemsBefore rest cut ≠ [] := by
          obtain ⟨next, isHead, isTime⟩ := (Option.any_eq_true _ _).mp sameTime
          obtain ⟨others, rfl⟩ := List.head?_eq_some_iff.mp isHead
          simp [itemsBefore, beq_iff_eq.mp isTime, inCut]
        exact ⟨after, readsAfter, nofun, fun _ => isStep notEmpty⟩
      · obtain ⟨after, readsAfter, isLast, isStep⟩ := inductionHypothesis
          (readsNext.withSteps ((state.read item).steps ++
            [(item.1.at_, (state.read item).cut)])) placed sortedRest (by
              rw [read_steps]
              intro step among
              rcases List.mem_append.mp among with isOld | isNew
              · exact before step isOld
              · obtain rfl := List.mem_singleton.mp isNew
                exact inCut)
        by_cases isEmpty : itemsBefore rest cut = []
        · refine ⟨state.read item, by simpa [isEmpty] using readsNext, nofun, fun _ => ⟨item.1.at_, ?_⟩⟩
          rw [isLast isEmpty, List.getLast?_concat]
        · exact ⟨after, readsAfter, nofun, fun _ => isStep isEmpty⟩
    · have isBefore : itemsBefore (item :: rest) cut = [] := by
        simp [itemsBefore, inCut]
      rw [isBefore, List.append_nil]
      refine ⟨state, reads, fun _ => ?_, fun some => absurd rfl some⟩
      obtain ⟨added, isSteps, times⟩ := take_steps state (item :: rest)
      have notAdded : (added.takeWhile fun step => decide (step.1 < cut)) = [] := by
        cases added with
        | nil => rfl
        | cons step others =>
          obtain ⟨other, isOther, isTime⟩ := times step List.mem_cons_self
          have late : item.1.at_ ≤ other.1.at_ := by
            rcases List.mem_cons.mp isOther with rfl | isLater
            · exact le_rfl
            · exact later other isLater
          rw [List.takeWhile_cons_of_neg (by simp; omega)]
      rw [lastBefore, isSteps, List.takeWhile_append_of_pos
        (fun step among => decide_eq_true (before step among)), notAdded, List.append_nil]

end Prepared

end

/-! ### The cuts of a span -/

/-- By time, and by place in one time. -/
def byTime (first second : Item Cost) : Bool :=
  decide (first.1.at_ < second.1.at_ ∨ (first.1.at_ = second.1.at_ ∧ first.2 ≤ second.2))

theorem order_perm (records : List (TranscriptRecord Cost)) (start end_ : Int) :
    (SpanTokens.order records start end_).Perm (within records start end_) :=
  List.mergeSort_perm _ _

theorem order_sorted (records : List (TranscriptRecord Cost)) (start end_ : Int) :
    (SpanTokens.order records start end_).Pairwise fun first second =>
      first.1.at_ ≤ second.1.at_ := by
  have sorted := @List.pairwise_mergeSort (Item Cost) byTime
    (fun first second third => by simp only [byTime, decide_eq_true_eq]; omega)
    (fun first second => by simp only [byTime, Bool.or_eq_true, decide_eq_true_eq]; omega)
    (within records start end_)
  refine sorted.imp fun isBefore => ?_
  have := of_decide_eq_true isBefore
  omega

/-- The records before a cut of a span's records by their times are those of the span to the cut. -/
theorem itemsBefore_order (records : List (TranscriptRecord Cost)) (start : Int) {end_ cut : Int}
    (inSpan : cut ≤ end_) :
    (itemsBefore (SpanTokens.order records start end_) cut).Perm (within records start cut) := by
  have isFilter : itemsBefore (SpanTokens.order records start end_) cut =
      (SpanTokens.order records start end_).filter fun item => decide (item.1.at_ < cut) := by
    have sorted := order_sorted records start end_
    generalize SpanTokens.order records start end_ = items at sorted
    induction items with
    | nil => rfl
    | cons item rest inductionHypothesis =>
      obtain ⟨later, sortedRest⟩ := List.pairwise_cons.mp sorted
      by_cases inCut : item.1.at_ < cut
      · rw [List.filter_cons_of_pos (by simpa using inCut), ← inductionHypothesis sortedRest]
        exact List.takeWhile_cons_of_pos (by simpa using inCut)
      · rw [List.filter_eq_nil_iff.mpr fun other among => ?_]
        · exact List.takeWhile_cons_of_neg (by simpa using inCut)
        · rcases List.mem_cons.mp among with rfl | isLater
          · simpa using inCut
          · have := later other isLater
            simp
            omega
  rw [isFilter]
  refine ((order_perm records start end_).filter _).trans (List.Perm.of_eq ?_)
  rw [within, List.filter_filter]
  refine List.filter_congr fun item _ => ?_
  rw [Bool.eq_iff_iff]
  simp only [TranscriptRecord.inSpan, Bool.and_eq_true, decide_eq_true_eq]
  constructor
  · rintro ⟨inCut, isAfter, _⟩
    exact ⟨isAfter, inCut⟩
  · rintro ⟨isAfter, inCut⟩
    exact ⟨inCut, isAfter, by omega⟩

theorem spanUsage_of_none [Costs Cost] {records : List (TranscriptRecord Cost)} {start end_ : Int}
    (none : within records start end_ = []) : spanUsage records start end_ = .ok {} := by
  rw [spanUsage, foldlM_filter_kept UsageScan.read_outside, ← within, none]
  rfl

theorem spanModels_of_none {records : List (TranscriptRecord Cost)} {start end_ : Int}
    (none : within records start end_ = []) : spanModels records start end_ = [] := by
  rw [spanModels, foldl_filter_kept ModelScan.read_outside, ← within, none]
  exact congrArg (List.map Prod.fst) List.mergeSort_nil

namespace SpanTokens

variable [Costs Cost]

/-- The tokens and models prepared for a span give at every cut of it those of the span to the
cut. -/
theorem at_eq_span (records : List (TranscriptRecord Cost)) (start : Int) {end_ cut : Int}
    (inSpan : cut ≤ end_) :
    (new records start end_).at_ cut =
      (spanUsage records start cut, spanModels records start cut) := by
  have same := itemsBefore_order records start inSpan
  have placed : Placed (order records start end_) :=
    placed_of_perm (order_perm records start end_)
  obtain ⟨after, reads, isLast, isStep⟩ :=
    Prepared.lastBefore_take cut (order records start end_) reads_nil placed
      (order_sorted records start end_) nofun
  by_cases isEmpty : itemsBefore (order records start end_) cut = []
  · have noRecord : within records start cut = [] := (isEmpty ▸ same).nil_eq.symm
    have noStep := isLast isEmpty
    rw [spanUsage_of_none noRecord, spanModels_of_none noRecord]
    rw [lastBefore] at noStep
    rw [at_, new, noStep]
    rfl
  · obtain ⟨time, isCut⟩ := isStep isEmpty
    rw [lastBefore] at isCut
    rw [at_, new, isCut, ← reads.usage same isEmpty, ← reads.models same]

end SpanTokens

/-! ### A message split over records out of order -/

/-- A record that counts as much input and output. -/
def counting (at_ : Int) (count : Int) (model : Option String) : TranscriptRecord Int where
  at_ := at_
  usage := some (.object [("input_tokens", .int count), ("output_tokens", .int count)])
  messageId := some "m"
  costUsd := some count
  model := model

/-- The later record of a message comes first by its time. -/
def outOfOrder : List (TranscriptRecord Int) :=
  [counting 20 5 (some "opus"), counting 10 7 (some "sonnet")]

theorem outOfOrder_at_eq_span : (15 : Int) ≤ 30 ∧ (SpanTokens.new outOfOrder 0 30).at_ 15 =
      (spanUsage outOfOrder 0 15, spanModels outOfOrder 0 15) ∧
    (∃ usage, spanUsage outOfOrder 0 15 = .ok usage ∧ usage.counts .input = 7 ∧
      usage.counts .output = 7 ∧ usage.messages = 1 ∧ usage.costUsd = some 7) ∧
    spanModels outOfOrder 0 15 = [{ model := "sonnet", effort := none, messages := 1 }] := by
  refine ⟨by decide, SpanTokens.at_eq_span outOfOrder 0 (by decide),
    ⟨_, rfl, rfl, rfl, rfl, rfl⟩, ?_⟩
  have pairs : (outOfOrder.zipIdx.foldl (ModelScan.read 0 15) {}).pairs.entries =
      [(toLex ("sonnet", none), (1, 1))] := rfl
  rw [spanModels, pairs]
  show mostFirst [({ model := "sonnet", effort := none, messages := 1 }, 1)] = _
  rw [mostFirst, List.mergeSort_singleton]
  rfl

end Dagq.Tokens
