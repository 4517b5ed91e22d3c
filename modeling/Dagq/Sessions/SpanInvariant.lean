/-
This file derives what the spans of a run keep. An event closes the open spans
of some kinds and opens at most one, so the open spans after it are those of the
other kinds and the new one. From there the run has one span of its own session
at most, exactly one while the session goes on, one review and one triage at
most, and a close always names a span that is open.
-/

import Dagq.Lib.Transition
import Dagq.Sessions.Spans

namespace Dagq.Sessions

open Dagq.Lib SpanKind

/-! ### The open spans, row by row -/

theorem zipIdx_concat (rows : List SpanRow) (row : SpanRow) :
    (rows ++ [row]).zipIdx = rows.zipIdx ++ [(row, rows.length)] := by
  rw [List.zipIdx_append, Nat.zero_add]
  rfl

theorem openedSpan_id {rows : List SpanRow} {row : SpanRow × Nat} {span : OpenSpan}
    (opened : openedSpan rows row = some span) : span.openedEventId = row.2 := by
  unfold openedSpan at opened
  split at opened
  · split at opened
    · cases opened
    · cases opened
      rfl
  · cases opened

theorem openSpans_concat (rows : List SpanRow) (row : SpanRow) :
    openSpans (rows ++ [row]) =
      (openSpans rows).filter (fun span => !row.closes span.openedEventId) ++
        (openedSpan (rows ++ [row]) (row, rows.length)).toList := by
  have before : ∀ earlier : SpanRow × Nat, openedSpan (rows ++ [row]) earlier =
      (openedSpan rows earlier).filter fun span => !row.closes span.openedEventId := by
    intro earlier
    unfold openedSpan
    split
    · rename_i payload
      rw [List.any_append, List.any_cons, List.any_nil, Bool.or_false]
      cases closed : rows.any (SpanRow.closes earlier.2) with
      | true => rfl
      | false =>
        show (if row.closes earlier.2 = true then none else some _) = Option.filter _ (some _)
        rw [Option.filter_some]
        cases row.closes earlier.2 <;> rfl
    · rfl
  unfold openSpans
  rw [zipIdx_concat, List.filterMap_append, List.filter_filterMap]
  refine congr (congrArg _ ?_) ?_
  · exact List.filterMap_congr fun earlier _ => before earlier
  · rw [List.filterMap_cons, List.filterMap_nil]
    cases openedSpan (rows ++ [row]) (row, rows.length) <;> rfl

theorem openSpans_event (rows : List SpanRow) (kind : SessionEvent) (payload : EventPayload) :
    openSpans (rows ++ [.event kind payload]) = openSpans rows := by
  rw [openSpans_concat]
  show (openSpans rows).filter (fun _ => !false) ++ [] = _
  rw [List.append_nil]
  exact List.filter_eq_self.mpr fun _ _ => rfl

theorem openSpans_closed (rows : List SpanRow) (id : Nat) (kind : SpanKind)
    (session : Option String) (reason : CloseReason) :
    openSpans (rows ++ [.sessionClosed id kind session reason]) =
      (openSpans rows).filter fun span => id ≠ span.openedEventId := by
  rw [openSpans_concat]
  show (openSpans rows).filter (fun span => !decide (id = span.openedEventId)) ++ [] = _
  rw [List.append_nil]
  refine List.filter_congr fun span _ => ?_
  rw [decide_not]

theorem openSpans_opened (rows : List SpanRow) (payload : Opened)
    (fresh : ∀ row ∈ rows, row.closes rows.length = false) :
    openSpans (rows ++ [.sessionOpened payload]) = openSpans rows ++ [⟨rows.length, payload⟩] := by
  have notClosed : (rows ++ [SpanRow.sessionOpened payload]).any (SpanRow.closes rows.length) =
      false := by
    rw [List.any_append, List.any_cons, List.any_nil, Bool.or_false, Bool.or_eq_false_iff]
    refine ⟨List.any_eq_false.mpr fun row member => ?_, rfl⟩
    rw [fresh row member]
    exact Bool.false_ne_true
  have opened : openedSpan (rows ++ [.sessionOpened payload]) (.sessionOpened payload, rows.length) =
      some ⟨rows.length, payload⟩ := by
    show (if (rows ++ [SpanRow.sessionOpened payload]).any (SpanRow.closes rows.length) = true then
      none else _) = _
    rw [notClosed]
    rfl
  rw [openSpans_concat, opened]
  have unclosed : (openSpans rows).filter (fun span =>
      !(SpanRow.sessionOpened payload).closes span.openedEventId) = openSpans rows :=
    List.filter_eq_self.mpr fun _ _ => rfl
  rw [unclosed]
  rfl

/-- The ids of the open spans are positions of the rows. -/
theorem lt_length_of_openSpans {rows : List SpanRow} {span : OpenSpan}
    (member : span ∈ openSpans rows) : span.openedEventId < rows.length := by
  obtain ⟨row, inside, opened⟩ := List.mem_filterMap.mp member
  rw [openedSpan_id opened]
  have below := List.snd_lt_of_mem_zipIdx inside
  rwa [Nat.add_zero] at below

/-- No two open spans are of one id. -/
theorem openSpans_nodup (rows : List SpanRow) :
    ((openSpans rows).map OpenSpan.openedEventId).Nodup := by
  have sublist : ∀ list : List (SpanRow × Nat),
      ((list.filterMap (openedSpan rows)).map OpenSpan.openedEventId).Sublist
        (list.map Prod.snd) := by
    intro list
    induction list with
    | nil => exact List.Sublist.refl _
    | cons row list inductionHypothesis =>
      rw [List.filterMap_cons, List.map_cons]
      split
      · exact inductionHypothesis.cons _
      · rename_i span opened
        rw [List.map_cons, openedSpan_id opened]
        exact inductionHypothesis.cons_cons _
  refine (sublist rows.zipIdx).nodup ?_
  rw [List.zipIdx_map_snd]
  exact List.nodup_range'

/-! ### A close names an open span -/

/-- Every row that closes a span names one open before it. -/
def ClosesOpen (rows : List SpanRow) : Prop :=
  ∀ earlier id kind session reason later,
    rows = earlier ++ SpanRow.sessionClosed id kind session reason :: later →
      ∃ span ∈ openSpans earlier, span.openedEventId = id

theorem closesOpen_nil : ClosesOpen [] := by
  intro earlier id kind session reason later split
  exact absurd split.symm (List.append_ne_nil_of_right_ne_nil _ (List.cons_ne_nil _ _))

theorem ClosesOpen.concat {rows : List SpanRow} (closes : ClosesOpen rows) (row : SpanRow)
    (named : ∀ id, row.closes id = true → ∃ span ∈ openSpans rows, span.openedEventId = id) :
    ClosesOpen (rows ++ [row]) := by
  intro earlier id kind session reason later split
  rcases List.eq_nil_or_concat later with rfl | ⟨before, last, rfl⟩
  · obtain ⟨rfl, isRow⟩ := List.append_inj' split rfl
    refine named id ?_
    rw [(List.cons.inj isRow).1]
    exact decide_eq_true rfl
  · rw [List.concat_eq_append, ← List.cons_append, ← List.append_assoc] at split
    exact closes earlier id kind session reason before (List.append_inj' split rfl).1

/-- No row closes a span that is not opened yet. -/
theorem ClosesOpen.fresh {rows : List SpanRow} (closes : ClosesOpen rows) :
    ∀ row ∈ rows, row.closes rows.length = false := by
  intro row member
  obtain ⟨earlier, later, rfl⟩ := List.append_of_mem member
  cases row with
  | event => rfl
  | sessionOpened => rfl
  | sessionClosed id kind session reason =>
    obtain ⟨span, inside, rfl⟩ := closes earlier id kind session reason later rfl
    have below := lt_length_of_openSpans inside
    refine decide_eq_false (Nat.ne_of_lt (below.trans_le ?_))
    rw [List.length_append]
    exact Nat.le_add_right _ _

/-- Spans that are open, no two of one id, are closed by a row each. -/
theorem close_rows (reason : CloseReason) :
    ∀ (spans : List OpenSpan) (rows : List SpanRow), ClosesOpen rows →
      (∀ span ∈ spans, span ∈ openSpans rows) → (spans.map OpenSpan.openedEventId).Nodup →
      ClosesOpen (rows ++ spans.map fun span => (SpanChange.close span reason).row) ∧
      openSpans (rows ++ spans.map fun span => (SpanChange.close span reason).row) =
        (openSpans rows).filter fun span =>
          !(spans.map OpenSpan.openedEventId).contains span.openedEventId := by
  intro spans
  induction spans with
  | nil =>
    intro rows closes _ _
    rw [List.map_nil, List.append_nil]
    exact ⟨closes, (List.filter_eq_self.mpr fun _ _ => rfl).symm⟩
  | cons first spans inductionHypothesis =>
    intro rows closes opened distinct
    obtain ⟨notFirst, distinct⟩ := List.nodup_cons.mp distinct
    have firstOpen := opened first List.mem_cons_self
    have closed := openSpans_closed rows first.openedEventId first.kind first.sessionId reason
    have restOpen : ∀ span ∈ spans,
        span ∈ openSpans (rows ++ [(SpanChange.close first reason).row]) := by
      intro span member
      show span ∈ openSpans (rows ++ [.sessionClosed _ _ _ _])
      rw [closed]
      refine List.mem_filter.mpr ⟨opened span (List.mem_cons_of_mem _ member), decide_eq_true ?_⟩
      exact fun same => notFirst (same ▸ List.mem_map_of_mem member)
    have firstCloses : ClosesOpen (rows ++ [(SpanChange.close first reason).row]) := by
      refine closes.concat _ fun id isClosed => ⟨first, firstOpen, ?_⟩
      exact of_decide_eq_true isClosed
    obtain ⟨allClose, allOpen⟩ := inductionHypothesis _ firstCloses restOpen distinct
    rw [List.map_cons, List.append_cons]
    refine ⟨allClose, allOpen.trans ?_⟩
    show (openSpans (rows ++ [.sessionClosed _ _ _ _])).filter _ = _
    rw [closed, List.filter_filter]
    refine List.filter_congr fun span _ => ?_
    rw [List.map_cons, List.contains_cons, Bool.not_or, Bool.and_comm]
    refine congrArg (· && _) ?_
    rw [decide_not, beq_eq_decide, decide_eq_decide.mpr eq_comm]

/-! ### What an event closes and opens -/

/-- The kinds of the spans an event closes. -/
def closesOf : SessionEvent → List SpanKind
  | .agentStarted | .reviseRequested | .sessionExited | .workspaceClosed => runSession
  | .reviseUnsent => [revise]
  | .runRecovered => [worker, resume, revise, review]
  | .reviewStarted | .reviewFinished | .reviewFailed | .reviewRetried => [review]
  | .triageStarted => [worker, resume, revise, review, triage]
  | .triageFinished | .triageFailed => [triage]
  | .resumeStarted | .other => []

/-- The kind of the span an event opens. -/
def opensOf (context : SpanContext) : SessionEvent → Option SpanKind
  | .agentStarted => some (startedSpan context).1
  | .reviseRequested => some revise
  | .reviseUnsent => some (reopenedSpan context).1
  | .reviewStarted => some review
  | .triageStarted => some triage
  | _ => none

/-- The changes of an event: a close for each open span of its kinds, then at most one opened. -/
theorem changes_eq (kind : SessionEvent) (payload : EventPayload) (spans : List OpenSpan)
    (context : SpanContext) :
    ∃ reason, ∃ opened : Option Opened, opened.map Opened.kind = opensOf context kind ∧
      changes kind payload spans context =
        closing spans (closesOf kind) reason ++ (opened.map SpanChange.open_).toList := by
  have nothing : ∀ kinds reason, closing spans kinds reason =
      closing spans kinds reason ++ ((none : Option Opened).map SpanChange.open_).toList :=
    fun _ _ => (List.append_nil _).symm
  cases kind with
  | agentStarted | reviseRequested | reviseUnsent | reviewStarted | triageStarted =>
    exact ⟨_, some _, rfl, rfl⟩
  | sessionExited | workspaceClosed | runRecovered | reviewFinished | reviewFailed | reviewRetried
  | triageFinished | triageFailed => exact ⟨_, none, rfl, nothing _ _⟩
  | resumeStarted | other =>
    refine ⟨.inferred, none, rfl, ?_⟩
    rw [← nothing]
    show [] = ((spans.filter fun _ => false).map _)
    rw [List.filter_false]
    rfl

/-- The open spans after an event: those of the kinds it does not close, and the one it opens. -/
theorem openSpans_follow {rows : List SpanRow} (closes : ClosesOpen rows) (run : RunFacts)
    (kind : SessionEvent) (payload : EventPayload) :
    ClosesOpen (follow rows run kind payload) ∧ ∃ context, ∃ opened : Option OpenSpan,
      opened.map OpenSpan.kind = opensOf context kind ∧
      openSpans (follow rows run kind payload) =
        ((openSpans rows).filter fun span => !(closesOf kind).contains span.kind) ++
          opened.toList := by
  have eventCloses : ClosesOpen (rows ++ [.event kind payload]) :=
    closes.concat _ fun _ isClosed => absurd isClosed Bool.false_ne_true
  have sameSpans := openSpans_event rows kind payload
  unfold follow
  simp only
  obtain ⟨reason, opened, isOpened, shape⟩ := changes_eq kind payload
    (openSpans (rows ++ [.event kind payload]))
    (runContext (rows ++ [.event kind payload]) run kind)
  let ended := (openSpans rows).filter fun span => (closesOf kind).contains span.kind
  have endedIds : (ended.map OpenSpan.openedEventId).Nodup :=
    (openSpans_nodup rows).sublist (List.filter_sublist.map _)
  obtain ⟨allClose, allOpen⟩ := close_rows reason ended _ eventCloses
    (fun span member => sameSpans.symm ▸ (List.mem_filter.mp member).1) endedIds
  have kept : ((openSpans rows).filter fun span =>
      !(ended.map OpenSpan.openedEventId).contains span.openedEventId) =
        (openSpans rows).filter fun span => !(closesOf kind).contains span.kind := by
    refine List.filter_congr fun span member => congrArg (! ·) ?_
    rw [Bool.eq_iff_iff, List.contains_iff_mem]
    constructor
    · intro inside
      obtain ⟨other, isEnded, sameId⟩ := List.mem_map.mp inside
      obtain ⟨otherOpen, otherKind⟩ := List.mem_filter.mp isEnded
      rw [List.inj_on_of_nodup_map (openSpans_nodup rows) otherOpen member sameId] at otherKind
      exact otherKind
    · exact fun isKind => List.mem_map_of_mem (List.mem_filter.mpr ⟨member, isKind⟩)
  rw [shape, sameSpans, closing, List.map_append, List.map_map, ← List.append_assoc]
  rw [sameSpans, kept] at allOpen
  cases opened with
  | none =>
    refine ⟨?_, _, none, isOpened, ?_⟩
    · show ClosesOpen (_ ++ [])
      rw [List.append_nil]
      exact allClose
    · show openSpans (_ ++ []) = _ ++ []
      rw [List.append_nil, List.append_nil]
      exact allOpen
  | some opened =>
    have spans := (openSpans_opened _ opened allClose.fresh).trans (congrArg (· ++ [_]) allOpen)
    refine ⟨allClose.concat _ fun _ isClosed => absurd isClosed Bool.false_ne_true,
      runContext (rows ++ [.event kind payload]) run kind, some _, ?_, spans⟩
    exact isOpened

/-! ### How many are open -/

/-- How many spans of some kinds are open. -/
def countOpen (rows : List SpanRow) (kinds : List SpanKind) : Nat :=
  (openSpans rows).countP fun span => kinds.contains span.kind

/-- Whether an event ends the run's session. -/
def endsSession : SessionEvent → Bool
  | .sessionExited | .workspaceClosed | .runRecovered | .triageStarted => true
  | _ => false

/-- Whether the session goes on: an agent started, and no event ended it since. -/
def goesOn (rows : List SpanRow) : Bool :=
  rows.foldl (fun going row => match row with
    | .event kind _ => kind = .agentStarted || (going && !endsSession kind)
    | _ => going) false

theorem goesOn_follow (rows : List SpanRow) (run : RunFacts) (kind : SessionEvent)
    (payload : EventPayload) : goesOn (follow rows run kind payload) =
      (decide (kind = .agentStarted) || (goesOn rows && !endsSession kind)) := by
  have written : ∀ (changed : List SpanChange) (going : Bool),
      (changed.map SpanChange.row).foldl (fun going row => match row with
        | .event kind _ => kind = .agentStarted || (going && !endsSession kind)
        | _ => going) going = going := by
    intro changed
    induction changed with
    | nil => exact fun _ => rfl
    | cons change changed inductionHypothesis =>
      intro going
      rw [List.map_cons, List.foldl_cons]
      cases change <;> exact inductionHypothesis going
  unfold goesOn follow
  simp only [List.foldl_append, List.foldl_cons, List.foldl_nil, written]

/-- How many spans of some kinds are open after an event. -/
theorem countOpen_follow {rows : List SpanRow} (closes : ClosesOpen rows) (run : RunFacts)
    (kind : SessionEvent) (payload : EventPayload) :
    ∃ context, ∀ kinds, countOpen (follow rows run kind payload) kinds =
      (openSpans rows).countP (fun span => kinds.contains span.kind &&
        !(closesOf kind).contains span.kind) +
        (if (opensOf context kind).any kinds.contains then 1 else 0) := by
  obtain ⟨_, context, opened, isOpened, spans⟩ := openSpans_follow closes run kind payload
  refine ⟨context, fun kinds => ?_⟩
  rw [countOpen, spans, List.countP_append, List.countP_filter, ← isOpened]
  refine congrArg (Nat.add _) ?_
  cases opened with
  | none => rfl
  | some span =>
    show List.countP _ [span] = if kinds.contains span.kind = true then 1 else 0
    rw [List.countP_singleton]

/-- Where an event closes every span of some kinds, at most the one it opens is left of them. -/
theorem countOpen_of_closed {rows : List SpanRow} (closes : ClosesOpen rows) {run : RunFacts}
    {kind : SessionEvent} {payload : EventPayload} {kinds : List SpanKind}
    (all : ∀ span ∈ openSpans rows, span.kind ∈ kinds → span.kind ∈ closesOf kind) :
    ∃ context, countOpen (follow rows run kind payload) kinds =
      if (opensOf context kind).any kinds.contains then 1 else 0 := by
  obtain ⟨context, counts⟩ := countOpen_follow closes run kind payload
  refine ⟨context, ?_⟩
  rw [counts, List.countP_eq_zero.mpr, Nat.zero_add]
  intro span member both
  obtain ⟨inKinds, notClosed⟩ := Bool.and_eq_true_iff.mp both
  have closed := List.contains_iff_mem.mpr (all span member (List.contains_iff_mem.mp inKinds))
  rw [closed] at notClosed
  exact Bool.false_ne_true notClosed

/-- Where it opens one of them as well, that is the only one. -/
theorem countOpen_one {rows : List SpanRow} (closes : ClosesOpen rows) {run : RunFacts}
    {kind : SessionEvent} {payload : EventPayload} {kinds : List SpanKind}
    (all : ∀ span ∈ openSpans rows, span.kind ∈ kinds → span.kind ∈ closesOf kind)
    (opens : ∀ context, (opensOf context kind).any kinds.contains = true) :
    countOpen (follow rows run kind payload) kinds = 1 := by
  obtain ⟨context, count⟩ := @countOpen_of_closed rows closes run kind payload kinds all
  rw [count, opens context]
  rfl

/-- Where an event opens no span of some kinds, there are no more of them after it. -/
theorem countOpen_le {rows : List SpanRow} (closes : ClosesOpen rows) {run : RunFacts}
    {kind : SessionEvent} {payload : EventPayload} {kinds : List SpanKind}
    (none : ∀ context, (opensOf context kind).any kinds.contains = false) :
    countOpen (follow rows run kind payload) kinds ≤ countOpen rows kinds := by
  obtain ⟨context, counts⟩ := countOpen_follow closes run kind payload
  rw [counts, none context]
  exact List.countP_mono_left fun span _ both => (Bool.and_eq_true_iff.mp both).1

/-- Where an event neither closes nor opens spans of some kinds, there are as many after it. -/
theorem countOpen_same {rows : List SpanRow} (closes : ClosesOpen rows) {run : RunFacts}
    {kind : SessionEvent} {payload : EventPayload} {kinds : List SpanKind}
    (none : ∀ context, (opensOf context kind).any kinds.contains = false)
    (keeps : ∀ span ∈ kinds, span ∉ closesOf kind) :
    countOpen (follow rows run kind payload) kinds = countOpen rows kinds := by
  obtain ⟨context, counts⟩ := countOpen_follow closes run kind payload
  rw [counts, none context]
  refine List.countP_congr fun span _ => ?_
  rw [Bool.and_eq_true, Bool.not_eq_true', and_iff_left_iff_imp]
  intro inKinds
  exact eq_false_of_ne_true fun closed =>
    keeps span.kind (List.contains_iff_mem.mp inKinds) (List.contains_iff_mem.mp closed)

theorem started_own (context : SpanContext) : runSession.contains (startedSpan context).1 = true := by
  unfold startedSpan
  split <;> rfl

theorem reopened_own (context : SpanContext) :
    runSession.contains (reopenedSpan context).1 = true := by
  unfold reopenedSpan
  split
  · rfl
  · exact started_own context

/-! ### A run of events -/

/-- The rows some order of events leads to. -/
abbrev SpansReached : List SpanRow → Prop := Reachable [] SpanStep

/-- What the rows keep. -/
structure SpansHeld (rows : List SpanRow) : Prop where
  closes : ClosesOpen rows
  own : countOpen rows runSession ≤ 1
  review : countOpen rows [review] ≤ 1
  triage : countOpen rows [triage] ≤ 1
  going : goesOn rows = true → countOpen rows runSession = 1

/-- Where the run has one span of its own session at most, and it is a revise, the withdrawal closes
every span of its own session. -/
theorem own_are_revises {rows : List SpanRow} (own : countOpen rows runSession ≤ 1)
    (opened : ∃ span ∈ openSpans rows, span.kind = revise) :
    ∀ span ∈ openSpans rows, span.kind ∈ runSession → span.kind ∈ closesOf .reviseUnsent := by
  obtain ⟨revised, member, isRevise⟩ := opened
  intro span inside inOwn
  have revisedIn : revised ∈ (openSpans rows).filter fun span => runSession.contains span.kind := by
    refine List.mem_filter.mpr ⟨member, ?_⟩
    rw [isRevise]
    rfl
  have spanIn : span ∈ (openSpans rows).filter fun span => runSession.contains span.kind :=
    List.mem_filter.mpr ⟨inside, List.contains_iff_mem.mpr inOwn⟩
  rw [countOpen, List.countP_eq_length_filter] at own
  obtain ⟨only, isOnly⟩ := List.length_eq_one_iff.mp
    (Nat.le_antisymm own (List.length_pos_of_mem revisedIn))
  rw [isOnly, List.mem_singleton] at revisedIn spanIn
  rw [spanIn.trans revisedIn.symm, isRevise]
  exact List.mem_singleton_self _

/-- The spans of the run's own session after an event. -/
theorem own_follow {rows : List SpanRow} (held : SpansHeld rows) {run : RunFacts}
    {kind : SessionEvent} {payload : EventPayload}
    (withdrawn : kind = .reviseUnsent → ∃ span ∈ openSpans rows, span.kind = revise) :
    countOpen (follow rows run kind payload) runSession ≤ 1 ∧
      (goesOn (follow rows run kind payload) = true →
        countOpen (follow rows run kind payload) runSession = 1) := by
  have opensOne : countOpen (follow rows run kind payload) runSession = 1 →
      countOpen (follow rows run kind payload) runSession ≤ 1 ∧
        (goesOn (follow rows run kind payload) = true →
          countOpen (follow rows run kind payload) runSession = 1) :=
    fun isOne => ⟨Nat.le_of_eq isOne, fun _ => isOne⟩
  have goes := goesOn_follow rows run kind payload
  cases kind with
  | agentStarted => exact opensOne (countOpen_one held.closes (fun _ _ own => own) started_own)
  | reviseRequested => exact opensOne (countOpen_one held.closes (fun _ _ own => own) fun _ => rfl)
  | reviseUnsent =>
    exact opensOne (countOpen_one held.closes (own_are_revises held.own (withdrawn rfl))
      reopened_own)
  | sessionExited | workspaceClosed | runRecovered | triageStarted =>
    refine ⟨(countOpen_le held.closes fun _ => rfl).trans held.own, fun going => ?_⟩
    rw [goes, endsSession, Bool.not_true, Bool.and_false] at going
    exact absurd going (by decide)
  | reviewStarted | reviewFinished | reviewFailed | reviewRetried | triageFinished | triageFailed
  | resumeStarted | other =>
    rw [countOpen_same held.closes (fun _ => rfl) (by decide)]
    refine ⟨held.own, fun going => held.going ?_⟩
    rw [goes] at going
    exact (Bool.and_eq_true_iff.mp going).1

/-- The spans of a job of the run, reviewed or triaged, after an event. -/
theorem job_follow {rows : List SpanRow} (closes : ClosesOpen rows) {run : RunFacts}
    {kind : SessionEvent} {payload : EventPayload} {span : SpanKind}
    (before : countOpen rows [span] ≤ 1)
    (either : span ∈ closesOf kind ∨ ∀ context, opensOf context kind ≠ some span) :
    countOpen (follow rows run kind payload) [span] ≤ 1 := by
  rcases either with closed | unopened
  · obtain ⟨context, count⟩ := @countOpen_of_closed rows closes run kind payload [span]
      fun _ _ inside => List.mem_singleton.mp inside ▸ closed
    rw [count]
    split
    · exact le_rfl
    · exact Nat.zero_le 1
  · refine (countOpen_le closes fun context => ?_).trans before
    cases opened : opensOf context kind with
    | none => rfl
    | some other =>
      refine eq_false_of_ne_true fun inside => unopened context ?_
      rw [opened, List.mem_singleton.mp (List.contains_iff_mem.mp inside)]

theorem not_opened_of_started (context : SpanContext) {span : SpanKind}
    (other : runSession.contains span = false) :
    (startedSpan context).1 ≠ span ∧ (reopenedSpan context).1 ≠ span := by
  refine ⟨fun same => ?_, fun same => ?_⟩
  · rw [← same, started_own] at other
    cases other
  · rw [← same, reopened_own] at other
    cases other

/-- Each event that opens a review or a triage closes those open, and no other opens one. -/
theorem closes_or_unopened (kind : SessionEvent) {span : SpanKind}
    (isJob : span = review ∨ span = triage) :
    span ∈ closesOf kind ∨ ∀ context, opensOf context kind ≠ some span := by
  have other : runSession.contains span = false := by
    rcases isJob with rfl | rfl <;> rfl
  cases kind with
  | agentStarted =>
    exact Or.inr fun context same => (not_opened_of_started context other).1 (Option.some.inj same)
  | reviseUnsent =>
    exact Or.inr fun context same => (not_opened_of_started context other).2 (Option.some.inj same)
  | _ => rcases isJob with rfl | rfl <;> simp [closesOf, opensOf]

theorem SpansHeld.step {before after : List SpanRow} (held : SpansHeld before)
    (step : SpanStep before after) : SpansHeld after := by
  obtain ⟨run, kind, payload, withdrawn, rfl⟩ := step
  obtain ⟨own, going⟩ := @own_follow before held run kind payload withdrawn
  exact ⟨(openSpans_follow held.closes run kind payload).1, own,
    job_follow held.closes held.review (closes_or_unopened kind (Or.inl rfl)),
    job_follow held.closes held.triage (closes_or_unopened kind (Or.inr rfl)), going⟩

theorem spansHeld_of_reached {rows : List SpanRow} (reached : SpansReached rows) :
    SpansHeld rows := by
  refine reached.invariant SpansHeld ?_ fun _ _ _ held step => held.step step
  exact ⟨closesOpen_nil, Nat.zero_le 1, Nat.zero_le 1, Nat.zero_le 1, fun going => by cases going⟩

/-! ### No span is closed twice -/

/-- The ids of the spans closed, in the order of the closes. -/
def closedIds (rows : List SpanRow) : List Nat :=
  rows.filterMap fun row => match row with
    | .sessionClosed id _ _ _ => some id
    | _ => none

/-- An open span was not closed. -/
theorem not_closed_of_open {rows : List SpanRow} {span : OpenSpan}
    (member : span ∈ openSpans rows) : span.openedEventId ∉ closedIds rows := by
  intro inside
  obtain ⟨row, rowIn, opened⟩ := List.mem_filterMap.mp member
  obtain ⟨closing, closingIn, closes⟩ := List.mem_filterMap.mp inside
  rw [openedSpan_id opened] at closes
  unfold openedSpan at opened
  split at opened
  · rename_i payload _
    have isClosed : rows.any (SpanRow.closes row.2) = true := by
      refine List.any_eq_true.mpr ⟨closing, closingIn, ?_⟩
      split at closes
      · cases closes
        exact decide_eq_true rfl
      · cases closes
    rw [isClosed] at opened
    cases opened
  · cases opened

theorem closedIds_nodup (rows : List SpanRow) (closes : ClosesOpen rows) :
    (closedIds rows).Nodup := by
  induction rows using List.reverseRecOn with
  | nil => exact List.nodup_nil
  | append_singleton rows row inductionHypothesis =>
    have before : ClosesOpen rows := fun earlier id kind session reason later split =>
      closes earlier id kind session reason (later ++ [row]) (by
        rw [split, List.append_assoc, List.cons_append])
    have distinct := inductionHypothesis before
    unfold closedIds
    rw [List.filterMap_append]
    cases row with
    | event | sessionOpened =>
      show (closedIds rows ++ []).Nodup
      rw [List.append_nil]
      exact distinct
    | sessionClosed id kind session reason =>
      obtain ⟨span, member, rfl⟩ := closes rows id kind session reason [] rfl
      exact List.nodup_append_comm.mp (List.nodup_cons.mpr ⟨not_closed_of_open member, distinct⟩)

/-- In every order of a run's events, a revise withdrawn only while one is open: one span of its own
session is open at most, one review and one triage at most; no span is closed twice, and a close
names an open span; and while the session goes on, exactly one of its own spans is open. -/
theorem spans_orderly {rows : List SpanRow} (reached : SpansReached rows) :
    countOpen rows runSession ≤ 1 ∧ countOpen rows [review] ≤ 1 ∧ countOpen rows [triage] ≤ 1 ∧
      (closedIds rows).Nodup ∧ ClosesOpen rows ∧
      (goesOn rows = true → countOpen rows runSession = 1) := by
  have held := spansHeld_of_reached reached
  exact ⟨held.own, held.review, held.triage, closedIds_nodup rows held.closes, held.closes,
    held.going⟩

/-- A run whose agent started, and whose revise was withdrawn. -/
def withdrawnRun : List SpanRow :=
  let run : RunFacts := ⟨none, none, none, none, none, none⟩
  follow (follow (follow [] run .agentStarted {}) run .reviseRequested { attempt := some 1 }) run
    .reviseUnsent { attempt := some 1 }

theorem reached_withdrawnRun : SpansReached withdrawnRun := by
  refine .step (.step (.step .start ⟨_, .agentStarted, {}, nofun, rfl⟩)
    ⟨_, .reviseRequested, _, nofun, rfl⟩) ⟨_, .reviseUnsent, _, fun _ => ?_, rfl⟩
  decide

theorem spans_orderly_withdrawn :
    closedIds withdrawnRun = [1, 4] ∧ countOpen withdrawnRun runSession = 1 :=
  ⟨by decide, (spans_orderly reached_withdrawnRun).2.2.2.2.2 (by decide)⟩

end Dagq.Sessions
