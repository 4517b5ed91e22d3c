/-
This file states that the spans and the book read the holds and the deferrals
alike. The holds on the claims and on the landings are the same lists. The
deferrals are the same waits, each task's in the same order; the book lists all
of them by their start.
-/

import Dagq.PreClaim.Ends

namespace Dagq.PreClaim

open Dagq.Lib Dagq.Ledger

theorem tells_empty {here : PreClaimInterval × Option Nat → Prop} {kind : IntervalKind}
    {kept : Nat → Option (PreClaimInterval × Option Nat)} (nothing : ∀ id, kept id = none) :
    Tells kept here none kind {} where
  current := rfl
  rows id row := by
    rw [nothing]
    constructor
    · rintro ⟨found, _⟩
      cases found
    · rintro ⟨span, member, _⟩
      cases member

/-! ### The holds on the claims -/

theorem hold_tells {events : List RunEvent} (ascending : Ascending events) {upto : Nat}
    (below : ∀ event ∈ events, event.id < upto) :
    (holdScan .claims events).InOrder upto ∧
      Tells (Book.of events).kept (fun row => row.1.Of .hold) ((Book.of events).heldBy .hold)
        .claimHold (holdScan .claims events) := by
  refine @scan_of _ _ (fun book scan => Tells book.kept (fun row => row.1.Of .hold)
    (book.heldBy .hold) .claimHold scan) (tells_empty fun _ => rfl) ?_ _ ascending _ below
  intro book scan upto event holds inOrder fresh tells
  have notSlot : ∀ supervisor slotClass, Place.hold ≠ .slot supervisor slotClass :=
    fun _ _ same => by cases same
  obtain ⟨wokenHeld, wokenRows⟩ := Book.wake_elsewhere holds event notSlot
  have opener : ((book.wake event).claimHold.map fun start =>
      ((book.wake event).open_.get? start).bind fun interval => interval.supervisor) =
      scan.opener := by
    rw [show (book.wake event).claimHold = book.heldBy .hold from wokenHeld, tells.current,
      Scan.opener]
    cases current : scan.current with
    | none => rfl
    | some held =>
      have kept := tells.held inOrder current
      have still := ((wokenRows _ _).mpr ⟨kept, show IntervalKind.claimHold = .claimHold from rfl⟩).1
      have isHeld : (book.wake event).heldBy .hold = some held.start.id := by
        rw [wokenHeld, tells.current, current]
        rfl
      obtain ⟨interval, _, found, wait⟩ := (holds.wake event).kept isHeld
      rw [wait] at still
      obtain rfl := (Prod.mk.inj (Option.some.inj still)).1
      rw [Option.map_some, Option.map_some, Option.map_some, found]
      rfl
  refine Tells.add holds fresh notSlot inOrder tells (fun idle turn taken atHold => ?_)
    fun why ends => ?_
  · have hold := Book.holdTurn_of_turn taken atHold.symm
    simp only [Book.holdTurn, opener, idle] at hold
    cases hold
  · refine Book.turn_of_holdTurn ?_
    simp only [Book.holdTurn, opener, ends]
    by_cases starts : event.kind = HoldKinds.claims.held
    · simp only [starts, if_true, decide_true]
    · simp only [starts, if_false, decide_false, Bool.false_eq_true]

/-! ### The deferrals of a task -/

theorem deferral_tells (task : Nat) {events : List RunEvent} (ascending : Ascending events)
    {upto : Nat} (below : ∀ event ∈ events, event.id < upto) :
    (deferralScanOf task events).InOrder upto ∧
      Tells (Book.of events).kept (fun row => row.1.Of (.deferral task))
        ((Book.of events).heldBy (.deferral task)) .claimDeferral (deferralScanOf task events) := by
  refine @scan_of _ _ (fun book scan => Tells book.kept (fun row => row.1.Of (.deferral task))
    (book.heldBy (.deferral task)) .claimDeferral scan) (tells_empty fun _ => rfl) ?_ _ ascending _
    below
  intro book scan upto event holds inOrder fresh tells
  refine Tells.add holds fresh (fun _ _ same => by cases same) inOrder tells
    (fun idle turn taken atTask => ?_) fun why ends => ?_
  · have deferral := Book.deferralTurn_of_turn taken atTask.symm
    unfold Book.deferralTurn at deferral
    unfold deferralEndOf at idle
    cases found : deferralEnd event with
    | none =>
      rw [found] at deferral
      cases deferral
    | some owner =>
      rw [found] at deferral idle
      rw [← Option.some.inj deferral] at atTask
      have same : owner.1 = task := (Place.deferral.inj atTask).symm
      dsimp only at idle
      rw [if_pos same] at idle
      cases idle
  · refine Book.turn_of_deferralTurn ?_
    unfold deferralEndOf at ends
    cases found : deferralEnd event with
    | none =>
      rw [found] at ends
      cases ends
    | some owner =>
      rw [found] at ends
      dsimp only at ends
      split at ends
      · rename_i same
        rw [Book.deferralTurn, found, ← Option.some.inj ends, ← same]
        dsimp only
        by_cases starts : event.kind = .claimDeferred
        · simp only [starts, if_true, decide_true]
        · simp only [starts, if_false, decide_false, Bool.false_eq_true]
      · cases ends

/-! ### The holds on the landings -/

/-- The holds on the landings once the one open is ended. -/
theorem endLanding_spec {book : Book} {scan : Scan} {upto : Nat} (inOrder : scan.InOrder upto)
    (tells : Tells book.landings.get? (fun _ => True) book.landingHold .claimHold scan)
    (event : RunEvent) (why : String) (id : Nat) (row : PreClaimInterval × Option Nat) :
    (book.endLanding event why).get? id = some row ↔
      (book.landingHold = some id ∧ ∃ old, book.landings.get? id = some (old, none) ∧
        row = (old.endBy event why (event.text "supervisor"), some event.id)) ∨
      (book.landingHold ≠ some id ∧ book.landings.get? id = some row) := by
  cases current : scan.current with
  | none =>
    have free : book.landingHold = none := by
      rw [tells.current, current]
      rfl
    simp [Book.endLanding, free]
  | some held =>
    have isHeld : book.landingHold = some held.start.id := by
      rw [tells.current, current]
      rfl
    have kept := tells.held inOrder current
    simp only [Book.endLanding, isHeld, Option.bind_some, kept, Option.map_some]
    rw [Ordered.get?_insert]
    by_cases started : id = held.start.id
    · rw [if_pos started, started, kept]
      simp [eq_comm]
    · rw [if_neg started]
      simp [Ne.symm started]

theorem landing_tells {events : List RunEvent} (ascending : Ascending events) {upto : Nat}
    (below : ∀ event ∈ events, event.id < upto) :
    (holdScan .landings events).InOrder upto ∧
      Tells (Book.of events).landings.get? (fun _ => True) (Book.of events).landingHold .claimHold
        (holdScan .landings events) := by
  refine @scan_of _ _ (fun book scan => Tells book.landings.get? (fun _ => True) book.landingHold
    .claimHold scan) (tells_empty fun _ => rfl) ?_ _ ascending _ below
  intro book scan upto event _ inOrder fresh tells
  have opener : (book.landingHold.map fun start =>
      (book.landings.get? start).bind fun row => row.1.supervisor) = scan.opener := by
    rw [tells.current, Scan.opener]
    cases current : scan.current with
    | none => rfl
    | some held =>
      rw [Option.map_some, Option.map_some, Option.map_some, tells.held inOrder current]
      rfl
  have same := Book.add_landings book event
  rw [same.landings, same.landingHold]
  refine tells.read inOrder (fun idle => ?_) fun why ends => ?_
  · simp only [Book.addLanding, opener, idle]
    exact ⟨trivial, fun _ _ => trivial⟩
  · have absent : book.landings.get? event.id = none := by
      cases found : book.landings.get? event.id with
      | none => rfl
      | some row =>
        obtain ⟨span, member, started, _⟩ := (tells.rows _ _).mp ⟨found, trivial⟩
        have bound := inOrder.below span member
        omega
    have ended := endLanding_spec inOrder tells event why
    by_cases starts : event.kind = HoldKinds.landings.held
    · simp only [Book.addLanding, opener, ends, starts, if_true, decide_true, true_and]
      refine fun id row => ?_
      rw [Ordered.get?_insert]
      by_cases started : id = event.id
      · rw [if_pos started, started, absent]
        simp [eq_comm]
      · rw [if_neg started, ended]
        simp [started]
    · simp only [Book.addLanding, opener, ends, starts, if_false, decide_false,
        Bool.false_eq_true, false_and, false_or, true_and]
      refine fun id row => ?_
      rw [ended]
      simp

/-! ### The waits of a book, in the order they started -/

theorem rows_spec {book : Book} {upto : Nat} (holds : Book.Held book upto) :
    (book.rows.Pairwise fun first second => first.1.id < second.1.id) ∧
      ∀ row, row ∈ book.rows ↔ book.kept row.1.id = some row := by
  have closedAscending : book.closed.values.Pairwise
      fun first second => first.1.id < second.1.id := by
    refine List.pairwise_map.mpr (book.closed.ascending.imp_of_mem ?_)
    intro first second inFirst inSecond before
    rw [(holds.closedId _ _ (Ordered.get?_eq_some_iff.mpr inFirst)).1,
      (holds.closedId _ _ (Ordered.get?_eq_some_iff.mpr inSecond)).1]
    exact before
  have openAscending : (book.open_.values.map
      fun interval => ((interval, none) : PreClaimInterval × Option Nat)).Pairwise
      fun first second => first.1.id < second.1.id := by
    refine List.pairwise_map.mpr (List.pairwise_map.mpr (book.open_.ascending.imp_of_mem ?_))
    intro first second inFirst inSecond before
    rw [(holds.openId _ _ (Ordered.get?_eq_some_iff.mpr inFirst)).1,
      (holds.openId _ _ (Ordered.get?_eq_some_iff.mpr inSecond)).1]
    exact before
  have inClosed : ∀ row, row ∈ book.closed.values ↔ book.closed.get? row.1.id = some row := by
    intro row
    rw [Ordered.mem_values]
    refine ⟨?_, fun found => ⟨_, found⟩⟩
    rintro ⟨id, found⟩
    rw [(holds.closedId id row found).1]
    exact found
  have inOpen : ∀ row, row ∈ (book.open_.values.map
      fun interval => ((interval, none) : PreClaimInterval × Option Nat)) ↔
      (book.open_.get? row.1.id = some row.1 ∧ row.2 = none) := by
    intro row
    rw [List.mem_map]
    constructor
    · rintro ⟨interval, member, rfl⟩
      obtain ⟨id, found⟩ := Ordered.mem_values.mp member
      refine ⟨?_, rfl⟩
      rw [(holds.openId id interval found).1]
      exact found
    · rintro ⟨found, isOpen⟩
      exact ⟨row.1, Ordered.mem_values.mpr ⟨_, found⟩, by rw [← isOpen]⟩
  refine ⟨@merge_ascending _ _ _ (fun row : PreClaimInterval × Option Nat => row.1.id) _ _
    closedAscending openAscending
    fun first inFirst second inSecond same => ?_, fun row => ?_⟩
  · have found := (inOpen second).mp inSecond
    have closed := (inClosed first).mp inFirst
    rw [same, holds.apart _ _ found.1] at closed
    cases closed
  · rw [Book.rows, List.mem_merge, inClosed, inOpen, Book.kept]
    cases closed : book.closed.get? row.1.id with
    | some other =>
      dsimp only
      constructor
      · rintro (same | ⟨opened, _⟩)
        · exact same
        · have absent := holds.apart _ _ opened
          rw [absent] at closed
          cases closed
      · exact Or.inl
    | none =>
      dsimp only
      rw [Option.map_eq_some_iff]
      constructor
      · rintro (same | ⟨opened, isOpen⟩)
        · cases same
        · exact ⟨row.1, opened, by rw [← isOpen]⟩
      · rintro ⟨interval, opened, rfl⟩
        exact Or.inr ⟨opened, rfl⟩

/-- Every row is of a place. -/
theorem row_placed {book : Book} {upto : Nat} (holds : Book.Held book upto)
    {row : PreClaimInterval × Option Nat} (member : row ∈ book.rows) :
    ∃ place, row.1.Of place := by
  have kept := ((rows_spec holds).2 row).mp member
  unfold Book.kept at kept
  split at kept
  · rename_i closed
    rw [← Option.some.inj kept]
    exact holds.filed _ _ closed
  · obtain ⟨interval, opened, equal⟩ := Option.map_eq_some_iff.mp kept
    rw [← equal]
    exact holds.placed _ _ opened

/-- The rows of a place are the spans of the scan that tells them. -/
theorem rows_of_tells {book : Book} {upto : Nat} (holds : Book.Held book upto)
    {here : PreClaimInterval × Option Nat → Prop} [DecidablePred here] {current : Option Nat}
    {kind : IntervalKind} {scan : Scan} (inOrder : scan.InOrder upto)
    (tells : Tells book.kept here current kind scan) :
    book.rows.filter (fun row => here row) = scan.all.map (rowOf kind) := by
  obtain ⟨ascending, member⟩ := rows_spec holds
  refine @eq_of_ascending_of_mem_iff _ _ _ (fun row : PreClaimInterval × Option Nat => row.1.id)
    _ _ (ascending.filter _) ?_
    fun row => ?_
  · refine List.pairwise_map.mpr (inOrder.ascending.imp fun before => ?_)
    rw [rowOf_id, rowOf_id]
    exact before
  · rw [List.mem_filter, member, decide_eq_true_eq, tells.rows, List.mem_map]
    constructor
    · rintro ⟨span, inside, _, equal⟩
      exact ⟨span, inside, equal⟩
    · rintro ⟨span, inside, equal⟩
      refine ⟨span, inside, ?_, equal⟩
      rw [← equal, rowOf_id]

/-! ### Alike -/

/-- The rows of a task's deferrals. -/
def OfTask (task : Nat) (row : PreClaimInterval × Option Nat) : Prop :=
  row.1.Of (.deferral task)

instance (task : Nat) : DecidablePred (OfTask task) := fun row =>
  inferInstanceAs (Decidable (row.1.kind = .claimDeferral ∧ row.1.taskId = some task))

/-- The deferrals of one task among those of all tasks. -/
theorem deferralSpans_task (task : Nat) (events : List RunEvent) :
    (deferralSpans events).filter (fun span => span.start.taskId = some task) =
      (deferralScanOf task events).all := by
  obtain ⟨ended, current, tasks⟩ := deferralScan_task task events
  rw [deferralSpans, List.filter_append, ended, Scan.all]
  refine congrArg _ ?_
  have keyed : ∀ entry ∈ (deferralScan events).current.entries,
      decide (entry.2.start.taskId = some task) = decide (entry.1 = task) := by
    intro entry member
    rw [tasks _ _ (Ordered.get?_eq_some_iff.mpr member), decide_eq_decide]
    exact ⟨fun same => Option.some.inj same, fun same => congrArg some same⟩
  rw [Ordered.values, List.filter_map, Function.comp_def, List.filter_congr keyed,
    Ordered.entries_filter_key, current]
  cases (deferralScanOf task events).current <;> rfl

/-- Every deferral is of a task. -/
theorem deferralSpans_named (events : List RunEvent) (span : HoldSpan)
    (member : span ∈ deferralSpans events) : ∃ task, span.start.taskId = some task := by
  have ended : ∀ span ∈ (deferralScan events).spans, ∃ task, span.start.taskId = some task := by
    clear member span
    induction events using List.reverseRecOn with
    | nil => exact fun _ member => (by cases member)
    | append_singleton events event inductionHypothesis =>
      intro span member
      rw [deferralScan_concat] at member
      unfold DeferralScan.read at member
      split at member
      · exact inductionHypothesis span member
      · rename_i task why _
        rcases List.mem_append.mp member with before | last
        · exact inductionHypothesis span before
        · obtain ⟨held, found, rfl⟩ := Option.map_eq_some_iff.mp (Option.mem_toList.mp last)
          exact ⟨task, (deferralScan_task task events).2.2 task held found⟩
  rcases List.mem_append.mp member with before | open_
  · exact ended span before
  · obtain ⟨task, found⟩ := Ordered.mem_values.mp open_
    exact ⟨task, (deferralScan_task task events).2.2 task span found⟩

/-! ### The order of the deferrals -/

/-- The id of the event that ended a hold or a deferral. -/
def HoldSpan.endId (span : HoldSpan) : Option Nat := span.end_.map fun ended => ended.event.id

/-- Those that ended come first, in the order they ended, then those still open, by task. -/
def InEndOrder (spans : List HoldSpan) : Prop :=
  ∃ ended open_, spans = ended ++ open_ ∧
    (∀ span ∈ ended, span.end_.isSome = true) ∧ (∀ span ∈ open_, span.end_ = none) ∧
    (ended.filterMap HoldSpan.endId).Pairwise (· < ·) ∧
    (open_.filterMap fun span => span.start.taskId).Pairwise (· < ·)

theorem deferralScan_current_open (events : List RunEvent) {task : Nat} {span : HoldSpan}
    (held : (deferralScan events).current.get? task = some span) : span.end_ = none := by
  induction events using List.reverseRecOn with
  | nil => cases held
  | append_singleton events event inductionHypothesis =>
    rw [deferralScan_concat] at held
    cases ends : deferralEnd event with
    | none =>
      rw [DeferralScan.read, ends] at held
      exact inductionHypothesis held
    | some key =>
      rw [DeferralScan.current_read ends] at held
      split at held
      · split at held
        · rw [← Option.some.inj held]
          rfl
        · cases held
      · exact inductionHypothesis held

/-- The deferrals that ended are by the events that ended them. -/
theorem deferralScan_ended {events : List RunEvent} (ascending : Ascending events) :
    (∀ span ∈ (deferralScan events).spans, ∃ event ∈ events, span.endId = some event.id) ∧
      ((deferralScan events).spans.filterMap HoldSpan.endId).Pairwise (· < ·) := by
  induction events using List.reverseRecOn with
  | nil => exact ⟨fun _ member => (by cases member), .nil⟩
  | append_singleton events event inductionHypothesis =>
    obtain ⟨before, _, later⟩ := List.pairwise_append.mp ascending
    obtain ⟨ends, inOrder⟩ := inductionHypothesis before
    have earlier : ∀ span ∈ (deferralScan events).spans,
        ∃ other ∈ events ++ [event], span.endId = some other.id := fun span member =>
      (ends span member).imp fun _ found => ⟨List.mem_append_left _ found.1, found.2⟩
    rw [deferralScan_concat]
    cases isEnd : deferralEnd event with
    | none =>
      rw [DeferralScan.read, isEnd]
      exact ⟨earlier, inOrder⟩
    | some key =>
      rw [DeferralScan.spans_read isEnd]
      cases (deferralScan events).current.get? key.1 with
      | none =>
        rw [Option.map_none, Option.toList_none, List.append_nil]
        exact ⟨earlier, inOrder⟩
      | some held =>
        refine ⟨fun span member => ?_, ?_⟩
        · rcases List.mem_append.mp member with among | isLast
          · exact earlier span among
          · rw [List.mem_singleton.mp isLast]
            exact ⟨event, List.mem_append_right _ List.mem_cons_self, rfl⟩
        · rw [List.filterMap_append]
          refine List.pairwise_append.mpr
            ⟨inOrder, List.pairwise_singleton _ event.id, fun first inFirst second inLast => ?_⟩
          obtain ⟨span, member, isFirst⟩ := List.mem_filterMap.mp inFirst
          obtain ⟨other, among, isOther⟩ := ends span member
          obtain rfl : other.id = first := Option.some.inj (isOther.symm.trans isFirst)
          rw [List.mem_singleton.mp inLast]
          exact later other among event List.mem_cons_self

theorem deferralSpans_inEndOrder {events : List RunEvent} (ascending : Ascending events) :
    InEndOrder (deferralSpans events) := by
  obtain ⟨ends, inOrder⟩ := deferralScan_ended ascending
  refine ⟨_, _, rfl, fun span member => ?_, fun span member => ?_, inOrder, ?_⟩
  · obtain ⟨event, _, isEnd⟩ := ends span member
    exact (Option.isSome_map.symm.trans (congrArg Option.isSome isEnd) : _)
  · obtain ⟨task, found⟩ := Ordered.mem_values.mp member
    exact deferralScan_current_open events found
  · have tasks : ∀ entry ∈ (deferralScan events).current.entries,
        entry.2.start.taskId = some entry.1 := fun entry member =>
      (deferralScan_task entry.1 events).2.2 _ _ (Ordered.get?_eq_some_iff.mpr member)
    rw [Ordered.values, List.filterMap_map, Function.comp_def,
      List.filterMap_congr tasks, List.filterMap_eq_map']
    exact List.pairwise_map.mpr (deferralScan events).current.ascending

/-! ### Both readings -/

/-- The book and the spans read the holds and the deferrals alike: with the same starts, ends
and reasons, the holds and each task's deferrals in the same order, all of the book's waits by
their start, and the spans' deferrals in the order they ended. -/
theorem read_alike (events : List RunEvent) (ascending : Ascending events) :
    (Book.of events).rows.filter (fun row => row.1.kind = .claimHold) =
        (holdSpans .claims events).map (rowOf .claimHold) ∧
      (Book.of events).landings.values = (holdSpans .landings events).map (rowOf .claimHold) ∧
      ((Book.of events).rows.filter fun row => row.1.kind = .claimDeferral).Perm
        ((deferralSpans events).map (rowOf .claimDeferral)) ∧
      (∀ task, (Book.of events).rows.filter (fun row => OfTask task row) =
        ((deferralSpans events).filter fun span => span.start.taskId = some task).map
          (rowOf .claimDeferral)) ∧
      ((Book.of events).rows.Pairwise fun first second => first.1.id < second.1.id) ∧
      InEndOrder (deferralSpans events) := by
  obtain ⟨upto, below⟩ := ids_below events
  have holds := held_of ascending below
  have tasks : ∀ task, (Book.of events).rows.filter (fun row => OfTask task row) =
      ((deferralSpans events).filter fun span => span.start.taskId = some task).map
        (rowOf .claimDeferral) := by
    intro task
    obtain ⟨inOrder, tells⟩ := deferral_tells task ascending below
    rw [deferralSpans_task]
    exact @rows_of_tells _ _ holds (OfTask task) _ _ _ _ inOrder tells
  refine ⟨?_, ?_, ?_, tasks, (rows_spec holds).1, deferralSpans_inEndOrder ascending⟩
  · obtain ⟨inOrder, tells⟩ := hold_tells ascending below
    exact @rows_of_tells _ _ holds (fun row => row.1.kind = .claimHold) _ _ _ _
      inOrder tells
  · obtain ⟨inOrder, tells⟩ := landing_tells ascending below
    refine @eq_of_ascending_of_mem_iff _ _ _ (fun row : PreClaimInterval × Option Nat => row.1.id)
      _ _ ?_ ?_ fun row => ?_
    · refine List.pairwise_map.mpr
        ((Book.of events).landings.ascending.imp_of_mem fun inFirst inSecond before => ?_)
      have started : ∀ {entry}, entry ∈ (Book.of events).landings.entries →
          entry.2.1.id = entry.1 := by
        intro entry member
        obtain ⟨span, _, same, equal⟩ :=
          (tells.rows _ _).mp ⟨Ordered.get?_eq_some_iff.mpr member, trivial⟩
        rw [← equal, rowOf_id, same]
      rw [started inFirst, started inSecond]
      exact before
    · refine List.pairwise_map.mpr (inOrder.ascending.imp fun before => ?_)
      rw [rowOf_id, rowOf_id]
      exact before
    · rw [Ordered.mem_values, List.mem_map]
      constructor
      · rintro ⟨id, found⟩
        obtain ⟨span, member, _, equal⟩ := (tells.rows id row).mp ⟨found, trivial⟩
        exact ⟨span, member, equal⟩
      · rintro ⟨span, member, equal⟩
        exact ⟨span.start.id, ((tells.rows _ _).mpr ⟨span, member, rfl, equal⟩).1⟩
  · rw [List.perm_iff_count]
    intro row
    by_cases here : ∃ task, OfTask task row
    · obtain ⟨task, deferral, named⟩ := here
      have inBook : List.count row ((Book.of events).rows.filter
          fun row => row.1.kind = .claimDeferral) =
          List.count row ((Book.of events).rows.filter fun row => OfTask task row) := by
        have inTask : decide (OfTask task row) = true := decide_eq_true ⟨deferral, named⟩
        rw [List.count_filter (by simpa using deferral),
          List.count_filter (p := fun row => decide (OfTask task row)) inTask]
      have inSpans : List.count row ((deferralSpans events).map (rowOf .claimDeferral)) =
          List.count row (((deferralSpans events).map (rowOf .claimDeferral)).filter
            fun row => row.1.taskId = some task) := by
        rw [List.count_filter (by simpa using named)]
      rw [inBook, inSpans, tasks, List.filter_map]
      refine congrArg (List.count row) (congrArg _ (List.filter_congr fun span _ => ?_))
      rw [Function.comp_apply, rowOf_taskId]
    · have notInBook : row ∉ (Book.of events).rows.filter
          fun row => row.1.kind = .claimDeferral := by
        intro member
        obtain ⟨inRows, deferral⟩ := List.mem_filter.mp member
        obtain ⟨place, ofPlace⟩ := row_placed holds inRows
        cases place with
        | slot supervisor slotClass =>
          rw [ofPlace.1] at deferral
          cases deferral
        | hold =>
          rw [show row.1.kind = .claimHold from ofPlace] at deferral
          cases deferral
        | deferral task => exact here ⟨task, ofPlace⟩
      have notInSpans : row ∉ (deferralSpans events).map (rowOf .claimDeferral) := by
        intro member
        obtain ⟨span, inside, rfl⟩ := List.mem_map.mp member
        obtain ⟨task, named⟩ := deferralSpans_named events span inside
        exact here ⟨task, rowOf_kind _ _, (rowOf_taskId span).trans named⟩
      rw [List.count_eq_zero_of_not_mem notInBook, List.count_eq_zero_of_not_mem notInSpans]

/-- A hold of each sort around two tasks deferred one after the other, the later one first to
end. -/
def crossedWaits : List RunEvent :=
  [{ id := 1, kind := .claimHeld }, { id := 2, kind := .landingHeld },
    { id := 3, taskId := some 1, kind := .claimDeferred },
    { id := 4, taskId := some 2, kind := .claimDeferred },
    { id := 5, taskId := some 2, kind := .runClaimed }, { id := 6, kind := .claimResumed },
    { id := 7, taskId := some 1, kind := .runClaimed }, { id := 8, kind := .landingResumed }]

theorem read_alike_crossed :
    (Book.of crossedWaits).rows.filter (fun row => row.1.kind = .claimHold) =
        (holdSpans .claims crossedWaits).map (rowOf .claimHold) ∧
      (Book.of crossedWaits).landings.values =
        (holdSpans .landings crossedWaits).map (rowOf .claimHold) ∧
      ((Book.of crossedWaits).rows.filter fun row => row.1.kind = .claimDeferral).Perm
        ((deferralSpans crossedWaits).map (rowOf .claimDeferral)) ∧
      InEndOrder (deferralSpans crossedWaits) := by
  have ascending : Ascending crossedWaits := by simp [Ascending, crossedWaits]
  obtain ⟨claims, landings, deferrals, _, _, inEndOrder⟩ := read_alike crossedWaits ascending
  exact ⟨claims, landings, deferrals, inEndOrder⟩

/-- Two tasks deferred one after the other, the later one first to end. -/
def crossedDeferrals : List RunEvent :=
  [{ id := 1, taskId := some 1, kind := .claimDeferred },
    { id := 2, taskId := some 2, kind := .claimDeferred },
    { id := 3, taskId := some 2, kind := .runClaimed },
    { id := 4, taskId := some 1, kind := .runClaimed }]

theorem crossedDeferrals_ascending : Ascending crossedDeferrals := by
  simp [Ascending, crossedDeferrals]

/-- The spans list the deferral that ended first before the one that started first, the book
after it. -/
theorem deferrals_in_another_order : Ascending crossedDeferrals ∧
    (deferralSpans crossedDeferrals).map (fun span => span.start.id) = [2, 1] ∧
    ((Book.of crossedDeferrals).rows.filter fun row => row.1.kind = .claimDeferral).map
      (fun row => row.1.id) = [1, 2] := by
  refine ⟨crossedDeferrals_ascending, by decide, ?_⟩
  have nothingOpen : (Book.of crossedDeferrals).open_.values = [] := by decide
  rw [Book.rows, nothingOpen, List.map_nil, List.merge_right]
  decide

end Dagq.PreClaim
