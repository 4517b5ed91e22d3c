/-
This file compares the two readings of the holds and the deferrals: the spans,
which pair each start with its end, and the book, which keeps the waits of all
places side by side. In each place both read the same: the book's waits are the
spans in the order they started, each with the same events at its start and its
end and the same reasons. Only the deferrals of several tasks differ in their
order, the spans of all tasks being listed in the order they ended.
-/

import Dagq.PreClaim.Held

namespace Dagq.PreClaim

open Dagq.Lib Dagq.Ledger

/-! ### A scan over events by ascending id -/

/-- The spans of a scan by ascending start, the one open without an end. -/
structure Scan.InOrder (scan : Scan) (upto : Nat) : Prop where
  ascending : scan.all.Pairwise fun first second => first.start.id < second.start.id
  below : ∀ span ∈ scan.all, span.start.id < upto
  isOpen : ∀ held, scan.current = some held → held.end_ = none

section Read

variable {ending : Option (Option String) → RunEvent → Option String}
  {starting : RunEvent → Bool} {scan : Scan} {event : RunEvent} {why : String}

theorem Scan.read_of_none (idle : ending scan.opener event = none) :
    scan.read ending starting event = scan := by
  rw [Scan.read, idle]

theorem Scan.read_of_some (ends : ending scan.opener event = some why) :
    scan.read ending starting event =
      { spans := scan.spans ++ (scan.current.map fun held => held.endedBy event why).toList
        current := if starting event then some (HoldSpan.of event) else none } := by
  rw [Scan.read, ends]

theorem Scan.mem_read (ends : ending scan.opener event = some why) {span : HoldSpan} :
    span ∈ (scan.read ending starting event).all ↔
      span ∈ scan.spans ∨ (∃ held, scan.current = some held ∧ span = held.endedBy event why) ∨
        (starting event = true ∧ span = HoldSpan.of event) := by
  rw [Scan.read_of_some ends, Scan.all, List.mem_append, List.mem_append, or_assoc]
  refine or_congr Iff.rfl (or_congr ?_ ?_)
  · cases scan.current with
    | none => simp
    | some held => simp
  · cases starting event with
    | false => simp
    | true => simp

theorem Scan.InOrder.read {upto : Nat} (inOrder : scan.InOrder upto) (fresh : upto ≤ event.id) :
    (scan.read ending starting event).InOrder (event.id + 1) := by
  have later : upto < event.id + 1 := Nat.lt_succ_of_le fresh
  cases ends : ending scan.opener event with
  | none =>
    rw [Scan.read_of_none ends]
    exact ⟨inOrder.ascending, fun span member => (inOrder.below span member).trans later,
      inOrder.isOpen⟩
  | some why =>
    have starts : (scan.spans ++
          (scan.current.map fun held => held.endedBy event why).toList).map (·.start.id) =
        scan.all.map (·.start.id) := by
      rw [Scan.all, List.map_append, List.map_append]
      cases scan.current <;> rfl
    have ascending : (scan.spans ++
          (scan.current.map fun held => held.endedBy event why).toList).Pairwise
        fun first second => first.start.id < second.start.id := by
      have same := List.pairwise_map.mpr inOrder.ascending
      rw [← starts] at same
      exact List.pairwise_map.mp same
    have below : ∀ span ∈ scan.spans ++
        (scan.current.map fun held => held.endedBy event why).toList, span.start.id < event.id := by
      intro span member
      have inside := List.mem_map_of_mem (f := fun span : HoldSpan => span.start.id) member
      rw [starts] at inside
      obtain ⟨old, oldMember, same⟩ := List.mem_map.mp inside
      rw [← same]
      exact (inOrder.below old oldMember).trans_le fresh
    rw [Scan.read_of_some ends]
    refine ⟨?_, ?_, ?_⟩
    · rw [Scan.all, List.pairwise_append]
      refine ⟨ascending, ?_, fun first before second after => ?_⟩
      · dsimp only
        split <;> simp
      · dsimp only at after
        split at after
        · rw [List.mem_singleton.mp after]
          exact below first before
        · cases after
    · intro span member
      rcases List.mem_append.mp member with before | after
      · exact (below span before).trans (Nat.lt_succ_self _)
      · dsimp only at after
        split at after
        · rw [List.mem_singleton.mp after]
          exact Nat.lt_succ_self _
        · cases after
    · intro held current
      dsimp only at current
      split at current
      · rw [← Option.some.inj current]
        rfl
      · cases current

end Read

/-! ### A span as the book keeps it -/

/-- The wait of a span, with the event that ended it. -/
def rowOf (kind : IntervalKind) (span : HoldSpan) : PreClaimInterval × Option Nat :=
  match span.end_ with
  | none => (.opened kind span.start, none)
  | some end_ =>
    ((PreClaimInterval.opened kind span.start).endBy end_.event end_.why
      (end_.event.text "supervisor"), some end_.event.id)

theorem rowOf_id (kind : IntervalKind) (span : HoldSpan) : (rowOf kind span).1.id = span.start.id := by
  unfold rowOf
  split <;> rfl

theorem rowOf_kind (kind : IntervalKind) (span : HoldSpan) : (rowOf kind span).1.kind = kind := by
  unfold rowOf
  split <;> rfl

theorem rowOf_taskId (span : HoldSpan) :
    (rowOf .claimDeferral span).1.taskId = span.start.taskId := by
  unfold rowOf
  split <;> rfl

theorem rowOf_open (kind : IntervalKind) {span : HoldSpan} (isOpen : span.end_ = none) :
    rowOf kind span = (.opened kind span.start, none) := by
  rw [rowOf, isOpen]

/-- The rows kept of one place, and the one open there, are the spans of a scan. -/
structure Tells (kept : Nat → Option (PreClaimInterval × Option Nat))
    (here : PreClaimInterval × Option Nat → Prop) (current : Option Nat) (kind : IntervalKind)
    (scan : Scan) : Prop where
  current : current = scan.current.map fun held => held.start.id
  rows : ∀ id row, (kept id = some row ∧ here row) ↔
    ∃ span ∈ scan.all, span.start.id = id ∧ rowOf kind span = row

section Tells

variable {kept next : Nat → Option (PreClaimInterval × Option Nat)}
  {here : PreClaimInterval × Option Nat → Prop} {current after : Option Nat} {kind : IntervalKind}
  {scan : Scan} {upto : Nat}

/-- What is open in the place is kept as the open span. -/
theorem Tells.held (tells : Tells kept here current kind scan) (inOrder : scan.InOrder upto)
    {held : HoldSpan} (isHeld : scan.current = some held) :
    kept held.start.id = some (.opened kind held.start, none) := by
  have member : held ∈ scan.all := by
    rw [Scan.all, isHeld]
    exact List.mem_append_right _ List.mem_cons_self
  have found := ((tells.rows _ _).mpr ⟨held, member, rfl, rfl⟩).1
  rw [found, rowOf_open kind (inOrder.isOpen held isHeld)]

/-- The one open in the place started after every one that ended. -/
theorem Scan.InOrder.apart (inOrder : scan.InOrder upto) {held span : HoldSpan}
    (isHeld : scan.current = some held) (ended : span ∈ scan.spans) :
    span.start.id ≠ held.start.id := by
  have ascending := inOrder.ascending
  rw [Scan.all, isHeld, List.pairwise_append] at ascending
  exact (ascending.2.2 span ended held List.mem_cons_self).ne

/-- Reading one more event keeps the two readings together, where the rows of the place change
as the scan does. -/
theorem Tells.read {ending : Option (Option String) → RunEvent → Option String}
    {starting : RunEvent → Bool} {event : RunEvent} (tells : Tells kept here current kind scan)
    (inOrder : scan.InOrder upto)
    (idle : ending scan.opener event = none → after = current ∧
      ∀ id row, (next id = some row ∧ here row) ↔ (kept id = some row ∧ here row))
    (turn : ∀ why, ending scan.opener event = some why →
      after = (if starting event then some event.id else none) ∧
      ∀ id row, (next id = some row ∧ here row) ↔
        (starting event = true ∧ id = event.id ∧ row = (.opened kind event, none)) ∨
        (current = some id ∧ ∃ old, kept id = some (old, none) ∧
          row = (old.endBy event why (event.text "supervisor"), some event.id)) ∨
        (current ≠ some id ∧ kept id = some row ∧ here row)) :
    Tells next here after kind (scan.read ending starting event) := by
  cases ends : ending scan.opener event with
  | none =>
    obtain ⟨same, rows⟩ := idle ends
    rw [Scan.read_of_none ends]
    exact ⟨same.trans tells.current, fun id row => (rows id row).trans (tells.rows id row)⟩
  | some why =>
    obtain ⟨nowOpen, rows⟩ := turn why ends
    refine ⟨?_, fun id row => ?_⟩
    · rw [nowOpen, Scan.read_of_some ends]
      dsimp only
      split <;> rfl
    · rw [rows]
      constructor
      · rintro (⟨starts, rfl, rfl⟩ | ⟨isOpen, old, found, rfl⟩ | ⟨notOpen, found, inPlace⟩)
        · exact ⟨HoldSpan.of event, (Scan.mem_read ends).mpr (Or.inr (Or.inr ⟨starts, rfl⟩)), rfl,
            rowOf_open kind rfl⟩
        · rw [tells.current] at isOpen
          obtain ⟨held, isHeld, same⟩ := Option.map_eq_some_iff.mp isOpen
          have opened := tells.held inOrder isHeld
          rw [same, found] at opened
          obtain rfl : old = .opened kind held.start := (Prod.mk.inj (Option.some.inj opened)).1
          exact ⟨held.endedBy event why,
            (Scan.mem_read ends).mpr (Or.inr (Or.inl ⟨held, isHeld, rfl⟩)), same, rfl⟩
        · obtain ⟨span, member, same, equal⟩ := (tells.rows id row).mp ⟨found, inPlace⟩
          refine ⟨span, (Scan.mem_read ends).mpr (Or.inl ?_), same, equal⟩
          rcases List.mem_append.mp member with ended | last
          · exact ended
          · have isHeld := Option.mem_toList.mp last
            rw [tells.current, isHeld] at notOpen
            exact absurd (congrArg some same) notOpen
      · rintro ⟨span, member, same, equal⟩
        rcases (Scan.mem_read ends).mp member with ended | ⟨held, isHeld, rfl⟩ | ⟨starts, rfl⟩
        · refine Or.inr (Or.inr ⟨fun isOpen => ?_, (tells.rows id row).mpr
            ⟨span, List.mem_append_left _ ended, same, equal⟩⟩)
          rw [tells.current] at isOpen
          obtain ⟨held, isHeld, again⟩ := Option.map_eq_some_iff.mp isOpen
          exact inOrder.apart isHeld ended (same.trans again.symm)
        · have opened := tells.held inOrder isHeld
          refine Or.inr (Or.inl ⟨?_, .opened kind held.start, ?_, equal.symm⟩)
          · rw [tells.current, isHeld]
            exact congrArg some same
          · rw [← same]
            exact opened
        · exact Or.inl ⟨starts, same.symm, equal.symm⟩

end Tells

/-! ### The waits the book keeps -/

namespace Book

theorem kept_of_open {book : Book} {upto : Nat} (holds : Held book upto) {start : Nat}
    {interval : PreClaimInterval} (found : book.open_.get? start = some interval) :
    book.kept start = some (interval, none) := by
  rw [kept, holds.apart start interval found, found]
  rfl

/-- What is open in a place is kept there. -/
theorem Held.kept {book : Book} {upto : Nat} (holds : Held book upto) {place : Place} {start : Nat}
    (held : book.heldBy place = some start) :
    ∃ interval, interval.Of place ∧ book.open_.get? start = some interval ∧
      book.kept start = some (interval, none) := by
  obtain ⟨interval, found, ofPlace⟩ := (holds.held place start).mp held
  exact ⟨interval, ofPlace, found, kept_of_open holds found⟩

theorem SameWaits.kept {first second : Book} (same : SameWaits first second) (start : Nat) :
    first.kept start = second.kept start := by
  rw [Book.kept, Book.kept, same.closed, same.open_]

theorem kept_endWait {book : Book} {upto : Nat} (holds : Held book upto) (place : Place)
    (event : RunEvent) (why : String) (by_ : Option String) (id : Nat) :
    (book.endWait place event why by_).kept id =
      if book.heldBy place = some id then
        (book.kept id).map fun row => (row.1.endBy event why by_, some event.id)
      else book.kept id := by
  cases held : book.heldBy place with
  | none =>
    rw [endWait_of_none held, if_neg (Option.some_ne_none id).symm]
  | some start =>
    obtain ⟨interval, _, found, wait⟩ := holds.kept held
    rw [endWait_of_some held found]
    by_cases same : id = start
    · rw [same, if_pos rfl, wait]
      unfold Book.kept
      rw [Ordered.get?_insert_self]
      rfl
    · rw [if_neg fun equal => same (Option.some.inj equal).symm]
      unfold Book.kept
      rw [Ordered.get?_insert_of_ne _ _ same, Ordered.get?_erase_of_ne _ same]

theorem kept_startWait {book : Book} {upto : Nat} (holds : Held book upto) (place : Place)
    {event : RunEvent} (fresh : upto ≤ event.id) (interval : PreClaimInterval) (id : Nat) :
    (book.startWait place event interval).kept id =
      if id = event.id then some (interval, none) else book.kept id := by
  unfold Book.kept startWait
  rw [open_occupy, closed_occupy, Ordered.get?_insert]
  by_cases same : id = event.id
  · have absent : book.closed.get? id = none := by
      cases found : book.closed.get? id with
      | none => rfl
      | some row =>
        have bound := (holds.closedId id row found).2
        omega
    simp only [if_pos same]
    rw [absent]
    rfl
  · rw [if_neg same, if_neg same]

theorem heldBy_endWait {book : Book} {upto : Nat} (holds : Held book upto) (place other : Place)
    (event : RunEvent) (why : String) (by_ : Option String) :
    (book.endWait place event why by_).heldBy other =
      if other = place then none else book.heldBy other := by
  cases held : book.heldBy place with
  | none =>
    rw [endWait_of_none held]
    split
    · rename_i same
      rw [same, held]
    · rfl
  | some start =>
    obtain ⟨interval, _, found, _⟩ := holds.kept held
    rw [endWait_of_some held found, ← heldBy_vacate]
    cases other <;> rfl

theorem heldBy_startWait (book : Book) (place other : Place) (event : RunEvent)
    (interval : PreClaimInterval) :
    (book.startWait place event interval).heldBy other =
      if other = place then some event.id else book.heldBy other := by
  rw [startWait, heldBy_occupy]
  cases other <;> rfl

/-- The rows of a place after a turn in it that ends what is open there. -/
theorem take_here {book : Book} {upto : Nat} (holds : Held book upto) {event : RunEvent}
    (fresh : upto ≤ event.id) {turn : Turn} (fits : Fits book event turn) {why : String}
    {by_ : Option String} (ends : turn.ends = some (why, by_)) :
    (book.take event (some turn)).heldBy turn.place =
        (if turn.starts.isSome then some event.id else none) ∧
      ∀ id row, ((book.take event (some turn)).kept id = some row ∧ row.1.Of turn.place) ↔
        (∃ interval, turn.starts = some interval ∧ id = event.id ∧ row = (interval, none)) ∨
        (book.heldBy turn.place = some id ∧ ∃ old, book.kept id = some (old, none) ∧
          row = (old.endBy event why by_, some event.id)) ∨
        (book.heldBy turn.place ≠ some id ∧ book.kept id = some row ∧ row.1.Of turn.place) := by
  have ended := holds.endWait turn.place event why by_
  have old : ∀ {id row}, book.kept id = some row → id < upto := by
    intro id row found
    unfold Book.kept at found
    split at found
    · rename_i closed
      exact (holds.closedId id _ closed).2
    · obtain ⟨interval, opened, _⟩ := Option.map_eq_some_iff.mp found
      exact (holds.openId id interval opened).2
  have here : ∀ id row, ((book.endWait turn.place event why by_).kept id = some row ∧
        row.1.Of turn.place) ↔
      (book.heldBy turn.place = some id ∧ ∃ old, book.kept id = some (old, none) ∧
        row = (old.endBy event why by_, some event.id)) ∨
      (book.heldBy turn.place ≠ some id ∧ book.kept id = some row ∧ row.1.Of turn.place) := by
    intro id row
    rw [kept_endWait holds]
    by_cases held : book.heldBy turn.place = some id
    · obtain ⟨interval, ofPlace, _, wait⟩ := holds.kept held
      rw [if_pos held, wait]
      constructor
      · rintro ⟨equal, _⟩
        exact Or.inl ⟨held, interval, rfl, (Option.some.inj equal).symm⟩
      · rintro (⟨_, old, found, rfl⟩ | ⟨notHeld, _⟩)
        · obtain rfl := (Prod.mk.inj (Option.some.inj found)).1
          exact ⟨rfl, by cases place : turn.place <;> rw [place] at ofPlace <;> exact ofPlace⟩
        · exact absurd held notHeld
    · rw [if_neg held]
      tauto
  show ((book.endTurn event turn).startTurn event turn).heldBy turn.place = _ ∧ ∀ id row,
    (((book.endTurn event turn).startTurn event turn).kept id = some row ∧ _) ↔ _
  unfold endTurn startTurn
  rw [ends]
  dsimp only
  cases starts : turn.starts with
  | none =>
    refine ⟨ended.2, fun id row => ?_⟩
    rw [here]
    simp
  | some interval =>
    refine ⟨?_, fun id row => ?_⟩
    · rw [heldBy_startWait, if_pos rfl]
      rfl
    · dsimp only
      rw [kept_startWait ended.1 turn.place fresh]
      by_cases same : id = event.id
      · rw [if_pos same]
        constructor
        · rintro ⟨equal, _⟩
          exact Or.inl ⟨interval, rfl, same, (Option.some.inj equal).symm⟩
        · rintro (⟨other, equal, _, rfl⟩ | ⟨_, _, found, _⟩ | ⟨_, found, _⟩)
          · obtain rfl := Option.some.inj equal
            exact ⟨rfl, fits.of interval starts⟩
          · have bound := old found
            omega
          · have bound := old found
            omega
      · rw [if_neg same, here]
        constructor
        · exact Or.inr
        · rintro (⟨_, _, equal, _⟩ | before)
          · exact absurd equal same
          · exact before

/-- A turn in another place leaves the rows of a place as they are. -/
theorem take_elsewhere {book : Book} {upto : Nat} (holds : Held book upto) {event : RunEvent}
    (fresh : upto ≤ event.id) {turn : Turn} (fits : Fits book event turn) {place : Place}
    (elsewhere : place ≠ turn.place) :
    (book.take event (some turn)).heldBy place = book.heldBy place ∧
      ∀ id row, ((book.take event (some turn)).kept id = some row ∧ row.1.Of place) ↔
        (book.kept id = some row ∧ row.1.Of place) := by
  have ended : Held (book.endTurn event turn) upto ∧
      (book.endTurn event turn).heldBy place = book.heldBy place ∧
      ∀ id row, ((book.endTurn event turn).kept id = some row ∧ row.1.Of place) ↔
        (book.kept id = some row ∧ row.1.Of place) := by
    unfold endTurn
    cases turn.ends with
    | none => exact ⟨holds, rfl, fun _ _ => Iff.rfl⟩
    | some why =>
      refine ⟨(holds.endWait _ _ _ _).1, ?_, fun id row => ?_⟩
      · exact (heldBy_endWait holds turn.place place event why.1 why.2).trans (if_neg elsewhere)
      · dsimp only
        rw [kept_endWait holds]
        by_cases held : book.heldBy turn.place = some id
        · obtain ⟨interval, ofPlace, _, wait⟩ := holds.kept held
          rw [if_pos held, wait]
          have other : ¬interval.Of place := fun here => elsewhere (place_unique here ofPlace)
          constructor
          · rintro ⟨equal, here⟩
            rw [← Option.some.inj equal] at here
            exact absurd (by cases place <;> exact here) other
          · rintro ⟨equal, here⟩
            rw [← Option.some.inj equal] at here
            exact absurd here other
        · rw [if_neg held]
  obtain ⟨still, heldBy, rows⟩ := ended
  show ((book.endTurn event turn).startTurn event turn).heldBy place = _ ∧ ∀ id row,
    (((book.endTurn event turn).startTurn event turn).kept id = some row ∧ _) ↔ _
  unfold startTurn
  cases starts : turn.starts with
  | none => exact ⟨heldBy, rows⟩
  | some interval =>
    refine ⟨?_, fun id row => ?_⟩
    · exact (heldBy_startWait _ _ _ _ _).trans ((if_neg elsewhere).trans heldBy)
    · dsimp only
      rw [kept_startWait still turn.place fresh]
      by_cases same : id = event.id
      · rw [if_pos same]
        constructor
        · rintro ⟨equal, here⟩
          rw [← Option.some.inj equal] at here
          exact absurd (place_unique here (fits.of interval starts)) elsewhere
        · intro before
          rw [← rows] at before
          have absent : (book.endTurn event turn).kept id = none := by
            unfold Book.kept
            cases closed : (book.endTurn event turn).closed.get? id with
            | some row =>
              have bound := (still.closedId id row closed).2
              omega
            | none =>
              cases opened : (book.endTurn event turn).open_.get? id with
              | none => rfl
              | some interval =>
                have bound := (still.openId id interval opened).2
                omega
          rw [absent] at before
          cases before.1
      · rw [if_neg same]
        exact rows id row

/-- An event naming a supervisor changes nothing outside its slots. -/
theorem wake_elsewhere {book : Book} {upto : Nat} (holds : Held book upto) (event : RunEvent)
    {place : Place} (notSlot : ∀ supervisor slotClass, place ≠ .slot supervisor slotClass) :
    (book.wake event).heldBy place = book.heldBy place ∧
      ∀ id row, ((book.wake event).kept id = some row ∧ row.1.Of place) ↔
        (book.kept id = some row ∧ row.1.Of place) := by
  have reached : ∀ {book : Book} (_ : Held book upto) (supervisor : String) (slotClass : SlotClass)
      (id : Nat) (row : PreClaimInterval × Option Nat),
      ((book.reachClass supervisor event.id slotClass).kept id = some row ∧ row.1.Of place) ↔
        (book.kept id = some row ∧ row.1.Of place) := by
    intro book holds supervisor slotClass id row
    obtain ⟨closed, opened⟩ := reachClass_spec book supervisor event.id slotClass
    unfold Book.kept
    rw [closed, opened]
    by_cases held : book.heldBy (.slot supervisor slotClass) = some id
    · obtain ⟨interval, ofPlace, found, _⟩ := holds.kept held
      have other : ¬interval.Of place := fun here => notSlot _ _ (place_unique here ofPlace)
      rw [if_pos held, holds.apart id interval found, found]
      constructor
      · rintro ⟨equal, here⟩
        rw [← Option.some.inj equal] at here
        exact absurd (by cases place <;> exact here) other
      · rintro ⟨equal, here⟩
        rw [← Option.some.inj equal] at here
        exact absurd here other
    · rw [if_neg held]
  unfold wake
  split
  · rename_i supervisor _
    rw [holds.reopen]
    unfold reachSlotsFull
    refine ⟨(reachClass_heldBy _ _ _ _ _).trans (reachClass_heldBy _ _ _ _ _), fun id row => ?_⟩
    rw [reached (holds.reachClass _ _ _), reached holds]
  · exact ⟨rfl, fun _ _ => Iff.rfl⟩

/-! ### What an event does in one place -/

theorem turn_of_holdTurn {book : Book} {event : RunEvent} {turn : Turn}
    (taken : book.holdTurn event = some turn) : book.turn event = some turn := by
  rcases turn_cases event with ⟨slots, _⟩ | ⟨hold, _⟩ | deferral
  · cases (slots book).2.symm.trans taken
  · exact (hold book).1.trans taken
  · cases (deferral book).2.2.symm.trans taken

theorem turn_of_deferralTurn {book : Book} {event : RunEvent} {turn : Turn}
    (taken : deferralTurn event = some turn) : book.turn event = some turn := by
  rcases turn_cases event with ⟨_, none⟩ | ⟨_, none⟩ | deferral
  · cases none.symm.trans taken
  · cases none.symm.trans taken
  · exact (deferral book).1.trans taken

/-- A turn in the place of the claims is the hold's. -/
theorem holdTurn_of_turn {book : Book} {event : RunEvent} {turn : Turn}
    (taken : book.turn event = some turn) (atHold : turn.place = .hold) :
    book.holdTurn event = some turn := by
  rcases turn_cases event with ⟨slots, _⟩ | ⟨hold, _⟩ | deferral
  · obtain ⟨_, _, place⟩ := slotsTurn_place ((slots book).1.symm.trans taken)
    cases atHold.symm.trans place
  · exact (hold book).1.symm.trans taken
  · obtain ⟨_, place⟩ := deferralTurn_place ((deferral book).1.symm.trans taken)
    cases atHold.symm.trans place

theorem deferralTurn_of_turn {book : Book} {event : RunEvent} {turn : Turn}
    (taken : book.turn event = some turn) {task : Nat} (atTask : turn.place = .deferral task) :
    deferralTurn event = some turn := by
  rcases turn_cases event with ⟨slots, _⟩ | ⟨hold, _⟩ | deferral
  · obtain ⟨_, _, place⟩ := slotsTurn_place ((slots book).1.symm.trans taken)
    cases atTask.symm.trans place
  · cases atTask.symm.trans (holdTurn_place ((hold book).1.symm.trans taken))
  · exact (deferral book).1.symm.trans taken

end Book

/-- One more event keeps a place's rows and its spans together, where the event has a turn in
the place just when it ends what a scan of the place has open. -/
theorem Tells.add {book : Book} {upto : Nat} (holds : Book.Held book upto) {event : RunEvent}
    (fresh : upto ≤ event.id) {place : Place}
    (notSlot : ∀ supervisor slotClass, place ≠ .slot supervisor slotClass) {kind : IntervalKind}
    {scan : Scan} (inOrder : scan.InOrder upto)
    (tells : Tells book.kept (fun row => row.1.Of place) (book.heldBy place) kind scan)
    {ending : Option (Option String) → RunEvent → Option String} {starting : RunEvent → Bool}
    (idle : ending scan.opener event = none → ∀ turn, (book.wake event).turn event = some turn →
      place ≠ turn.place)
    (turns : ∀ why, ending scan.opener event = some why →
      (book.wake event).turn event = some ⟨place, some (why, event.text "supervisor"),
        if starting event then some (.opened kind event) else none⟩) :
    Tells (book.add event).kept (fun row => row.1.Of place) ((book.add event).heldBy place) kind
      (scan.read ending starting event) := by
  have woken := holds.wake event
  obtain ⟨wokenHeld, wokenRows⟩ := Book.wake_elsewhere holds event notSlot
  have outer := Book.addLanding_same
    (((book.wake event).take event ((book.wake event).turn event)).name event) event
  have inner := Book.name_same ((book.wake event).take event ((book.wake event).turn event)) event
  rw [Book.add_eq, outer.heldBy, inner.heldBy]
  have keeps : ∀ id, ((((book.wake event).take event ((book.wake event).turn event)).name
      event).addLanding event).kept id =
      ((book.wake event).take event ((book.wake event).turn event)).kept id :=
    fun id => (outer.kept id).trans (inner.kept id)
  refine tells.read inOrder (fun idles => ?_) fun why ends => ?_
  · simp only [keeps]
    cases taken : (book.wake event).turn event with
    | none => exact ⟨wokenHeld, wokenRows⟩
    | some turn =>
      obtain ⟨heldBy, rows⟩ := Book.take_elsewhere woken fresh (Book.turn_fits taken)
        (idle idles turn taken)
      exact ⟨heldBy.trans wokenHeld, fun id row => (rows id row).trans (wokenRows id row)⟩
  · simp only [keeps]
    have taken := turns why ends
    rw [taken]
    obtain ⟨heldBy, rows⟩ := Book.take_here woken fresh (Book.turn_fits taken) rfl
    refine ⟨heldBy.trans ?_, fun id row => (rows id row).trans ?_⟩
    · dsimp only
      cases starting event <;> rfl
    · dsimp only
      rw [wokenHeld]
      refine or_congr ?_ (or_congr (and_congr_right fun held => ?_) ?_)
      · cases starting event with
        | false => simp
        | true => simp
      · obtain ⟨interval, ofPlace, found, wait⟩ := holds.kept held
        have same := ((wokenRows id _).mpr ⟨wait, ofPlace⟩).1
        rw [same, wait]
      · rw [wokenRows]

/-! ### The holds and the deferrals -/

theorem held_of {events : List RunEvent} (ascending : Ascending events) {upto : Nat}
    (below : ∀ event ∈ events, event.id < upto) : Book.Held (Book.of events) upto := by
  induction events using List.reverseRecOn generalizing upto with
  | nil => exact Book.held_empty.mono (Nat.zero_le _)
  | append_singleton events event inductionHypothesis =>
    rw [Ascending, List.pairwise_append] at ascending
    have before := inductionHypothesis ascending.1 fun earlier member =>
      ascending.2.2 earlier member event List.mem_cons_self
    have bound := below event (List.mem_append_right _ List.mem_cons_self)
    rw [Book.of, List.foldl_append]
    exact (before.add (Nat.le_refl _)).mono bound

/-- Two readings of events kept together by each event agree over a whole list of events. -/
theorem scan_of {ending : Option (Option String) → RunEvent → Option String}
    {starting : RunEvent → Bool} {agrees : Book → Scan → Prop}
    (initial : agrees {} {})
    (step : ∀ {book scan upto event}, Book.Held book upto → Scan.InOrder scan upto →
      upto ≤ event.id → agrees book scan → agrees (book.add event)
        (scan.read ending starting event))
    {events : List RunEvent} (ascending : Ascending events) {upto : Nat}
    (below : ∀ event ∈ events, event.id < upto) :
    Scan.InOrder (events.foldl (Scan.read ending starting) {}) upto ∧
      agrees (Book.of events) (events.foldl (Scan.read ending starting) {}) := by
  induction events using List.reverseRecOn generalizing upto with
  | nil => exact ⟨⟨List.Pairwise.nil, fun _ member => (by cases member),
      fun _ held => by cases held⟩, initial⟩
  | append_singleton events event inductionHypothesis =>
    rw [Ascending, List.pairwise_append] at ascending
    have earlier : ∀ other ∈ events, other.id < event.id := fun other member =>
      ascending.2.2 other member event List.mem_cons_self
    obtain ⟨inOrder, agree⟩ := inductionHypothesis ascending.1 earlier
    have bound := below event (List.mem_append_right _ List.mem_cons_self)
    rw [Book.of, List.foldl_append, List.foldl_append]
    have next := @Scan.InOrder.read ending starting _ _ _ inOrder (Nat.le_refl event.id)
    exact ⟨⟨next.ascending, fun span member => (next.below span member).trans_le bound,
      next.isOpen⟩, step (held_of ascending.1 earlier) inOrder (Nat.le_refl _) agree⟩

end Dagq.PreClaim
