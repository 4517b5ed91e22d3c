/-
This file shows what a book that only read events holds: every wait by the id of
the event that started it, an open one in exactly the place it is of, and every
ended one with the event that ended it. An event has at most one turn among the
waits, so one lemma for the end of a wait and one for the start of a wait cover
what any event does.
-/

import Dagq.PreClaim.Book

namespace Dagq.PreClaim

open Dagq.Lib Dagq.Ledger

namespace Book

/-! ### Where the waits are held -/

theorem slotKey_inj {first second : String} {one two : SlotClass} :
    slotKey first one = slotKey second two ↔ first = second ∧ one = two := by
  rw [slotKey, slotKey, toLex_inj, Prod.mk.injEq]

theorem heldBy_vacate (book : Book) (place other : Place) :
    (book.vacate place).heldBy other = if other = place then none else book.heldBy other := by
  cases place <;> cases other <;>
    simp [vacate, heldBy, Ordered.get?_erase, slotKey_inj]

theorem heldBy_occupy (book : Book) (start : Nat) (place other : Place) :
    (book.occupy start place).heldBy other =
      if other = place then some start else book.heldBy other := by
  cases place <;> cases other <;>
    simp [occupy, heldBy, Ordered.get?_insert, slotKey_inj]

@[simp] theorem open_vacate (book : Book) (place : Place) :
    (book.vacate place).open_ = book.open_ := by cases place <;> rfl

@[simp] theorem closed_vacate (book : Book) (place : Place) :
    (book.vacate place).closed = book.closed := by cases place <;> rfl

@[simp] theorem open_occupy (book : Book) (start : Nat) (place : Place) :
    (book.occupy start place).open_ = book.open_ := by cases place <;> rfl

@[simp] theorem closed_occupy (book : Book) (start : Nat) (place : Place) :
    (book.occupy start place).closed = book.closed := by cases place <;> rfl

/-- The waits a book holds are the same: what is closed, what is open and in which place. -/
structure SameWaits (first second : Book) : Prop where
  closed : first.closed = second.closed
  open_ : first.open_ = second.open_
  heldBy : ∀ place, first.heldBy place = second.heldBy place

theorem name_same (book : Book) (event : RunEvent) : SameWaits (book.name event) book := by
  unfold name
  split
  · split
    · exact ⟨rfl, rfl, fun place => by cases place <;> rfl⟩
    · exact ⟨rfl, rfl, fun _ => rfl⟩
  · exact ⟨rfl, rfl, fun _ => rfl⟩

theorem addLanding_same (book : Book) (event : RunEvent) :
    SameWaits (book.addLanding event) book := by
  unfold addLanding
  dsimp only
  cases holdEnd .landings (book.landingHold.map fun start =>
      (book.landings.get? start).bind fun row => row.1.supervisor) event with
  | none => exact ⟨rfl, rfl, fun _ => rfl⟩
  | some why =>
    dsimp only
    split
    · exact ⟨rfl, rfl, fun place => by cases place <;> rfl⟩
    · exact ⟨rfl, rfl, fun place => by cases place <;> rfl⟩

/-! ### One turn for each event -/

/-- What an event does among the waits: its kind tells in which sort of place. -/
def turn (book : Book) (event : RunEvent) : Option Turn :=
  match event.kind with
  | .slotsFullStarted | .slotsFullEnded => book.slotsTurn event
  | .claimHeld | .claimResumed | .supervisorStopped => book.holdTurn event
  | _ => deferralTurn event

theorem slotsTurn_of_kind {book : Book} {event : RunEvent}
    (notStarted : event.kind ≠ .slotsFullStarted) (notEnded : event.kind ≠ .slotsFullEnded) :
    book.slotsTurn event = none := by
  have unnamed : slotsFullOf event = none := by
    rw [slotsFullOf, if_neg (by tauto)]
  rw [slotsTurn, unnamed]

theorem holdTurn_of_kind {book : Book} {event : RunEvent} (notHeld : event.kind ≠ .claimHeld)
    (notResumed : event.kind ≠ .claimResumed) (notStopped : event.kind ≠ .supervisorStopped) :
    book.holdTurn event = none := by
  have keeps : ∀ opener, holdEnd .claims opener event = none := by
    intro opener
    simp [holdEnd, HoldKinds.claims, notHeld, notResumed, notStopped]
  simp only [holdTurn, keeps]

theorem deferralTurn_of_kind {event : RunEvent} (notDeferred : event.kind ≠ .claimDeferred)
    (notEnded : event.kind ≠ .claimDeferralEnded) (notClaimed : event.kind ≠ .runClaimed) :
    deferralTurn event = none := by
  have keeps : deferralEnd event = none := by
    unfold deferralEnd
    split
    · rfl
    · split <;> first | contradiction | rfl
  rw [deferralTurn, keeps]

theorem take_none (book : Book) (event : RunEvent) : book.take event none = book := rfl

/-- At most one of the three sorts of turn is the event's, whatever the book. -/
theorem turn_cases (event : RunEvent) :
    ((∀ book : Book, book.turn event = book.slotsTurn event ∧ book.holdTurn event = none) ∧
        deferralTurn event = none) ∨
      ((∀ book : Book, book.turn event = book.holdTurn event ∧ book.slotsTurn event = none) ∧
        deferralTurn event = none) ∨
      ∀ book : Book, book.turn event = deferralTurn event ∧ book.slotsTurn event = none ∧
        book.holdTurn event = none := by
  unfold Book.turn
  cases kind : event.kind
  case slotsFullStarted | slotsFullEnded =>
    exact Or.inl ⟨fun book => ⟨rfl,
      holdTurn_of_kind (by simp [kind]) (by simp [kind]) (by simp [kind])⟩,
      deferralTurn_of_kind (by simp [kind]) (by simp [kind]) (by simp [kind])⟩
  case claimHeld | claimResumed | supervisorStopped =>
    exact Or.inr (Or.inl ⟨fun book => ⟨rfl, slotsTurn_of_kind (by simp [kind]) (by simp [kind])⟩,
      deferralTurn_of_kind (by simp [kind]) (by simp [kind]) (by simp [kind])⟩)
  all_goals
    exact Or.inr (Or.inr fun book => ⟨rfl, slotsTurn_of_kind (by simp [kind]) (by simp [kind]),
      holdTurn_of_kind (by simp [kind]) (by simp [kind]) (by simp [kind])⟩)

/-- An event takes its one turn among the waits. -/
theorem add_eq (book : Book) (event : RunEvent) :
    book.add event =
      (((book.wake event).take event ((book.wake event).turn event)).name event).addLanding
        event := by
  unfold add
  dsimp only
  rcases turn_cases event with ⟨slots, noDeferral⟩ | ⟨hold, noDeferral⟩ | deferral
  · rw [(slots (book.wake event)).1, (slots _).2, take_none, noDeferral, take_none]
  · rw [(hold (book.wake event)).1, (hold (book.wake event)).2, take_none, noDeferral, take_none]
  · rw [(deferral (book.wake event)).1, (deferral (book.wake event)).2.1, take_none,
      (deferral (book.wake event)).2.2, take_none]

/-- A turn that starts a wait starts one of its place, open, in the place left free. -/
structure Fits (book : Book) (event : RunEvent) (turn : Turn) : Prop where
  of : ∀ interval, turn.starts = some interval → interval.Of turn.place
  id : ∀ interval, turn.starts = some interval → interval.id = event.id
  open_ : ∀ interval, turn.starts = some interval → interval.unend = interval
  free : turn.starts ≠ none → turn.ends = none → book.heldBy turn.place = none

theorem slotsTurn_fits {book : Book} {event : RunEvent} {turn : Turn}
    (taken : book.slotsTurn event = some turn) : Fits book event turn := by
  unfold slotsTurn at taken
  split at taken
  · cases taken
  · rename_i supervisor slotClass _
    split at taken
    · split at taken
      · cases taken
      · rename_i free
        rw [← Option.some.inj taken]
        refine ⟨?_, ?_, ?_, fun _ _ => free⟩
        all_goals
          intro interval starts
          rw [← Option.some.inj starts]
        · exact ⟨rfl, rfl, rfl⟩
        · rfl
        · rfl
    · rw [← Option.some.inj taken]
      refine ⟨?_, ?_, ?_, fun starts => absurd rfl starts⟩
      all_goals
        intro interval starts
        cases starts

theorem holdTurn_fits {book : Book} {event : RunEvent} {turn : Turn}
    (taken : book.holdTurn event = some turn) : Fits book event turn := by
  unfold holdTurn at taken
  dsimp only at taken
  split at taken
  · cases taken
  · rw [← Option.some.inj taken]
    refine ⟨?_, ?_, ?_, fun _ ends => by cases ends⟩
    all_goals
      intro interval starts
      dsimp only at starts
      split at starts
      · rw [← Option.some.inj starts]
        rfl
      · cases starts

theorem deferralTurn_fits {book : Book} {event : RunEvent} {turn : Turn}
    (taken : deferralTurn event = some turn) : Fits book event turn := by
  unfold deferralTurn at taken
  split at taken
  · cases taken
  · rename_i task why ends
    rw [← Option.some.inj taken]
    refine ⟨?_, ?_, ?_, fun _ ends => by cases ends⟩
    all_goals
      intro interval starts
      dsimp only at starts
      split at starts
      · rw [← Option.some.inj starts]
        first
          | exact ⟨rfl, deferralEnd_task ends⟩
          | rfl
      · cases starts

theorem turn_fits {book : Book} {event : RunEvent} {turn : Turn}
    (taken : book.turn event = some turn) : Fits book event turn := by
  rcases turn_cases event with ⟨slots, _⟩ | ⟨hold, _⟩ | deferral
  · exact slotsTurn_fits ((slots book).1.symm.trans taken)
  · exact holdTurn_fits ((hold book).1.symm.trans taken)
  · exact deferralTurn_fits ((deferral book).1.symm.trans taken)

theorem slotsTurn_place {book : Book} {event : RunEvent} {turn : Turn}
    (taken : book.slotsTurn event = some turn) :
    ∃ supervisor slotClass, turn.place = .slot supervisor slotClass := by
  unfold slotsTurn at taken
  split at taken
  · cases taken
  · split at taken
    · split at taken
      · cases taken
      · exact ⟨_, _, by rw [← Option.some.inj taken]⟩
    · exact ⟨_, _, by rw [← Option.some.inj taken]⟩

theorem holdTurn_place {book : Book} {event : RunEvent} {turn : Turn}
    (taken : book.holdTurn event = some turn) : turn.place = .hold := by
  unfold holdTurn at taken
  dsimp only at taken
  split at taken
  · cases taken
  · rw [← Option.some.inj taken]

theorem deferralTurn_place {event : RunEvent} {turn : Turn}
    (taken : deferralTurn event = some turn) : ∃ task, turn.place = .deferral task := by
  unfold deferralTurn at taken
  split at taken
  · cases taken
  · exact ⟨_, by rw [← Option.some.inj taken]⟩

/-! ### What a book that read events holds -/

/-- Every wait is held by its id, all below `upto`, an open one in the place it is of and no
other, and a closed one with the event that ended it. -/
structure Held (book : Book) (upto : Nat) : Prop where
  openId : ∀ id interval, book.open_.get? id = some interval → interval.id = id ∧ id < upto
  closedId : ∀ id row, book.closed.get? id = some row → row.1.id = id ∧ id < upto
  apart : ∀ id interval, book.open_.get? id = some interval → book.closed.get? id = none
  ended : ∀ id row, book.closed.get? id = some row → row.2 ≠ none
  filed : ∀ id row, book.closed.get? id = some row → ∃ place, row.1.Of place
  unended : ∀ id interval, book.open_.get? id = some interval → interval.unend = interval
  placed : ∀ id interval, book.open_.get? id = some interval → ∃ place, interval.Of place
  held : ∀ place id, book.heldBy place = some id ↔
    ∃ interval, book.open_.get? id = some interval ∧ interval.Of place

theorem Held.mono {book : Book} {upto more : Nat} (holds : Held book upto) (later : upto ≤ more) :
    Held book more where
  openId id interval found := ⟨(holds.openId id interval found).1,
    (holds.openId id interval found).2.trans_le later⟩
  closedId id row found := ⟨(holds.closedId id row found).1,
    (holds.closedId id row found).2.trans_le later⟩
  apart := holds.apart
  ended := holds.ended
  filed := holds.filed
  unended := holds.unended
  placed := holds.placed
  held := holds.held

theorem Held.of_same {first second : Book} {upto : Nat} (same : SameWaits first second)
    (holds : Held second upto) : Held first upto where
  openId := by rw [same.open_]; exact holds.openId
  closedId := by rw [same.closed]; exact holds.closedId
  apart := by rw [same.open_, same.closed]; exact holds.apart
  ended := by rw [same.closed]; exact holds.ended
  filed := by rw [same.closed]; exact holds.filed
  unended := by rw [same.open_]; exact holds.unended
  placed := by rw [same.open_]; exact holds.placed
  held place id := by rw [same.heldBy, same.open_]; exact holds.held place id

/-- An interval is of one place. -/
theorem place_unique {interval : PreClaimInterval} {first second : Place}
    (ofFirst : interval.Of first) (ofSecond : interval.Of second) : first = second := by
  cases first <;> cases second <;> simp_all [PreClaimInterval.Of]

theorem close_of_some {book : Book} {start : Nat} {interval : PreClaimInterval}
    (found : book.open_.get? start = some interval) (event : RunEvent) (why : String)
    (by_ : Option String) :
    book.close start event why by_ =
      { book with
        open_ := book.open_.erase start
        closed := book.closed.insert start (interval.endBy event why by_, some event.id) } := by
  rw [close, found]

/-- The end of a wait: it goes from its place and from the open ones to the closed ones. -/
theorem endWait_of_some {book : Book} {place : Place} {start : Nat} {interval : PreClaimInterval}
    (held : book.heldBy place = some start) (found : book.open_.get? start = some interval)
    (event : RunEvent) (why : String) (by_ : Option String) :
    book.endWait place event why by_ =
      { book.vacate place with
        open_ := book.open_.erase start
        closed := book.closed.insert start (interval.endBy event why by_, some event.id) } := by
  rw [endWait, held]
  dsimp only
  rw [close_of_some (by rw [open_vacate]; exact found), open_vacate, closed_vacate]

theorem endWait_waits {book : Book} {place : Place} {start : Nat} {interval : PreClaimInterval}
    (held : book.heldBy place = some start) (found : book.open_.get? start = some interval)
    (event : RunEvent) (why : String) (by_ : Option String) :
    (book.endWait place event why by_).open_ = book.open_.erase start ∧
      (book.endWait place event why by_).closed =
        book.closed.insert start (interval.endBy event why by_, some event.id) := by
  rw [endWait_of_some held found]
  exact ⟨rfl, rfl⟩

theorem endWait_of_none {book : Book} {place : Place} (free : book.heldBy place = none)
    (event : RunEvent) (why : String) (by_ : Option String) :
    book.endWait place event why by_ = book := by
  rw [endWait, free]

theorem Held.endWait {book : Book} {upto : Nat} (holds : Held book upto) (place : Place)
    (event : RunEvent) (why : String) (by_ : Option String) :
    Held (book.endWait place event why by_) upto ∧
      (book.endWait place event why by_).heldBy place = none := by
  cases free : book.heldBy place with
  | none =>
    rw [endWait_of_none free]
    exact ⟨holds, free⟩
  | some start =>
    obtain ⟨interval, found, ofPlace⟩ := (holds.held place start).mp free
    obtain ⟨startId, startOld⟩ := holds.openId start interval found
    rw [endWait_of_some free found]
    have places : ∀ other, Book.heldBy
        { book.vacate place with
          open_ := book.open_.erase start
          closed := book.closed.insert start (interval.endBy event why by_, some event.id) }
        other = (book.vacate place).heldBy other := by
      intro other
      cases other <;> rfl
    have stays : ∀ {id held}, (book.open_.erase start).get? id = some held →
        id ≠ start ∧ book.open_.get? id = some held := by
      intro id held inside
      rw [Ordered.get?_erase] at inside
      split at inside
      · cases inside
      · rename_i different
        exact ⟨different, inside⟩
    have rows : ∀ {id row},
        (book.closed.insert start (interval.endBy event why by_, some event.id)).get? id = some row →
        (id = start ∧ row = (interval.endBy event why by_, some event.id)) ∨
          book.closed.get? id = some row := by
      intro id row inside
      rw [Ordered.get?_insert] at inside
      split at inside
      · rename_i same
        exact Or.inl ⟨same, (Option.some.inj inside).symm⟩
      · exact Or.inr inside
    refine ⟨⟨fun id held inside => holds.openId id held (stays inside).2, fun id row inside => ?_,
      fun id held inside => ?_, fun id row inside => ?_, fun id row inside => ?_,
      fun id held inside => holds.unended id held (stays inside).2,
      fun id held inside => holds.placed id held (stays inside).2, fun other id => ?_⟩, ?_⟩
    · rcases rows inside with ⟨same, row_eq⟩ | before
      · rw [row_eq, same]
        exact ⟨startId, startOld⟩
      · exact holds.closedId id row before
    · obtain ⟨different, before⟩ := stays inside
      show (book.closed.insert start _).get? id = none
      rw [Ordered.get?_insert_of_ne _ _ different]
      exact holds.apart id held before
    · rcases rows inside with ⟨_, row_eq⟩ | before
      · rw [row_eq]
        exact Option.some_ne_none _
      · exact holds.ended id row before
    · rcases rows inside with ⟨_, row_eq⟩ | before
      · rw [row_eq]
        exact ⟨place, by cases place <;> exact ofPlace⟩
      · exact holds.filed id row before
    · rw [places, heldBy_vacate]
      by_cases same : other = place
      · rw [if_pos same, same]
        refine ⟨fun absent => (by cases absent), ?_⟩
        rintro ⟨held, inside, ofOther⟩
        obtain ⟨different, before⟩ := stays inside
        have again := (holds.held place id).mpr ⟨held, before, ofOther⟩
        rw [free] at again
        exact absurd (Option.some.inj again).symm different
      · rw [if_neg same, holds.held]
        constructor
        · rintro ⟨held, before, ofOther⟩
          have different : id ≠ start := by
            intro equal
            rw [equal, found] at before
            rw [← Option.some.inj before] at ofOther
            exact same (place_unique ofOther ofPlace)
          exact ⟨held, (Ordered.get?_erase_of_ne _ different).trans before, ofOther⟩
        · rintro ⟨held, inside, ofOther⟩
          exact ⟨held, (stays inside).2, ofOther⟩
    · rw [places, heldBy_vacate, if_pos rfl]

theorem Held.startWait {book : Book} {upto : Nat} (holds : Held book upto) {place : Place}
    {event : RunEvent} {interval : PreClaimInterval} (fresh : upto ≤ event.id)
    (free : book.heldBy place = none) (ofPlace : interval.Of place) (named : interval.id = event.id)
    (isOpen : interval.unend = interval) :
    Held (book.startWait place event interval) (event.id + 1) := by
  have opened : (book.startWait place event interval).open_ =
      book.open_.insert event.id interval := by
    rw [Book.startWait, open_occupy]
  have closed : (book.startWait place event interval).closed = book.closed := by
    rw [Book.startWait, closed_occupy]
  have places : ∀ other, (book.startWait place event interval).heldBy other =
      if other = place then some event.id else book.heldBy other := by
    intro other
    rw [Book.startWait, heldBy_occupy]
    cases other <;> rfl
  have cases_ : ∀ {id held}, (book.startWait place event interval).open_.get? id = some held →
      (id = event.id ∧ held = interval) ∨ (id ≠ event.id ∧ book.open_.get? id = some held) := by
    intro id held inside
    rw [opened, Ordered.get?_insert] at inside
    split at inside
    · rename_i same
      exact Or.inl ⟨same, (Option.some.inj inside).symm⟩
    · rename_i different
      exact Or.inr ⟨different, inside⟩
  have old : ∀ {id held}, book.open_.get? id = some held → id ≠ event.id := fun found same =>
    absurd (holds.openId _ _ found).2 (by rw [same]; exact not_lt.mpr fresh)
  refine ⟨fun id held inside => ?_, fun id row inside => ?_, fun id held inside => ?_,
    fun id row inside => holds.ended id row (closed ▸ inside),
    fun id row inside => holds.filed id row (closed ▸ inside), fun id held inside => ?_,
    fun id held inside => ?_, fun other id => ?_⟩
  · rcases cases_ inside with ⟨same, equal⟩ | ⟨_, before⟩
    · rw [equal, same]
      exact ⟨named, Nat.lt_succ_self _⟩
    · obtain ⟨heldId, bound⟩ := holds.openId id held before
      exact ⟨heldId, (bound.trans_le fresh).trans (Nat.lt_succ_self _)⟩
  · rw [closed] at inside
    obtain ⟨rowId, bound⟩ := holds.closedId id row inside
    exact ⟨rowId, (bound.trans_le fresh).trans (Nat.lt_succ_self _)⟩
  · rw [closed]
    rcases cases_ inside with ⟨same, _⟩ | ⟨_, before⟩
    · cases found : book.closed.get? id with
      | none => rfl
      | some row =>
        have bound := (holds.closedId id row found).2
        omega
    · exact holds.apart id held before
  · rcases cases_ inside with ⟨_, equal⟩ | ⟨_, before⟩
    · rw [equal]
      exact isOpen
    · exact holds.unended id held before
  · rcases cases_ inside with ⟨_, equal⟩ | ⟨_, before⟩
    · rw [equal]
      exact ⟨place, ofPlace⟩
    · exact holds.placed id held before
  · rw [places, opened]
    by_cases same : other = place
    · rw [if_pos same, same]
      constructor
      · intro equal
        rw [← Option.some.inj equal, Ordered.get?_insert_self]
        exact ⟨interval, rfl, ofPlace⟩
      · rintro ⟨held, inside, ofOther⟩
        rcases cases_ (by rw [opened]; exact inside) with ⟨equal, _⟩ | ⟨_, before⟩
        · rw [equal]
        · have before := (holds.held place id).mpr ⟨held, before, ofOther⟩
          rw [free] at before
          cases before
    · rw [if_neg same, holds.held]
      constructor
      · rintro ⟨held, before, ofOther⟩
        exact ⟨held, (Ordered.get?_insert_of_ne _ _ (old before)).trans before, ofOther⟩
      · rintro ⟨held, inside, ofOther⟩
        rcases cases_ (by rw [opened]; exact inside) with ⟨_, equal⟩ | ⟨_, before⟩
        · rw [equal] at ofOther
          exact absurd (place_unique ofOther ofPlace) same
        · exact ⟨held, before, ofOther⟩

/-- A turn that fits keeps what the book holds. -/
theorem Held.take {book : Book} {upto : Nat} (holds : Held book upto) {event : RunEvent}
    (fresh : upto ≤ event.id) {turn : Option Turn} (fits : ∀ one, turn = some one → Fits book event one) :
    Held (book.take event turn) (event.id + 1) := by
  have later : upto ≤ event.id + 1 := fresh.trans (Nat.le_succ _)
  cases turn with
  | none => exact holds.mono later
  | some turn =>
    have fit := fits turn rfl
    have ended : Held (book.endTurn event turn) upto ∧
        (turn.starts ≠ none → (book.endTurn event turn).heldBy turn.place = none) := by
      unfold endTurn
      cases ends : turn.ends with
      | none => exact ⟨holds, fun starts => fit.free starts ends⟩
      | some why =>
        obtain ⟨still, free⟩ := holds.endWait turn.place event why.1 why.2
        exact ⟨still, fun _ => free⟩
    show Held ((book.endTurn event turn).startTurn event turn) (event.id + 1)
    unfold startTurn
    cases starts : turn.starts with
    | none => exact ended.1.mono later
    | some interval =>
      exact ended.1.startWait fresh (ended.2 (by rw [starts]; exact Option.some_ne_none _))
        (fit.of interval starts) (fit.id interval starts) (fit.open_ interval starts)

/-! ### An event naming a supervisor -/

theorem reachClass_heldBy (book : Book) (supervisor : String) (id : Nat) (slotClass : SlotClass)
    (place : Place) :
    (book.reachClass supervisor id slotClass).heldBy place = book.heldBy place := by
  unfold reachClass
  split
  · rfl
  · split
    · cases place <;> rfl
    · rfl

/-- A reach changes the open wait of its class alone, and nothing but its reach. -/
theorem reachClass_spec (book : Book) (supervisor : String) (id : Nat) (slotClass : SlotClass) :
    (book.reachClass supervisor id slotClass).closed = book.closed ∧
      ∀ start, (book.reachClass supervisor id slotClass).open_.get? start =
        if book.heldBy (.slot supervisor slotClass) = some start then
          (book.open_.get? start).map fun interval => { interval with reach := id }
        else book.open_.get? start := by
  unfold reachClass
  cases held : book.slots.get? (slotKey supervisor slotClass) with
  | none =>
    have free : book.heldBy (.slot supervisor slotClass) = none := held
    refine ⟨rfl, fun start => ?_⟩
    rw [free, if_neg (Option.some_ne_none start).symm]
  | some start =>
    have place : book.heldBy (.slot supervisor slotClass) = some start := held
    dsimp only
    cases found : book.open_.get? start with
    | none =>
      refine ⟨rfl, fun other => ?_⟩
      rw [place]
      by_cases same : other = start
      · rw [same, if_pos rfl, found]
        rfl
      · rw [if_neg fun equal => same (Option.some.inj equal).symm]
    | some interval =>
      refine ⟨rfl, fun other => ?_⟩
      dsimp only
      rw [Ordered.get?_insert, place]
      by_cases same : other = start
      · rw [same, if_pos rfl, if_pos rfl, found]
        rfl
      · rw [if_neg same, if_neg fun equal => same (Option.some.inj equal).symm]

theorem Held.reachClass {book : Book} {upto : Nat} (holds : Held book upto) (supervisor : String)
    (id : Nat) (slotClass : SlotClass) : Held (book.reachClass supervisor id slotClass) upto := by
  obtain ⟨closed, opened⟩ := reachClass_spec book supervisor id slotClass
  have before : ∀ {start held},
      (book.reachClass supervisor id slotClass).open_.get? start = some held →
      ∃ interval, book.open_.get? start = some interval ∧
        (held = interval ∨ held = { interval with reach := id }) := by
    intro start held inside
    rw [opened] at inside
    split at inside
    · obtain ⟨interval, found, equal⟩ := Option.map_eq_some_iff.mp inside
      exact ⟨interval, found, Or.inr equal.symm⟩
    · exact ⟨held, inside, Or.inl rfl⟩
  refine ⟨fun start held inside => ?_, closed ▸ holds.closedId, fun start held inside => ?_,
    closed ▸ holds.ended, closed ▸ holds.filed, fun start held inside => ?_,
    fun start held inside => ?_,
    fun place start => ?_⟩
  · obtain ⟨interval, found, rfl | rfl⟩ := before inside
    · exact holds.openId start held found
    · exact holds.openId start interval found
  · obtain ⟨interval, found, _⟩ := before inside
    rw [closed]
    exact holds.apart start interval found
  · obtain ⟨interval, found, rfl | rfl⟩ := before inside
    · exact holds.unended start held found
    · have same := holds.unended start interval found
      show { interval.unend with reach := id } = { interval with reach := id }
      rw [same]
  · obtain ⟨interval, found, rfl | rfl⟩ := before inside
    · exact holds.placed start held found
    · obtain ⟨place, ofPlace⟩ := holds.placed start interval found
      exact ⟨place, by cases place <;> exact ofPlace⟩
  · rw [reachClass_heldBy, holds.held]
    constructor
    · rintro ⟨interval, found, ofPlace⟩
      rw [opened]
      split
      · rw [found]
        exact ⟨_, rfl, by cases place <;> exact ofPlace⟩
      · exact ⟨interval, found, ofPlace⟩
    · rintro ⟨held, inside, ofPlace⟩
      obtain ⟨interval, found, rfl | rfl⟩ := before inside
      · exact ⟨held, found, ofPlace⟩
      · exact ⟨interval, found, by cases place <;> exact ofPlace⟩

/-- A book without a wait closed by a life has nothing to open again. -/
theorem Held.reopenClass {book : Book} {upto : Nat} (holds : Held book upto) (supervisor : String)
    (slotClass : SlotClass) : book.reopenClass supervisor slotClass = book := by
  unfold Book.reopenClass
  split
  · rfl
  · split
    · rename_i closed
      exact absurd rfl (holds.ended _ _ closed)
    · rfl

theorem Held.reopen {book : Book} {upto : Nat} (holds : Held book upto) (supervisor : String) :
    book.reopen supervisor = book := by
  rw [Book.reopen, holds.reopenClass, holds.reopenClass]

theorem Held.wake {book : Book} {upto : Nat} (holds : Held book upto) (event : RunEvent) :
    Held (book.wake event) upto := by
  unfold Book.wake
  split
  · rename_i supervisor _
    rw [holds.reopen]
    exact (holds.reachClass supervisor event.id .heavy).reachClass supervisor event.id .light
  · exact holds

theorem Held.add {book : Book} {upto : Nat} (holds : Held book upto) {event : RunEvent}
    (fresh : upto ≤ event.id) : Held (book.add event) (event.id + 1) := by
  rw [add_eq]
  have taken := (holds.wake event).take fresh fun turn taken => turn_fits taken
  exact (taken.of_same (name_same _ event)).of_same (addLanding_same _ event)

/-! ### The holds on the landings stand apart -/

/-- The holds on the landings that two books keep are the same. -/
structure SameLandings (first second : Book) : Prop where
  landings : first.landings = second.landings
  landingHold : first.landingHold = second.landingHold

theorem SameLandings.trans {first second third : Book} (one : SameLandings first second)
    (two : SameLandings second third) : SameLandings first third :=
  ⟨one.landings.trans two.landings, one.landingHold.trans two.landingHold⟩

theorem SameLandings.symm {first second : Book} (same : SameLandings first second) :
    SameLandings second first :=
  ⟨same.landings.symm, same.landingHold.symm⟩

theorem vacate_landings (book : Book) (place : Place) : SameLandings (book.vacate place) book := by
  cases place <;> exact ⟨rfl, rfl⟩

theorem occupy_landings (book : Book) (start : Nat) (place : Place) :
    SameLandings (book.occupy start place) book := by
  cases place <;> exact ⟨rfl, rfl⟩

theorem endWait_landings (book : Book) (place : Place) (event : RunEvent) (why : String)
    (by_ : Option String) : SameLandings (book.endWait place event why by_) book := by
  unfold endWait
  split
  · have vacated := vacate_landings book place
    unfold close
    split
    · exact ⟨vacated.landings, vacated.landingHold⟩
    · exact vacated
  · exact ⟨rfl, rfl⟩

theorem take_landings (book : Book) (event : RunEvent) (turn : Option Turn) :
    SameLandings (book.take event turn) book := by
  cases turn with
  | none => exact ⟨rfl, rfl⟩
  | some turn =>
    have ended : SameLandings (book.endTurn event turn) book := by
      unfold endTurn
      split
      · exact endWait_landings _ _ _ _ _
      · exact ⟨rfl, rfl⟩
    have started : SameLandings ((book.endTurn event turn).startTurn event turn)
        (book.endTurn event turn) := by
      unfold startTurn
      split
      · exact (occupy_landings _ _ _).trans ⟨rfl, rfl⟩
      · exact ⟨rfl, rfl⟩
    exact started.trans ended

theorem reopenClass_landings (book : Book) (supervisor : String) (slotClass : SlotClass) :
    SameLandings (book.reopenClass supervisor slotClass) book := by
  unfold reopenClass
  split
  · exact ⟨rfl, rfl⟩
  · split <;> exact ⟨rfl, rfl⟩

theorem reachClass_landings (book : Book) (supervisor : String) (id : Nat)
    (slotClass : SlotClass) : SameLandings (book.reachClass supervisor id slotClass) book := by
  unfold reachClass
  split
  · exact ⟨rfl, rfl⟩
  · split <;> exact ⟨rfl, rfl⟩

theorem wake_landings (book : Book) (event : RunEvent) : SameLandings (book.wake event) book := by
  unfold wake
  split
  · exact (((reachClass_landings _ _ _ _).trans (reachClass_landings _ _ _ _)).trans
      (reopenClass_landings _ _ _)).trans (reopenClass_landings _ _ _)
  · exact ⟨rfl, rfl⟩

theorem name_landings (book : Book) (event : RunEvent) : SameLandings (book.name event) book := by
  unfold name
  split
  · split <;> exact ⟨rfl, rfl⟩
  · exact ⟨rfl, rfl⟩

theorem endLanding_same {first second : Book} (same : SameLandings first second)
    (event : RunEvent) (why : String) :
    first.endLanding event why = second.endLanding event why := by
  rw [endLanding, endLanding, same.landings, same.landingHold]

theorem addLanding_landings {first second : Book} (same : SameLandings first second)
    (event : RunEvent) : SameLandings (first.addLanding event) (second.addLanding event) := by
  have ended := endLanding_same same event
  refine ⟨?_, ?_⟩
  all_goals
    unfold addLanding
    dsimp only
    rw [same.landings, same.landingHold]
    split
    · first | exact same.landings | exact same.landingHold
    · split <;> simp only [ended]

/-- An event reaches the holds on the landings with the rest of its record read. -/
theorem add_landings (book : Book) (event : RunEvent) :
    SameLandings (book.add event) (book.addLanding event) := by
  rw [add_eq]
  exact addLanding_landings (((name_landings _ event).trans (take_landings _ _ _)).trans
    (wake_landings book event)) event

theorem held_empty : Held {} 0 where
  openId _ _ found := by cases found
  closedId _ _ found := by cases found
  apart _ _ found := by cases found
  ended _ _ found := by cases found
  filed _ _ found := by cases found
  unended _ _ found := by cases found
  placed _ _ found := by cases found
  held place id := by
    constructor
    · intro found
      cases place <;> cases found
    · rintro ⟨interval, found, _⟩
      cases found

end Book

end Dagq.PreClaim
