/-
This file shows that closing the lives of the supervisors where the waits are
kept changes nothing that is read: whatever the order of the events and the
closes, and whatever the times of the closes, the book gives the intervals that
reading all events at once gives.

A book that closed lives follows the one that only read the events: each wait is
kept the same in both, or it is one of slots full that is open there and ended
here with the life of its supervisor, which no event named since.
-/

import Dagq.PreClaim.Held

namespace Dagq.PreClaim

open Dagq.Lib Dagq.Ledger

namespace Book

/-! ### A book that closed lives -/

/-- A wait kept the same in both books. -/
def KeptAlike (book batch : Book) (id : Nat) : Prop :=
  book.open_.get? id = batch.open_.get? id ∧ book.closed.get? id = batch.closed.get? id

/-- A wait of slots full that is open in `batch` and ended in `book` with its supervisor's life. -/
structure LifeClosed (lives : Lives) (book batch : Book) (id : Nat) (interval : PreClaimInterval)
    (supervisor : String) (slotClass : SlotClass) (life : LifeEnd) (time : Int) : Prop where
  isOpen : batch.open_.get? id = some interval
  of : interval.Of (.slot supervisor slotClass)
  ends : lives.endAt supervisor time = some life
  reached : time ≤ book.closedTo
  notOpen : book.open_.get? id = none
  closed : book.closed.get? id = some (interval.endWithLife life, none)

structure Follows (lives : Lives) (book batch : Book) : Prop where
  heldBy : ∀ place, book.heldBy place = batch.heldBy place
  landings : SameLandings book batch
  waits : ∀ id, KeptAlike book batch id ∨
    ∃ interval supervisor slotClass life time,
      LifeClosed lives book batch id interval supervisor slotClass life time

section Follows

variable {lives : Lives} {book batch : Book} {upto : Nat}

/-- A change of one wait keeps the one book following the other, where the wait is kept alike
after it or its life closed it. -/
theorem Follows.change (follows : Follows lives book batch) {nextBook nextBatch : Book}
    (heldBy : ∀ place, nextBook.heldBy place = nextBatch.heldBy place)
    (landings : SameLandings nextBook nextBatch) (reached : book.closedTo ≤ nextBook.closedTo)
    (start : Nat) (here : KeptAlike nextBook nextBatch start ∨
      ∃ interval supervisor slotClass life time,
        LifeClosed lives nextBook nextBatch start interval supervisor slotClass life time)
    (bookOther : ∀ id, id ≠ start → KeptAlike nextBook book id)
    (batchOther : ∀ id, id ≠ start → KeptAlike nextBatch batch id) :
    Follows lives nextBook nextBatch where
  heldBy := heldBy
  landings := landings
  waits id := by
    by_cases same : id = start
    · rw [same]
      exact here
    · obtain ⟨bookOpen, bookClosed⟩ := bookOther id same
      obtain ⟨batchOpen, batchClosed⟩ := batchOther id same
      rcases follows.waits id with ⟨sameOpen, sameClosed⟩ |
        ⟨interval, supervisor, slotClass, life, time, closed⟩
      · exact Or.inl ⟨bookOpen.trans (sameOpen.trans batchOpen.symm),
          bookClosed.trans (sameClosed.trans batchClosed.symm)⟩
      · exact Or.inr ⟨interval, supervisor, slotClass, life, time,
          batchOpen.trans closed.isOpen, closed.of, closed.ends, closed.reached.trans reached,
          bookOpen.trans closed.notOpen, bookClosed.trans closed.closed⟩

/-- What is open in a place is kept alike, or its life closed it. -/
theorem Follows.atPlace (follows : Follows lives book batch) (holds : Held batch upto)
    {place : Place} {start : Nat} (held : batch.heldBy place = some start) :
    KeptAlike book batch start ∨ ∃ interval supervisor slotClass life time,
      place = .slot supervisor slotClass ∧
        LifeClosed lives book batch start interval supervisor slotClass life time := by
  obtain ⟨interval, found, ofPlace⟩ := (holds.held place start).mp held
  rcases follows.waits start with alike | ⟨other, supervisor, slotClass, life, time, closed⟩
  · exact Or.inl alike
  · have same := closed.isOpen.symm.trans found
    rw [Option.some.inj same] at closed
    exact Or.inr ⟨interval, supervisor, slotClass, life, time,
      place_unique ofPlace closed.of, closed⟩

/-! ### An event naming a supervisor -/

/-- The wait of a class is kept alike in both books. -/
def ClassAlike (book batch : Book) (supervisor : String) (slotClass : SlotClass) : Prop :=
  ∀ start, batch.heldBy (.slot supervisor slotClass) = some start → KeptAlike book batch start

/-- Opening a class again brings its wait back as the events left it. -/
theorem Follows.reopenClass (follows : Follows lives book batch) (holds : Held batch upto)
    (supervisor : String) (slotClass : SlotClass) :
    Follows lives (book.reopenClass supervisor slotClass) batch ∧
      ClassAlike (book.reopenClass supervisor slotClass) batch supervisor slotClass ∧
      ∀ id, KeptAlike book batch id → KeptAlike (book.reopenClass supervisor slotClass) batch id := by
  have place := follows.heldBy (.slot supervisor slotClass)
  unfold Book.reopenClass ClassAlike
  rw [← place]
  show _ ∧ (∀ start, book.slots.get? (slotKey supervisor slotClass) = some start → _) ∧ _
  cases held : book.slots.get? (slotKey supervisor slotClass) with
  | none => exact ⟨follows, fun start found => (by cases found), fun _ alike => alike⟩
  | some start =>
    have inBatch : batch.heldBy (.slot supervisor slotClass) = some start := place.symm.trans held
    obtain ⟨interval, found, ofPlace⟩ := (holds.held _ start).mp inBatch
    dsimp only
    rcases follows.atPlace holds inBatch with alike | ⟨other, _, _, life, time, _, closed⟩
    · have notClosed : book.closed.get? start = none := by
        rw [alike.2]
        exact holds.apart start interval found
      rw [notClosed]
      refine ⟨follows, fun id same => ?_, fun _ alike => alike⟩
      rw [← Option.some.inj same]
      exact alike
    · have same : other = interval := Option.some.inj (closed.isOpen.symm.trans found)
      have back : (other.endWithLife life).unend = interval := by
        rw [same]
        exact holds.unended start interval found
      rw [closed.closed]
      dsimp only
      rw [back]
      have alike : KeptAlike
          { book with
            closed := book.closed.erase start
            open_ := book.open_.insert start interval } batch start := by
        refine ⟨?_, ?_⟩
        · rw [Ordered.get?_insert_self, found]
        · rw [Ordered.get?_erase_self, holds.apart start interval found]
      have others : ∀ id, id ≠ start → KeptAlike
          { book with
            closed := book.closed.erase start
            open_ := book.open_.insert start interval } book id := fun id different =>
        ⟨Ordered.get?_insert_of_ne _ _ different, Ordered.get?_erase_of_ne _ different⟩
      refine ⟨follows.change (fun place => ?_) ⟨follows.landings.landings,
        follows.landings.landingHold⟩ le_rfl start (Or.inl alike) others fun _ _ => ⟨rfl, rfl⟩,
        fun id equal => ?_, fun id before => ?_⟩
      · rw [← follows.heldBy place]
        cases place <;> rfl
      · rw [← Option.some.inj equal]
        exact alike
      · by_cases equal : id = start
        · rw [equal]
          exact alike
        · exact ⟨(others id equal).1.trans before.1, (others id equal).2.trans before.2⟩

/-- A reach of a wait kept alike is the same in both books. -/
theorem Follows.reachClass (follows : Follows lives book batch) (supervisor : String) (id : Nat)
    (slotClass : SlotClass) (alike : ClassAlike book batch supervisor slotClass) :
    Follows lives (book.reachClass supervisor id slotClass)
        (batch.reachClass supervisor id slotClass) ∧
      ∀ start, KeptAlike book batch start → KeptAlike (book.reachClass supervisor id slotClass)
        (batch.reachClass supervisor id slotClass) start := by
  obtain ⟨bookClosed, bookOpen⟩ := reachClass_spec book supervisor id slotClass
  obtain ⟨batchClosed, batchOpen⟩ := reachClass_spec batch supervisor id slotClass
  have place := follows.heldBy (.slot supervisor slotClass)
  have keeps : ∀ start, KeptAlike book batch start → KeptAlike
      (book.reachClass supervisor id slotClass) (batch.reachClass supervisor id slotClass)
      start := by
    intro start before
    refine ⟨?_, ?_⟩
    · rw [bookOpen, batchOpen, place, before.1]
    · rw [bookClosed, batchClosed, before.2]
  refine ⟨⟨fun other => ?_, ?_, fun start => ?_⟩, keeps⟩
  · rw [reachClass_heldBy, reachClass_heldBy]
    exact follows.heldBy other
  · have reachedBook := reachClass_landings book supervisor id slotClass
    have reachedBatch := reachClass_landings batch supervisor id slotClass
    exact ⟨reachedBook.landings.trans (follows.landings.landings.trans reachedBatch.landings.symm),
      reachedBook.landingHold.trans
        (follows.landings.landingHold.trans reachedBatch.landingHold.symm)⟩
  · rcases follows.waits start with before | ⟨interval, owner, ofClass, life, time, closed⟩
    · exact Or.inl (keeps start before)
    · by_cases held : batch.heldBy (.slot supervisor slotClass) = some start
      · exact Or.inl (keeps start (alike start held))
      · have reached : (book.reachClass supervisor id slotClass).closedTo = book.closedTo := by
          unfold Book.reachClass
          split
          · rfl
          · split <;> rfl
        refine Or.inr ⟨interval, owner, ofClass, life, time, ?_, closed.of, closed.ends, ?_, ?_, ?_⟩
        · rw [batchOpen, if_neg held]
          exact closed.isOpen
        · rw [reached]
          exact closed.reached
        · rw [bookOpen, place, if_neg held]
          exact closed.notOpen
        · rw [bookClosed]
          exact closed.closed

/-- Nothing a life closed is of the supervisor an event names. -/
def Unnamed (lives : Lives) (book batch : Book) (event : RunEvent) : Prop :=
  ∀ id interval supervisor slotClass life time,
    LifeClosed lives book batch id interval supervisor slotClass life time →
      event.text "supervisor" ≠ some supervisor

/-- Once the supervisor an event names is woken, no wait of it is closed by its life. -/
theorem Follows.wake (follows : Follows lives book batch) (holds : Held batch upto)
    (event : RunEvent) :
    Follows lives (book.wake event) (batch.wake event) ∧
      Unnamed lives (book.wake event) (batch.wake event) event := by
  unfold Book.wake
  cases named : event.text "supervisor" with
  | none =>
    refine ⟨follows, fun _ _ supervisor _ _ _ _ => ?_⟩
    rw [named]
    exact (Option.some_ne_none supervisor).symm
  | some supervisor =>
    dsimp only
    rw [holds.reopen, Book.reopen]
    obtain ⟨heavy, heavyAlike, _⟩ := follows.reopenClass holds supervisor .heavy
    obtain ⟨light, lightAlike, keeps⟩ := heavy.reopenClass holds supervisor .light
    unfold Book.reachSlotsFull
    obtain ⟨reached, stillAlike⟩ := light.reachClass supervisor event.id .heavy
      fun start held => keeps start (heavyAlike start held)
    have heldBy := reachClass_heldBy batch supervisor event.id .heavy
    obtain ⟨both, allAlike⟩ := reached.reachClass supervisor event.id .light fun start held =>
      stillAlike start (lightAlike start ((heldBy _).symm.trans held))
    have after := (holds.reachClass supervisor event.id .heavy).reachClass supervisor event.id .light
    refine ⟨both, fun id interval owner slotClass life time closed names => ?_⟩
    obtain rfl := Option.some.inj (named.symm.trans names)
    have held := (after.held (.slot supervisor slotClass) id).mpr ⟨interval, closed.isOpen, closed.of⟩
    rw [reachClass_heldBy, reachClass_heldBy] at held
    have alike : KeptAlike (((book.reopenClass supervisor .heavy).reopenClass supervisor
        .light).reachClass supervisor event.id .heavy |>.reachClass supervisor event.id .light)
        ((batch.reachClass supervisor event.id .heavy).reachClass supervisor event.id .light)
        id := by
      refine allAlike id (stillAlike id ?_)
      cases slotClass with
      | heavy => exact keeps id (heavyAlike id held)
      | light => exact lightAlike id held
    have isOpen := alike.1.trans closed.isOpen
    rw [closed.notOpen] at isOpen
    cases isOpen

/-- Where no life closed a wait of the supervisor an event names, its end stays the one read. -/
theorem Follows.addLife (follows : Follows lives book batch) {event : RunEvent}
    (unnamed : Unnamed lives book batch event) :
    Follows (lives.add event) book batch ∧ Unnamed (lives.add event) book batch event := by
  have same : ∀ {supervisor}, event.text "supervisor" ≠ some supervisor → ∀ time,
      (lives.add event).endAt supervisor time = lives.endAt supervisor time := by
    intro supervisor other time
    rw [Lives.endAt, Lives.endAt, Lives.add_of_ne other]
  refine ⟨⟨follows.heldBy, follows.landings, fun id => ?_⟩, ?_⟩
  · rcases follows.waits id with alike | ⟨interval, supervisor, slotClass, life, time, closed⟩
    · exact Or.inl alike
    · exact Or.inr ⟨interval, supervisor, slotClass, life, time, closed.isOpen, closed.of,
        (same (unnamed _ _ _ _ _ _ closed) time).trans closed.ends, closed.reached, closed.notOpen,
        closed.closed⟩
  · intro id interval supervisor slotClass life time closed names
    rcases follows.waits id with alike | ⟨_, owner, _, _, _, before⟩
    · have isOpen := alike.1.trans closed.isOpen
      rw [closed.notOpen] at isOpen
      cases isOpen
    · have equal := Option.some.inj (before.isOpen.symm.trans closed.isOpen)
      have owned : owner = supervisor := by
        have one := before.of.2.1
        rw [equal] at one
        exact Option.some.inj (one.symm.trans closed.of.2.1)
      rw [← owned] at names
      exact unnamed _ _ _ _ _ _ before names

/-! ### The turn of an event -/

/-- The wait of the place of a turn is kept alike. -/
theorem Follows.placeAlike (follows : Follows lives book batch) (holds : Held batch upto)
    {event : RunEvent} (unnamed : Unnamed lives book batch event) {place : Place}
    (named : ∀ supervisor slotClass, place = .slot supervisor slotClass →
      event.text "supervisor" = some supervisor) {start : Nat}
    (held : batch.heldBy place = some start) : KeptAlike book batch start := by
  rcases follows.atPlace holds held with alike | ⟨_, supervisor, slotClass, _, _, slot, closed⟩
  · exact alike
  · exact absurd (named supervisor slotClass slot) (unnamed _ _ _ _ _ _ closed)

theorem Follows.endWait (follows : Follows lives book batch) (holds : Held batch upto)
    (place : Place) (event : RunEvent) (why : String) (by_ : Option String)
    (alike : ∀ start, batch.heldBy place = some start → KeptAlike book batch start) :
    Follows lives (book.endWait place event why by_) (batch.endWait place event why by_) := by
  have bookPlace := follows.heldBy place
  cases held : batch.heldBy place with
  | none =>
    rw [endWait_of_none held, endWait_of_none (bookPlace.trans held)]
    exact follows
  | some start =>
    obtain ⟨interval, found, _⟩ := (holds.held place start).mp held
    have keeps := alike start held
    have places : ∀ other, (book.endWait place event why by_).heldBy other =
        (batch.endWait place event why by_).heldBy other := by
      intro other
      have vacated : (book.vacate place).heldBy other = (batch.vacate place).heldBy other := by
        rw [heldBy_vacate, heldBy_vacate, follows.heldBy]
      rw [endWait_of_some (bookPlace.trans held) (keeps.1.trans found),
        endWait_of_some held found]
      cases other <;> exact vacated
    have landed := endWait_landings book place event why by_
    have landedBatch := endWait_landings batch place event why by_
    have reached : (book.endWait place event why by_).closedTo = book.closedTo := by
      rw [endWait_of_some (bookPlace.trans held) (keeps.1.trans found)]
      cases place <;> rfl
    obtain ⟨bookOpen, bookClosed⟩ :=
      endWait_waits (bookPlace.trans held) (keeps.1.trans found) event why by_
    obtain ⟨batchOpen, batchClosed⟩ := endWait_waits held found event why by_
    refine follows.change places
      ⟨landed.landings.trans (follows.landings.landings.trans landedBatch.landings.symm),
        landed.landingHold.trans (follows.landings.landingHold.trans landedBatch.landingHold.symm)⟩
      reached.ge start (Or.inl ⟨?_, ?_⟩) (fun id different => ⟨?_, ?_⟩) fun id different => ⟨?_, ?_⟩
    · rw [bookOpen, batchOpen, Ordered.get?_erase_self, Ordered.get?_erase_self]
    · rw [bookClosed, batchClosed, Ordered.get?_insert_self, Ordered.get?_insert_self]
    · rw [bookOpen, Ordered.get?_erase_of_ne _ different]
    · rw [bookClosed, Ordered.get?_insert_of_ne _ _ different]
    · rw [batchOpen, Ordered.get?_erase_of_ne _ different]
    · rw [batchClosed, Ordered.get?_insert_of_ne _ _ different]

theorem Follows.startWait (follows : Follows lives book batch) (holds : Held batch upto)
    (place : Place) {event : RunEvent} (fresh : upto ≤ event.id) (interval : PreClaimInterval) :
    Follows lives (book.startWait place event interval) (batch.startWait place event interval) := by
  have absent : batch.open_.get? event.id = none := by
    cases found : batch.open_.get? event.id with
    | none => rfl
    | some interval =>
      have bound := (holds.openId _ _ found).2
      omega
  have alike : KeptAlike book batch event.id := by
    rcases follows.waits event.id with alike | ⟨_, _, _, _, _, closed⟩
    · exact alike
    · rw [closed.isOpen] at absent
      cases absent
  have places : ∀ other, (book.startWait place event interval).heldBy other =
      (batch.startWait place event interval).heldBy other := by
    intro other
    rw [Book.startWait, Book.startWait, heldBy_occupy, heldBy_occupy]
    split
    · rfl
    · have same := follows.heldBy other
      cases other <;> exact same
  have landed := occupy_landings
    { book with open_ := book.open_.insert event.id interval } event.id place
  have landedBatch := occupy_landings
    { batch with open_ := batch.open_.insert event.id interval } event.id place
  have reached : (book.startWait place event interval).closedTo = book.closedTo := by
    cases place <;> rfl
  have bookOpen : (book.startWait place event interval).open_ =
      book.open_.insert event.id interval := open_occupy _ _ _
  have batchOpen : (batch.startWait place event interval).open_ =
      batch.open_.insert event.id interval := open_occupy _ _ _
  have bookClosed : (book.startWait place event interval).closed = book.closed :=
    closed_occupy _ _ _
  have batchClosed : (batch.startWait place event interval).closed = batch.closed :=
    closed_occupy _ _ _
  refine follows.change places
    ⟨landed.landings.trans (follows.landings.landings.trans landedBatch.landings.symm),
      landed.landingHold.trans (follows.landings.landingHold.trans landedBatch.landingHold.symm)⟩
    reached.ge event.id (Or.inl ⟨?_, ?_⟩) (fun id different => ⟨?_, ?_⟩) fun id different => ⟨?_, ?_⟩
  · rw [bookOpen, batchOpen, Ordered.get?_insert_self, Ordered.get?_insert_self]
  · rw [bookClosed, batchClosed, alike.2]
  · rw [bookOpen, Ordered.get?_insert_of_ne _ _ different]
  · rw [bookClosed]
  · rw [batchOpen, Ordered.get?_insert_of_ne _ _ different]
  · rw [batchClosed]

theorem slotsTurn_named {book : Book} {event : RunEvent} {turn : Turn}
    (taken : book.slotsTurn event = some turn) {supervisor : String} {slotClass : SlotClass}
    (slot : turn.place = .slot supervisor slotClass) : event.text "supervisor" = some supervisor := by
  unfold slotsTurn at taken
  cases named : slotsFullOf event with
  | none =>
    rw [named] at taken
    cases taken
  | some key =>
    have owner : event.text "supervisor" = some key.1 := by
      unfold slotsFullOf at named
      split at named
      · obtain ⟨owner, text, rest⟩ := Option.bind_eq_some_iff.mp named
        obtain ⟨ofClass, _, same⟩ := Option.bind_eq_some_iff.mp rest
        rw [← Option.some.inj same]
        exact text
      · cases named
    have place : turn.place = .slot key.1 key.2 := by
      rw [named] at taken
      dsimp only at taken
      split at taken
      · split at taken
        · cases taken
        · rw [← Option.some.inj taken]
      · rw [← Option.some.inj taken]
    rw [owner, (Place.slot.inj (place.symm.trans slot)).1]

/-- The event has the same turn in both books, in a place whose wait they keep alike. -/
theorem Follows.turn (follows : Follows lives book batch) (holds : Held batch upto)
    {event : RunEvent} (unnamed : Unnamed lives book batch event) :
    book.turn event = batch.turn event ∧
      ∀ turn, batch.turn event = some turn → ∀ start, batch.heldBy turn.place = some start →
        KeptAlike book batch start := by
  rcases turn_cases event with ⟨slots, _⟩ | ⟨hold, _⟩ | deferral
  · refine ⟨?_, fun turn taken start held => ?_⟩
    · rw [(slots book).1, (slots batch).1, slotsTurn, slotsTurn]
      simp only [follows.heldBy]
    · exact follows.placeAlike holds unnamed (fun _ _ slot =>
        slotsTurn_named ((slots batch).1.symm.trans taken) slot) held
  · have holdAlike : ∀ start, batch.heldBy .hold = some start → KeptAlike book batch start :=
      fun start held => follows.placeAlike holds unnamed (fun _ _ slot => by cases slot) held
    refine ⟨?_, fun turn taken start held => ?_⟩
    · have claim : book.claimHold = batch.claimHold := follows.heldBy .hold
      have opener : (book.claimHold.map fun start =>
          (book.open_.get? start).bind fun interval => interval.supervisor) =
          batch.claimHold.map fun start =>
            (batch.open_.get? start).bind fun interval => interval.supervisor := by
        rw [claim]
        cases held : batch.claimHold with
        | none => rfl
        | some start =>
          rw [Option.map_some, Option.map_some, (holdAlike start held).1]
      rw [(hold book).1, (hold batch).1, holdTurn, holdTurn, opener]
    · rw [holdTurn_place ((hold batch).1.symm.trans taken)] at held
      exact holdAlike start held
  · refine ⟨?_, fun turn taken start held => ?_⟩
    · rw [(deferral book).1, (deferral batch).1]
    · obtain ⟨task, place⟩ := deferralTurn_place ((deferral batch).1.symm.trans taken)
      exact follows.placeAlike holds unnamed
        (fun _ _ slot => by rw [place] at slot; cases slot) held

theorem Follows.take (follows : Follows lives book batch) (holds : Held batch upto)
    {event : RunEvent} (fresh : upto ≤ event.id) {turn : Option Turn}
    (alike : ∀ one, turn = some one → ∀ start, batch.heldBy one.place = some start →
      KeptAlike book batch start) :
    Follows lives (book.take event turn) (batch.take event turn) := by
  cases turn with
  | none => exact follows
  | some turn =>
    have ended : Follows lives (book.endTurn event turn) (batch.endTurn event turn) ∧
        Held (batch.endTurn event turn) upto := by
      unfold endTurn
      cases turn.ends with
      | none => exact ⟨follows, holds⟩
      | some why =>
        exact ⟨follows.endWait holds turn.place event why.1 why.2 (alike turn rfl),
          (holds.endWait turn.place event why.1 why.2).1⟩
    show Follows lives ((book.endTurn event turn).startTurn event turn)
      ((batch.endTurn event turn).startTurn event turn)
    unfold startTurn
    cases turn.starts with
    | none => exact ended.1
    | some interval => exact ended.1.startWait ended.2 turn.place fresh interval

/-! ### One more event -/

theorem name_closedTo (book : Book) (event : RunEvent) :
    (book.name event).closedTo = book.closedTo := by
  unfold Book.name
  split
  · split <;> rfl
  · rfl

theorem addLanding_closedTo (book : Book) (event : RunEvent) :
    (book.addLanding event).closedTo = book.closedTo := by
  unfold Book.addLanding
  dsimp only
  split
  · rfl
  · split <;> rfl

theorem Follows.of_same (follows : Follows lives book batch) {nextBook nextBatch : Book}
    (bookSame : SameWaits nextBook book) (batchSame : SameWaits nextBatch batch)
    (landings : SameLandings nextBook nextBatch) (reached : book.closedTo ≤ nextBook.closedTo) :
    Follows lives nextBook nextBatch where
  heldBy place := (bookSame.heldBy place).trans
    ((follows.heldBy place).trans (batchSame.heldBy place).symm)
  landings := landings
  waits id := by
    rcases follows.waits id with alike | ⟨interval, supervisor, slotClass, life, time, closed⟩
    · refine Or.inl ⟨?_, ?_⟩
      · rw [bookSame.open_, batchSame.open_]
        exact alike.1
      · rw [bookSame.closed, batchSame.closed]
        exact alike.2
    · refine Or.inr ⟨interval, supervisor, slotClass, life, time, ?_, closed.of, closed.ends, ?_,
        ?_, ?_⟩
      · rw [batchSame.open_]
        exact closed.isOpen
      · exact closed.reached.trans reached
      · rw [bookSame.open_]
        exact closed.notOpen
      · rw [bookSame.closed]
        exact closed.closed

/-- An event read by both books keeps the one following the other. -/
theorem Follows.add (follows : Follows lives book batch) (holds : Held batch upto)
    {event : RunEvent} (fresh : upto ≤ event.id) :
    Follows (lives.add event) (book.add event) (batch.add event) := by
  obtain ⟨woken, unnamed⟩ := follows.wake holds event
  obtain ⟨next, stillUnnamed⟩ := woken.addLife unnamed
  have holdsWoken := holds.wake event
  obtain ⟨sameTurn, alike⟩ := next.turn holdsWoken stillUnnamed
  have taken := next.take holdsWoken fresh alike
  rw [add_eq, add_eq, sameTurn]
  have named := taken.of_same (name_same _ event) (name_same _ event)
    ((name_landings _ event).trans (taken.landings.trans (name_landings _ event).symm))
    (name_closedTo _ event).ge
  exact named.of_same (addLanding_same _ event) (addLanding_same _ event)
    (addLanding_landings named.landings event) (addLanding_closedTo _ event).ge

/-! ### A close of the lives -/

theorem SameWaits.refl (book : Book) : SameWaits book book := ⟨rfl, rfl, fun _ => rfl⟩

theorem forgetEnd_same (book : Book) (supervisor : String) :
    SameWaits (book.forgetEnd supervisor) book ∧ SameLandings (book.forgetEnd supervisor) book ∧
      (book.forgetEnd supervisor).closedTo = book.closedTo := by
  unfold forgetEnd
  split
  · exact ⟨⟨rfl, rfl, fun place => by cases place <;> rfl⟩, ⟨rfl, rfl⟩, rfl⟩
  · exact ⟨SameWaits.refl book, ⟨rfl, rfl⟩, rfl⟩

/-- What a close keeps of when the lives end is not what the waits are. -/
theorem Follows.reread (follows : Follows lives book batch) (supervisor : String) :
    Follows lives (Book.reread lives book supervisor) batch ∧
      (Book.reread lives book supervisor).closedTo = book.closedTo := by
  obtain ⟨waits, landings, reached⟩ := forgetEnd_same book supervisor
  have forgotten := follows.of_same waits (SameWaits.refl batch)
    (landings.trans follows.landings) reached.ge
  unfold Book.reread
  dsimp only
  cases if (book.forgetEnd supervisor).hasSlotsFull supervisor then lives.endsFrom supervisor
    else none with
  | none => exact ⟨forgotten, reached⟩
  | some time =>
    exact ⟨forgotten.of_same ⟨rfl, rfl, fun place => by cases place <;> rfl⟩ (SameWaits.refl batch)
      ⟨forgotten.landings.landings, forgotten.landings.landingHold⟩ le_rfl, reached⟩

theorem Follows.closeClass {closing : Book × List Nat} (follows : Follows lives closing.1 batch)
    (holds : Held batch upto) {life : LifeEnd} {supervisor : String} {nowMs : Int}
    (ends : lives.endAt supervisor nowMs = some life) (reached : nowMs ≤ closing.1.closedTo)
    (slotClass : SlotClass) :
    Follows lives (Book.closeClass life supervisor closing slotClass).1 batch ∧
      (Book.closeClass life supervisor closing slotClass).1.closedTo = closing.1.closedTo := by
  unfold Book.closeClass
  cases held : closing.1.slots.get? (slotKey supervisor slotClass) with
  | none => exact ⟨follows, rfl⟩
  | some start =>
    dsimp only
    cases found : closing.1.open_.get? start with
    | none => exact ⟨follows, rfl⟩
    | some interval =>
      have inBatch : batch.heldBy (.slot supervisor slotClass) = some start :=
        (follows.heldBy _).symm.trans held
      have isOpen : batch.open_.get? start = some interval := by
        rcases follows.atPlace holds inBatch with alike | ⟨_, _, _, _, _, _, closed⟩
        · exact alike.1.symm.trans found
        · rw [closed.notOpen] at found
          cases found
      obtain ⟨other, again, ofPlace⟩ := (holds.held _ start).mp inBatch
      obtain rfl := Option.some.inj (again.symm.trans isOpen)
      refine ⟨follows.change (fun place => ?_) ⟨follows.landings.landings,
        follows.landings.landingHold⟩ le_rfl start
        (Or.inr ⟨other, supervisor, slotClass, life, nowMs, isOpen, ofPlace, ends, reached,
          Ordered.get?_erase_self _ _, Ordered.get?_insert_self _ _ _⟩)
        (fun id different => ⟨Ordered.get?_erase_of_ne _ different,
          Ordered.get?_insert_of_ne _ _ different⟩) fun _ _ => ⟨rfl, rfl⟩, rfl⟩
      rw [← follows.heldBy place]
      cases place <;> rfl

theorem Follows.closeSupervisor {closing : Book × List Nat}
    (follows : Follows lives closing.1 batch) (holds : Held batch upto) {nowMs : Int}
    (reached : nowMs ≤ closing.1.closedTo) (due : Lex (Int × String)) :
    Follows lives (Book.closeSupervisor lives nowMs closing due).1 batch ∧
      (Book.closeSupervisor lives nowMs closing due).1.closedTo = closing.1.closedTo := by
  have popped : Follows lives
      { closing.1 with
        lifeEnds := closing.1.lifeEnds.erase due
        lifeEndOf := closing.1.lifeEndOf.erase (ofLex due).2 } batch :=
    follows.of_same ⟨rfl, rfl, fun place => by cases place <;> rfl⟩ (SameWaits.refl batch)
      ⟨follows.landings.landings, follows.landings.landingHold⟩ le_rfl
  unfold Book.closeSupervisor
  dsimp only
  cases ends : lives.endAt (ofLex due).2 nowMs with
  | none => exact ⟨popped, rfl⟩
  | some life =>
    obtain ⟨heavy, same⟩ := @Follows.closeClass _ _ _ (_, closing.2) popped holds _ _ _ ends
      reached .heavy
    obtain ⟨light, still⟩ := Follows.closeClass heavy holds ends (reached.trans same.ge) .light
    exact ⟨light, still.trans same⟩

/-- A close keeps the book following the one that only reads. -/
theorem Follows.closeLives (follows : Follows lives book batch) (holds : Held batch upto)
    (nowMs : Int) : Follows lives (book.closeLives lives nowMs).1 batch := by
  have reached : Follows lives
      { book with
        closedTo := max book.closedTo nowMs
        named := Ordered.empty } batch :=
    follows.of_same ⟨rfl, rfl, fun place => by cases place <;> rfl⟩ (SameWaits.refl batch)
      ⟨follows.landings.landings, follows.landings.landingHold⟩ (le_max_left _ _)
  have known : ∀ (supervisors : List String) (first : Book), Follows lives first batch →
      nowMs ≤ first.closedTo → Follows lives (supervisors.foldl (Book.reread lives) first) batch ∧
        nowMs ≤ (supervisors.foldl (Book.reread lives) first).closedTo := by
    intro supervisors
    induction supervisors with
    | nil => exact fun _ follows reached => ⟨follows, reached⟩
    | cons supervisor rest inductionHypothesis =>
      intro first follows reached
      obtain ⟨next, same⟩ := follows.reread supervisor
      exact inductionHypothesis _ next (reached.trans same.ge)
  have due : ∀ (ends : List (Lex (Int × String))) (closing : Book × List Nat),
      Follows lives closing.1 batch → nowMs ≤ closing.1.closedTo →
      Follows lives (ends.foldl (Book.closeSupervisor lives nowMs) closing).1 batch := by
    intro ends
    induction ends with
    | nil => exact fun _ follows _ => follows
    | cons end_ rest inductionHypothesis =>
      intro closing follows reached
      obtain ⟨next, same⟩ := follows.closeSupervisor holds reached end_
      exact inductionHypothesis _ next (reached.trans same.ge)
  obtain ⟨knownFollows, knownReached⟩ := known (book.named.entries.map Prod.fst) _ reached
    (le_max_right _ _)
  exact due _ (_, []) knownFollows knownReached

end Follows

/-! ### What both books tell -/

/-- A book that keeps every wait by its id, open or closed. -/
structure Filed (book : Book) : Prop where
  openId : ∀ id interval, book.open_.get? id = some interval → interval.id = id
  closedId : ∀ id row, book.closed.get? id = some row → row.1.id = id
  apart : ∀ id interval, book.open_.get? id = some interval → book.closed.get? id = none

theorem Held.filedBook {book : Book} {upto : Nat} (holds : Held book upto) : Filed book where
  openId id interval found := (holds.openId id interval found).1
  closedId id row found := (holds.closedId id row found).1
  apart := holds.apart

theorem Follows.filedBook {lives : Lives} {book batch : Book} {upto : Nat}
    (follows : Follows lives book batch) (holds : Held batch upto) : Filed book where
  openId id interval found := by
    rcases follows.waits id with alike | ⟨_, _, _, _, _, closed⟩
    · exact (holds.openId id interval (alike.1.symm.trans found)).1
    · rw [closed.notOpen] at found
      cases found
  closedId id row found := by
    rcases follows.waits id with alike | ⟨interval, _, _, _, _, closed⟩
    · exact (holds.closedId id row (alike.2.symm.trans found)).1
    · rw [← Option.some.inj (closed.closed.symm.trans found)]
      exact (holds.openId id interval closed.isOpen).1
  apart id interval found := by
    rcases follows.waits id with alike | ⟨_, _, _, _, _, closed⟩
    · rw [alike.2]
      exact holds.apart id interval (alike.1.symm.trans found)
    · rw [closed.notOpen] at found
      cases found

theorem atLife_of_full {interval : PreClaimInterval} {supervisor : String}
    (full : interval.kind = .slotsFull) (owner : interval.supervisor = some supervisor)
    {lives : Lives} {nowMs : Int} :
    interval.atLife lives nowMs =
      ((lives.endAt supervisor nowMs).map interval.endWithLife).getD interval := by
  obtain ⟨id, kind, owned, _, _, _, _, _, _, _, _⟩ := interval
  obtain rfl : kind = .slotsFull := full
  obtain rfl : owned = some supervisor := owner
  unfold PreClaimInterval.atLife
  dsimp only
  cases lives.endAt supervisor nowMs with
  | none => rfl
  | some life => rfl

theorem atLife_id (interval : PreClaimInterval) (lives : Lives) (nowMs : Int) :
    (interval.atLife lives nowMs).id = interval.id := by
  unfold PreClaimInterval.atLife
  split
  · split <;> rfl
  · rfl

theorem closedAt_id (book : Book) (lives : Lives) (nowMs : Int)
    (row : PreClaimInterval × Option Nat) : (book.closedAt lives nowMs row).id = row.1.id := by
  unfold closedAt
  split <;> rfl

/-- The intervals are those told of each start, by the id of the start. -/
theorem Filed.intervals {book : Book} (filed : Filed book) (lives : Lives) (nowMs : Int) :
    ((book.intervals lives nowMs).Pairwise fun first second => first.id < second.id) ∧
      ∀ interval, interval ∈ book.intervals lives nowMs ↔
        (book.interval interval.id lives nowMs).map Prod.fst = some interval := by
  have closedAscending : (book.closed.values.map (book.closedAt lives nowMs)).Pairwise
      fun first second => first.id < second.id := by
    refine List.pairwise_map.mpr (List.pairwise_map.mpr
      (book.closed.ascending.imp_of_mem fun inFirst inSecond before => ?_))
    rw [closedAt_id, closedAt_id, filed.closedId _ _ (Ordered.get?_eq_some_iff.mpr inFirst),
      filed.closedId _ _ (Ordered.get?_eq_some_iff.mpr inSecond)]
    exact before
  have openAscending : (book.open_.values.map fun interval =>
      interval.atLife lives nowMs).Pairwise fun first second => first.id < second.id := by
    refine List.pairwise_map.mpr (List.pairwise_map.mpr
      (book.open_.ascending.imp_of_mem fun inFirst inSecond before => ?_))
    rw [atLife_id, atLife_id, filed.openId _ _ (Ordered.get?_eq_some_iff.mpr inFirst),
      filed.openId _ _ (Ordered.get?_eq_some_iff.mpr inSecond)]
    exact before
  have inClosed : ∀ interval, interval ∈ book.closed.values.map (book.closedAt lives nowMs) ↔
      ∃ row, book.closed.get? interval.id = some row ∧
        book.closedAt lives nowMs row = interval := by
    intro interval
    rw [List.mem_map]
    constructor
    · rintro ⟨row, member, rfl⟩
      obtain ⟨id, found⟩ := Ordered.mem_values.mp member
      refine ⟨row, ?_, rfl⟩
      rw [closedAt_id, filed.closedId id row found]
      exact found
    · rintro ⟨row, found, equal⟩
      exact ⟨row, Ordered.mem_values.mpr ⟨_, found⟩, equal⟩
  have inOpen : ∀ interval, interval ∈ book.open_.values.map
      (fun interval => interval.atLife lives nowMs) ↔
      ∃ held, book.open_.get? interval.id = some held ∧ held.atLife lives nowMs = interval := by
    intro interval
    rw [List.mem_map]
    constructor
    · rintro ⟨held, member, rfl⟩
      obtain ⟨id, found⟩ := Ordered.mem_values.mp member
      refine ⟨held, ?_, rfl⟩
      rw [atLife_id, filed.openId id held found]
      exact found
    · rintro ⟨held, found, equal⟩
      exact ⟨held, Ordered.mem_values.mpr ⟨_, found⟩, equal⟩
  refine ⟨@merge_ascending _ _ _ PreClaimInterval.id _ _ closedAscending openAscending
    fun first inFirst second inSecond same => ?_, fun interval => ?_⟩
  · obtain ⟨held, found, _⟩ := (inOpen second).mp inSecond
    obtain ⟨row, closed, _⟩ := (inClosed first).mp inFirst
    rw [same, filed.apart _ _ found] at closed
    cases closed
  · rw [Book.intervals, List.mem_merge, inClosed, inOpen, Book.interval]
    cases closed : book.closed.get? interval.id with
    | some row =>
      have notOpen : book.open_.get? interval.id = none := by
        cases found : book.open_.get? interval.id with
        | none => rfl
        | some held =>
          rw [filed.apart _ _ found] at closed
          cases closed
      simp [notOpen]
    | none => simp

/-- Both books tell the same of every start, at any time. -/
theorem Follows.interval {lives : Lives} {book batch : Book} {upto : Nat}
    (follows : Follows lives book batch) (holds : Held batch upto) (start : Nat) (nowMs : Int) :
    book.interval start lives nowMs = batch.interval start lives nowMs := by
  have recorded : ∀ (one : Book) row, row.2 ≠ none → one.closedAt lives nowMs row = row.1 := by
    intro one row ended
    rw [closedAt, if_neg fun closed => ended closed.1]
  rcases follows.waits start with alike | ⟨interval, supervisor, slotClass, life, time, closed⟩
  · rw [Book.interval, Book.interval, alike.1, alike.2]
    cases found : batch.closed.get? start with
    | none => rfl
    | some row =>
      have ended := holds.ended start row found
      dsimp only
      rw [recorded book row ended, recorded batch row ended]
  · rw [Book.interval, Book.interval, closed.closed, holds.apart _ _ closed.isOpen, closed.isOpen]
    dsimp only
    rw [Option.map_some]
    refine congrArg some (Prod.ext ?_ rfl)
    dsimp only
    rw [atLife_of_full closed.of.1 closed.of.2.1]
    have owner : (interval.endWithLife life).supervisor = some supervisor := closed.of.2.1
    unfold closedAt
    rw [owner, Option.map_some]
    cases ends : lives.endAt supervisor nowMs with
    | some other =>
      rw [Lives.endAt_unique ends closed.ends]
      simp
    | none =>
      -- The life had ended by the latest close, so the time is before it.
      have before : nowMs < book.closedTo := by
        by_contra late
        have still := Lives.endAt_later closed.ends (closed.reached.trans (not_lt.mp late))
        rw [ends] at still
        cases still
      rw [if_pos ⟨rfl, before, by simp⟩]
      exact holds.unended start interval closed.isOpen

end Book

/-! ### Any order of events and closes -/

/-- What a reader that holds a book does with it. -/
inductive Move where
  | read (event : RunEvent)
  | closeLives (nowMs : Int)

/-- The events the moves read. -/
def readEvents (moves : List Move) : List RunEvent :=
  moves.filterMap fun move =>
    match move with
    | .read event => some event
    | .closeLives _ => none

/-- A reader: its book and the lives of the events read so far. -/
structure Reader where
  book : Book := {}
  lives : Lives := fun _ => none

def Reader.move (reader : Reader) : Move → Reader
  | .read event => ⟨reader.book.add event, reader.lives.add event⟩
  | .closeLives nowMs => { reader with book := (reader.book.closeLives reader.lives nowMs).1 }

def Reader.after (moves : List Move) : Reader := moves.foldl Reader.move {}

theorem follows_after (moves : List Move) (ascending : Ascending (readEvents moves)) {upto : Nat}
    (below : ∀ event ∈ readEvents moves, event.id < upto) :
    (Reader.after moves).lives = Lives.of (readEvents moves) ∧
      Book.Held (Book.of (readEvents moves)) upto ∧
      Book.Follows (Lives.of (readEvents moves)) (Reader.after moves).book
        (Book.of (readEvents moves)) := by
  induction moves using List.reverseRecOn generalizing upto with
  | nil =>
    exact ⟨rfl, Book.held_empty.mono (Nat.zero_le _), fun _ => rfl, ⟨rfl, rfl⟩,
      fun _ => Or.inl ⟨rfl, rfl⟩⟩
  | append_singleton moves move inductionHypothesis =>
    have after : Reader.after (moves ++ [move]) = (Reader.after moves).move move := by
      rw [Reader.after, List.foldl_append]
      rfl
    rw [after]
    cases move with
    | closeLives nowMs =>
      have same : readEvents (moves ++ [Move.closeLives nowMs]) = readEvents moves := by
        simp [readEvents]
      rw [same] at ascending below ⊢
      obtain ⟨lives, holds, follows⟩ := inductionHypothesis ascending below
      refine ⟨lives, holds, ?_⟩
      show Book.Follows _ ((Reader.after moves).book.closeLives (Reader.after moves).lives nowMs).1 _
      rw [lives]
      exact follows.closeLives holds nowMs
    | read event =>
      have same : readEvents (moves ++ [Move.read event]) = readEvents moves ++ [event] := by
        simp [readEvents]
      rw [same] at ascending below ⊢
      rw [Ascending, List.pairwise_append] at ascending
      have earlier : ∀ other ∈ readEvents moves, other.id < event.id := fun other member =>
        ascending.2.2 other member event List.mem_cons_self
      obtain ⟨lives, holds, follows⟩ := inductionHypothesis ascending.1 earlier
      have bound := below event (List.mem_append_right _ List.mem_cons_self)
      have book : Book.of (readEvents moves ++ [event]) = (Book.of (readEvents moves)).add event := by
        rw [Book.of, List.foldl_append]
        rfl
      rw [book, Lives.of_append_singleton]
      refine ⟨?_, (holds.add (Nat.le_refl _)).mono bound, follows.add holds (Nat.le_refl _)⟩
      show (Reader.after moves).lives.add event = _
      rw [lives]

/-- However the events and the closes of lives interleave, the book gives the intervals that all
events at once give. -/
theorem intervals_after (moves : List Move) (ascending : Ascending (readEvents moves))
    (nowMs : Int) :
    (Reader.after moves).book.intervals (Lives.of (readEvents moves)) nowMs =
      preClaimIntervals (readEvents moves) nowMs := by
  obtain ⟨upto, below⟩ := ids_below (readEvents moves)
  obtain ⟨_, holds, follows⟩ := follows_after moves ascending below
  obtain ⟨bookAscending, inBook⟩ :=
    (follows.filedBook holds).intervals (Lives.of (readEvents moves)) nowMs
  obtain ⟨batchAscending, inBatch⟩ := holds.filedBook.intervals (Lives.of (readEvents moves)) nowMs
  refine eq_of_ascending_of_mem_iff bookAscending batchAscending fun interval => ?_
  rw [preClaimIntervals, inBook, inBatch, follows.interval holds]

/-- A supervisor full of heavy tasks, closed once it was silent, that then went on. -/
def revived : List Move :=
  [.read
      { id := 1, kind := .slotsFullStarted, createdAt := "1970-01-01T00:00:00.000Z"
        payload := .object [("supervisor", .text "first"), ("class", .text "heavy")] },
    .closeLives 1000000,
    .read
      { id := 2, kind := .other "supervisor_alive", createdAt := "1970-01-01T00:30:00.000Z"
        payload := .object [("supervisor", .text "first")] },
    .closeLives 1900000]

theorem intervals_after_revived :
    (Reader.after revived).book.intervals (Lives.of (readEvents revived)) 1900000 =
        preClaimIntervals (readEvents revived) 1900000 ∧
      preClaimIntervals (readEvents revived) 1900000 =
        [{ id := 1, kind := .slotsFull, supervisor := some "first", taskId := none, reason := none,
           class_ := some .heavy, startedAt := "1970-01-01T00:00:00.000Z", endedAt := none,
           end_ := none, endedBy := none, reach := 2 }] := by
  refine ⟨intervals_after revived (by simp [Ascending, readEvents, revived]) 1900000, ?_⟩
  have noneClosed : (Book.of (readEvents revived)).closed.values = [] := by decide
  rw [preClaimIntervals, Book.intervals, noneClosed, List.map_nil, List.nil_merge]
  decide

end Dagq.PreClaim
