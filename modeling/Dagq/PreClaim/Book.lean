/-
This file models the book of the waits before a claim: a supervisor's slots all
full, the queue's hold on the claims and a task's deferred claim, with the holds
on the landings beside them. The book reads one event at a time and keeps what
ended and what is open by the event that started it.

The waits stand in places: a supervisor's class of slots, the claims, a task. One
wait at most is open in a place. What an event does to the waits is a turn: the
end of what is open in a place, and what is open there from then on.

A slots-full wait that is open is ended by its supervisor's life as it is read.
Closing the lives does so where it is kept, and an event naming the supervisor
opens it again.
-/

import Dagq.PreClaim.Life
import Dagq.PreClaim.Spans
import Mathlib.Data.String.Basic

namespace Dagq.PreClaim

open Dagq.Lib Dagq.Ledger

/-! ### Intervals -/

/-- The slots a class of tasks needs. -/
inductive SlotClass where
  | heavy
  | light
  deriving DecidableEq, Repr

namespace SlotClass

def asStr : SlotClass → String
  | heavy => "heavy"
  | light => "light"

def of (text : String) : Option SlotClass :=
  if text = "heavy" then some heavy else if text = "light" then some light else none

def rank : SlotClass → Nat
  | heavy => 0
  | light => 1

instance : LinearOrder SlotClass :=
  LinearOrder.lift' rank fun first second same => by
    cases first <;> cases second <;> first | rfl | cases same

end SlotClass

inductive IntervalKind where
  | slotsFull
  | claimHold
  | claimDeferral
  deriving DecidableEq, Repr

/-- A slots-full interval ended by its supervisor's pass that found a slot. -/
def endedFreed : String := "freed"

/-- One wait before a claim: what started it, whose it is, and how it ended. -/
structure PreClaimInterval where
  id : Nat
  kind : IntervalKind
  supervisor : Option String
  taskId : Option Nat
  reason : Option String
  class_ : Option SlotClass
  startedAt : String
  endedAt : Option String
  end_ : Option String
  endedBy : Option String
  /-- The last event that is an input of it. -/
  reach : Nat
  deriving DecidableEq, Repr

namespace PreClaimInterval

/-- A hold or a deferral an event began, open. -/
def opened (kind : IntervalKind) (start : RunEvent) : PreClaimInterval where
  id := start.id
  kind := kind
  supervisor := start.text "supervisor"
  taskId := if kind = .claimDeferral then start.taskId else none
  reason := start.text "reason"
  class_ := none
  startedAt := start.createdAt
  endedAt := none
  end_ := none
  endedBy := none
  reach := start.id

/-- A slots-full interval an event began, open. -/
def full (start : RunEvent) (supervisor : String) (slotClass : SlotClass) : PreClaimInterval where
  id := start.id
  kind := .slotsFull
  supervisor := some supervisor
  taskId := none
  reason := none
  class_ := some slotClass
  startedAt := start.createdAt
  endedAt := none
  end_ := none
  endedBy := none
  reach := start.id

def endBy (interval : PreClaimInterval) (event : RunEvent) (why : String) (by_ : Option String) :
    PreClaimInterval :=
  { interval with
    endedAt := some event.createdAt
    end_ := some why
    endedBy := by_
    reach := event.id }

/-- The interval as open again. -/
def unend (interval : PreClaimInterval) : PreClaimInterval :=
  { interval with endedAt := none, end_ := none, endedBy := none }

/-- End a slots-full interval at the end of its supervisor's life. -/
def endWithLife (interval : PreClaimInterval) (life : LifeEnd) : PreClaimInterval :=
  { interval with
    endedAt := some (utcText (max life.atMs ((timestampMillis interval.startedAt).getD life.atMs)))
    end_ := some endedSupervisorGone
    endedBy := match life with
      | .stopped _ => interval.supervisor
      | .silent _ => none }

/-- An open interval at a time: a slots-full one ends with its supervisor's life. -/
def atLife (interval : PreClaimInterval) (lives : Lives) (nowMs : Int) : PreClaimInterval :=
  match interval.kind, interval.supervisor with
  | .slotsFull, some supervisor =>
    match lives.endAt supervisor nowMs with
    | some life => interval.endWithLife life
    | none => interval
  | _, _ => interval

end PreClaimInterval

/-! ### Places -/

/-- Where a wait is open: a supervisor's class of slots, the claims, or a task. -/
inductive Place where
  | slot (supervisor : String) (slotClass : SlotClass)
  | hold
  | deferral (task : Nat)
  deriving DecidableEq, Repr

/-- An interval that is of a place. -/
def PreClaimInterval.Of (interval : PreClaimInterval) : Place → Prop
  | .slot supervisor slotClass =>
    interval.kind = .slotsFull ∧ interval.supervisor = some supervisor ∧
      interval.class_ = some slotClass
  | .hold => interval.kind = .claimHold
  | .deferral task => interval.kind = .claimDeferral ∧ interval.taskId = some task

/-- What an event does in a place: why it ends the wait open there and by whom, and the wait
it starts. -/
structure Turn where
  place : Place
  ends : Option (String × Option String)
  starts : Option PreClaimInterval

/-! ### The book -/

abbrev SlotKey := Lex (String × SlotClass)

def slotKey (supervisor : String) (slotClass : SlotClass) : SlotKey := toLex (supervisor, slotClass)

structure Book where
  /-- The waits ended, with the event of their own that ended each. -/
  closed : Ordered Nat (PreClaimInterval × Option Nat) := Ordered.empty
  /-- The waits open. -/
  open_ : Ordered Nat PreClaimInterval := Ordered.empty
  slots : Ordered SlotKey Nat := Ordered.empty
  claimHold : Option Nat := none
  deferrals : Ordered Nat Nat := Ordered.empty
  /-- The holds on the landings, each with the event that ended it, and the one open. -/
  landings : Ordered Nat (PreClaimInterval × Option Nat) := Ordered.empty
  landingHold : Option Nat := none
  /-- When each supervisor with slots full ends at the earliest, as of the last close. -/
  lifeEnds : Ordered (Lex (Int × String)) Unit := Ordered.empty
  lifeEndOf : Ordered String Int := Ordered.empty
  /-- The supervisors with slots full that an event named since. -/
  named : Ordered String Unit := Ordered.empty
  /-- The latest time a close was at. -/
  closedTo : Int := 0

namespace Book

/-- The start of the wait open in a place. -/
def heldBy (book : Book) : Place → Option Nat
  | .slot supervisor slotClass => book.slots.get? (slotKey supervisor slotClass)
  | .hold => book.claimHold
  | .deferral task => book.deferrals.get? task

def vacate (book : Book) : Place → Book
  | .slot supervisor slotClass =>
    { book with slots := book.slots.erase (slotKey supervisor slotClass) }
  | .hold => { book with claimHold := none }
  | .deferral task => { book with deferrals := book.deferrals.erase task }

def occupy (book : Book) (start : Nat) : Place → Book
  | .slot supervisor slotClass =>
    { book with slots := book.slots.insert (slotKey supervisor slotClass) start }
  | .hold => { book with claimHold := some start }
  | .deferral task => { book with deferrals := book.deferrals.insert task start }

def close (book : Book) (start : Nat) (event : RunEvent) (why : String) (by_ : Option String) :
    Book :=
  match book.open_.get? start with
  | some interval =>
    { book with
      open_ := book.open_.erase start
      closed := book.closed.insert start (interval.endBy event why by_, some event.id) }
  | none => book

/-- End the wait open in a place, if one is. -/
def endWait (book : Book) (place : Place) (event : RunEvent) (why : String) (by_ : Option String) :
    Book :=
  match book.heldBy place with
  | some start => (book.vacate place).close start event why by_
  | none => book

def startWait (book : Book) (place : Place) (event : RunEvent) (interval : PreClaimInterval) :
    Book :=
  { book with open_ := book.open_.insert event.id interval }.occupy event.id place

def endTurn (book : Book) (event : RunEvent) (turn : Turn) : Book :=
  match turn.ends with
  | some (why, by_) => book.endWait turn.place event why by_
  | none => book

def startTurn (book : Book) (event : RunEvent) (turn : Turn) : Book :=
  match turn.starts with
  | some interval => book.startWait turn.place event interval
  | none => book

def take (book : Book) (event : RunEvent) (turn : Option Turn) : Book :=
  match turn with
  | some turn => (book.endTurn event turn).startTurn event turn
  | none => book

/-! ### What an event does to the waits -/

/-- The supervisor and the class a record of slots full names. -/
def slotsFullOf (event : RunEvent) : Option (String × SlotClass) :=
  if event.kind = .slotsFullStarted ∨ event.kind = .slotsFullEnded then do
    let supervisor ← event.text "supervisor"
    let slotClass ← (event.text "class").bind SlotClass.of
    some (supervisor, slotClass)
  else none

/-- A start of slots already full goes on with what is open. -/
def slotsTurn (book : Book) (event : RunEvent) : Option Turn :=
  match slotsFullOf event with
  | none => none
  | some (supervisor, slotClass) =>
    if event.kind = .slotsFullStarted then
      match book.heldBy (.slot supervisor slotClass) with
      | some _ => none
      | none => some ⟨.slot supervisor slotClass, none, some (.full event supervisor slotClass)⟩
    else some ⟨.slot supervisor slotClass, some (endedFreed, some supervisor), none⟩

def holdTurn (book : Book) (event : RunEvent) : Option Turn :=
  let opener := book.claimHold.map fun start => (book.open_.get? start).bind (·.supervisor)
  match holdEnd .claims opener event with
  | none => none
  | some why =>
    some ⟨.hold, some (why, event.text "supervisor"),
      if event.kind = HoldKinds.claims.held then some (.opened .claimHold event) else none⟩

def deferralTurn (event : RunEvent) : Option Turn :=
  match deferralEnd event with
  | none => none
  | some (task, why) =>
    some ⟨.deferral task, some (why, event.text "supervisor"),
      if event.kind = .claimDeferred then some (.opened .claimDeferral event) else none⟩

/-- The holds on the landings with the one open ended, kept where it stands. -/
def endLanding (book : Book) (event : RunEvent) (why : String) :
    Ordered Nat (PreClaimInterval × Option Nat) :=
  match book.landingHold.bind fun start =>
      (book.landings.get? start).map fun row => (start, row.1) with
  | some (start, interval) =>
    book.landings.insert start
      (interval.endBy event why (event.text "supervisor"), some event.id)
  | none => book.landings

def addLanding (book : Book) (event : RunEvent) : Book :=
  let opener := book.landingHold.map fun start =>
    (book.landings.get? start).bind fun row => row.1.supervisor
  match holdEnd .landings opener event with
  | none => book
  | some why =>
    if event.kind = HoldKinds.landings.held then
      { book with
        landings := (book.endLanding event why).insert event.id (.opened .claimHold event, none)
        landingHold := some event.id }
    else { book with landings := book.endLanding event why, landingHold := none }

/-! ### The supervisors an event names -/

/-- Open again a slots-full wait its supervisor's life closed. -/
def reopenClass (book : Book) (supervisor : String) (slotClass : SlotClass) : Book :=
  match book.slots.get? (slotKey supervisor slotClass) with
  | none => book
  | some start =>
    match book.closed.get? start with
    | some (interval, none) =>
      { book with
        closed := book.closed.erase start
        open_ := book.open_.insert start interval.unend }
    | _ => book

def reopen (book : Book) (supervisor : String) : Book :=
  (book.reopenClass supervisor .heavy).reopenClass supervisor .light

/-- Let an event naming a supervisor reach its slots full not freed. -/
def reachClass (book : Book) (supervisor : String) (id : Nat) (slotClass : SlotClass) : Book :=
  match book.slots.get? (slotKey supervisor slotClass) with
  | none => book
  | some start =>
    match book.open_.get? start with
    | some interval =>
      { book with open_ := book.open_.insert start { interval with reach := id } }
    | none => book

def reachSlotsFull (book : Book) (supervisor : String) (id : Nat) : Book :=
  (book.reachClass supervisor id .heavy).reachClass supervisor id .light

def hasSlotsFull (book : Book) (supervisor : String) : Bool :=
  (book.slots.get? (slotKey supervisor .heavy)).isSome ||
    (book.slots.get? (slotKey supervisor .light)).isSome

/-- What an event naming a supervisor does before its own record is read. -/
def wake (book : Book) (event : RunEvent) : Book :=
  match event.text "supervisor" with
  | some supervisor => (book.reopen supervisor).reachSlotsFull supervisor event.id
  | none => book

/-- Keep that an event named a supervisor whose end the next close reads again. -/
def name (book : Book) (event : RunEvent) : Book :=
  match event.text "supervisor" with
  | some supervisor =>
    if (book.named.get? supervisor).isNone ∧
        ((book.lifeEndOf.get? supervisor).isSome ∨ book.hasSlotsFull supervisor = true) then
      { book with named := book.named.insert supervisor () }
    else book
  | none => book

/-- Read an event, after every one read before. -/
def add (book : Book) (event : RunEvent) : Book :=
  let woken := book.wake event
  let slots := woken.take event (woken.slotsTurn event)
  let held := slots.take event (slots.holdTurn event)
  let deferred := held.take event (deferralTurn event)
  (deferred.name event).addLanding event

/-- The book of events by ascending id. -/
def of (events : List RunEvent) : Book := events.foldl add {}

/-! ### Closing the lives -/

/-- Drop when the life of a supervisor ends. -/
def forgetEnd (book : Book) (supervisor : String) : Book :=
  match book.lifeEndOf.get? supervisor with
  | some time =>
    { book with
      lifeEndOf := book.lifeEndOf.erase supervisor
      lifeEnds := book.lifeEnds.erase (toLex (time, supervisor)) }
  | none => book

/-- Read again when the life of a supervisor named since the last close ends. -/
def reread (lives : Lives) (book : Book) (supervisor : String) : Book :=
  let forgotten := book.forgetEnd supervisor
  match if forgotten.hasSlotsFull supervisor then lives.endsFrom supervisor else none with
  | some time =>
    { forgotten with
      lifeEndOf := forgotten.lifeEndOf.insert supervisor time
      lifeEnds := forgotten.lifeEnds.insert (toLex (time, supervisor)) () }
  | none => forgotten

/-- Close the slots-full wait of a class, where it is open. -/
def closeClass (life : LifeEnd) (supervisor : String) (closing : Book × List Nat)
    (slotClass : SlotClass) : Book × List Nat :=
  match closing.1.slots.get? (slotKey supervisor slotClass) with
  | none => closing
  | some start =>
    match closing.1.open_.get? start with
    | none => closing
    | some interval =>
      ({ closing.1 with
          open_ := closing.1.open_.erase start
          closed := closing.1.closed.insert start (interval.endWithLife life, none) },
        closing.2 ++ [start])

/-- Close the waits of a supervisor whose end came. -/
def closeSupervisor (lives : Lives) (nowMs : Int) (closing : Book × List Nat)
    (due : Lex (Int × String)) : Book × List Nat :=
  let supervisor := (ofLex due).2
  let popped : Book × List Nat :=
    ({ closing.1 with
        lifeEnds := closing.1.lifeEnds.erase due
        lifeEndOf := closing.1.lifeEndOf.erase supervisor }, closing.2)
  match lives.endAt supervisor nowMs with
  | none => popped
  | some life => closeClass life supervisor (closeClass life supervisor popped .heavy) .light

/-- Close the slots full whose supervisor's life ended by a time, and their starts. -/
def closeLives (book : Book) (lives : Lives) (nowMs : Int) : Book × List Nat :=
  let reached := { book with closedTo := max book.closedTo nowMs, named := Ordered.empty }
  let known := (book.named.entries.map Prod.fst).foldl (reread lives) reached
  let due := (known.lifeEnds.entries.map Prod.fst).takeWhile fun end_ => (ofLex end_).1 ≤ nowMs
  let closing := due.foldl (closeSupervisor lives nowMs) (known, [])
  (closing.1, closing.2.mergeSort)

/-! ### What the book tells -/

/-- The wait an event started as it is kept, with the event that ended it. -/
def kept (book : Book) (start : Nat) : Option (PreClaimInterval × Option Nat) :=
  match book.closed.get? start with
  | some row => some row
  | none => (book.open_.get? start).map fun interval => (interval, none)

/-- The waits kept, by the id of their start. -/
def rows (book : Book) : List (PreClaimInterval × Option Nat) :=
  List.merge book.closed.values (book.open_.values.map fun interval => (interval, none))
    fun first second => decide (first.1.id < second.1.id)

/-- A closed interval at a time: one a life closed is open while that life has not ended. -/
def closedAt (book : Book) (lives : Lives) (nowMs : Int)
    (row : PreClaimInterval × Option Nat) : PreClaimInterval :=
  if row.2 = none ∧ nowMs < book.closedTo ∧
      (row.1.supervisor.map fun supervisor => (lives.endAt supervisor nowMs).isNone) = some true then
    row.1.unend
  else row.1

/-- Every wait before a claim at a time, by the id of its start. -/
def intervals (book : Book) (lives : Lives) (nowMs : Int) : List PreClaimInterval :=
  List.merge (book.closed.values.map (book.closedAt lives nowMs))
    (book.open_.values.map fun interval => interval.atLife lives nowMs)
    fun first second => decide (first.id < second.id)

/-- The wait before a claim an event started at a time, with the event that ended it. -/
def interval (book : Book) (start : Nat) (lives : Lives) (nowMs : Int) :
    Option (PreClaimInterval × Option Nat) :=
  match book.closed.get? start with
  | some row => some (book.closedAt lives nowMs row, row.2)
  | none => (book.open_.get? start).map fun interval => (interval.atLife lives nowMs, none)

end Book

/-- The waits before a claim in events by ascending id. -/
def preClaimIntervals (events : List RunEvent) (nowMs : Int) : List PreClaimInterval :=
  (Book.of events).intervals (Lives.of events) nowMs

end Dagq.PreClaim
