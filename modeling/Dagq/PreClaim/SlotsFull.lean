/-
This file models how a supervisor keeps its full slots in its records. A pass finds
the classes whose slots are full; what changed since the pass before is recorded a
class at a time, each record with the classes it leaves open. A process that takes
the token over goes on from the newest of these records, and where that one cannot be
read or does not say, takes each class as the opposite of what its first pass finds.
-/

import Dagq.PreClaim.Book
import Mathlib.Data.Finset.Basic
import Mathlib.Data.Fintype.Basic

namespace Dagq.PreClaim

open Dagq.Lib Dagq.Ledger

/-! ### What a pass records -/

/-- Every class, in the order the sets list them. -/
def SlotClass.every : List SlotClass := [.heavy, .light]

instance : Fintype SlotClass where
  elems := {.heavy, .light}
  complete slotClass := by cases slotClass <;> decide

/-- A class newly full starts, one free again ends. -/
def slotsFullChanges (open_ full : Finset SlotClass) : List (EventKind × SlotClass) :=
  ((SlotClass.every.filter fun slotClass => slotClass ∈ full ∧ slotClass ∉ open_).map
      fun slotClass => (.slotsFullStarted, slotClass)) ++
    (SlotClass.every.filter fun slotClass => slotClass ∈ open_ ∧ slotClass ∉ full).map
      fun slotClass => (.slotsFullEnded, slotClass)

def slotsFullPayload (token : String) (slotClass : SlotClass) (open_ : Finset SlotClass)
    (running slots : Nat) : Value :=
  .object [("supervisor", .text token), ("class", .text slotClass.asStr),
    ("open", .list ((SlotClass.every.filter (· ∈ open_)).map fun slotClass =>
      .text slotClass.asStr)),
    ("running", .int running), ("slots", .int slots)]

/-- The classes open once a change is recorded. -/
def afterChange (open_ : Finset SlotClass) (change : EventKind × SlotClass) : Finset SlotClass :=
  if change.1 = .slotsFullStarted then insert change.2 open_ else open_.erase change.2

/-- Record one change by `record`, which says whether it was. -/
def recordChange {State : Type} (record : State → EventKind → SlotClass → Finset SlotClass →
    Bool × State) (recorded : Finset SlotClass × State) (change : EventKind × SlotClass) :
    Finset SlotClass × State :=
  let after := afterChange recorded.1 change
  let (made, state) := record recorded.2 change.1 change.2 after
  (if made then after else recorded.1, state)

/-- Record the changes to the classes now full. What is open follows each record made. -/
def recordSlotsFull {State : Type} (record : State → EventKind → SlotClass → Finset SlotClass →
    Bool × State) (state : State) (open_ full : Finset SlotClass) : Finset SlotClass × State :=
  (slotsFullChanges open_ full).foldl (recordChange record) (open_, state)

/-! ### What a record tells -/

/-- The classes a record says its supervisor's records leave open; none for one of an earlier
binary. -/
def recordedOpen (event : RunEvent) : Option (Finset SlotClass) :=
  ((event.payload.get "open").bind Value.asArray).bind fun items =>
    (items.mapM fun item : Value => item.asStr.bind SlotClass.of).map List.toFinset

/-- The later of two events, the second where their ids are the same. -/
def laterOf (best : Option RunEvent) (event : RunEvent) : Option RunEvent :=
  match best with
  | none => some event
  | some other => if other.id ≤ event.id then some event else some other

/-- Whether a supervisor has a heavy slot free, from the newest record of each. -/
def heavySlotsFree (newest : List RunEvent) (token : String) : Bool :=
  match (newest.filter fun event => event.text "supervisor" = some token).foldl laterOf none with
  | none => true
  | some event =>
    match recordedOpen event with
    | some open_ => decide (.heavy ∉ open_)
    | none =>
      decide ((event.text "class").bind SlotClass.of = some .heavy) &&
        decide (event.kind = .slotsFullEnded)

/-- What a process goes on from at its start, from its newest record or a read that failed. -/
def openAtStart (newest : Option (Option RunEvent)) (full : Finset SlotClass) :
    Finset SlotClass :=
  match newest with
  | some none => ∅
  | some (some event) => (recordedOpen event).getD (Finset.univ \ full)
  | none => Finset.univ \ full

/-! ### The records kept -/

/-- It records a supervisor's slots full, or their end. -/
def IsSlotsFull (token : String) (event : RunEvent) : Prop :=
  (event.kind = .slotsFullStarted ∨ event.kind = .slotsFullEnded) ∧
    event.text "supervisor" = some token

instance (token : String) (event : RunEvent) : Decidable (IsSlotsFull token event) :=
  inferInstanceAs (Decidable (_ ∧ _))

/-- The newest record of a supervisor. -/
def newestOf (events : List RunEvent) (token : String) : Option RunEvent :=
  (events.filter fun event => IsSlotsFull token event).getLast?

/-- The newest record of each of the supervisors, by id. -/
def latestEventsBySupervisor (events : List RunEvent) (tokens : List String) : List RunEvent :=
  events.filter fun event =>
    tokens.any fun token => (newestOf events token).map (·.id) = some event.id

/-! ### A supervisor's passes -/

/-- One record as it is tried: the events of others recorded before it, whether it was made, and
what it was made with. -/
structure Attempt where
  others : List RunEvent := []
  made : Bool := true
  id : Nat
  createdAt : String := ""
  running : Nat := 0
  slots : Nat := 0

/-- The records and what the supervisor's process takes to be open, unless its first pass is yet to
come. -/
structure Passing where
  events : List RunEvent
  slotsFull : Option (Finset SlotClass) := none

/-- Try to record a change among the events. -/
def tryRecord (token : String) (attempts : SlotClass → Attempt) (events : List RunEvent)
    (kind : EventKind) (slotClass : SlotClass) (after : Finset SlotClass) :
    Bool × List RunEvent :=
  let attempt := attempts slotClass
  let events := events ++ attempt.others
  if attempt.made then
    (true, events ++ [{
      id := attempt.id
      kind := kind
      payload := slotsFullPayload token slotClass after attempt.running attempt.slots
      createdAt := attempt.createdAt }])
  else (false, events)

namespace Passing

/-- What the pass goes on from. -/
def opening (passing : Passing) (token : String) (readFails : Bool) (full : Finset SlotClass) :
    Finset SlotClass :=
  match passing.slotsFull with
  | some open_ => open_
  | none =>
    openAtStart (if readFails then none else some (newestOf passing.events token)) full

/-- A pass that finds the classes of `full` full. -/
def noteSlotsFull (passing : Passing) (token : String) (readFails : Bool)
    (full : Finset SlotClass) (attempts : SlotClass → Attempt) : Passing :=
  let (open_, events) := recordSlotsFull (tryRecord token attempts) passing.events
    (passing.opening token readFails full) full
  { events := events, slotsFull := some open_ }

/-- What comes over a supervisor. -/
inductive Step where
  | pass (readFails : Bool) (full : Finset SlotClass) (attempts : SlotClass → Attempt)
  | replaced
  | others (events : List RunEvent)

def step (token : String) (passing : Passing) : Step → Passing
  | .pass readFails full attempts => passing.noteSlotsFull token readFails full attempts
  | .replaced => { passing with slotsFull := none }
  | .others events => { passing with events := passing.events ++ events }

end Passing

end Dagq.PreClaim
