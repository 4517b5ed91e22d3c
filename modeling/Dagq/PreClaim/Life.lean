/-
This file models the life of a supervisor as the events naming it tell it: its
stop, or else the latest time of its events, which ends it once enough time has
passed without another. An end that was read stays as it is at any later time,
until an event names the supervisor again.
-/

import Dagq.Ledger.Event
import Mathlib.Order.Basic

namespace Dagq.PreClaim

open Dagq.Ledger

def supervisorAliveIntervalSecs : Int := 300

def heartbeatTimeoutSecs : Int := 30

/-- How long after its last event a supervisor with no stop is read as silent. -/
def silentAfterMs : Int := (supervisorAliveIntervalSecs + heartbeatTimeoutSecs) * 1000

/-- What ended a supervisor's life, and when. -/
inductive LifeEnd where
  | stopped (atMs : Int)
  | silent (atMs : Int)
  deriving DecidableEq, Repr

def LifeEnd.atMs : LifeEnd → Int
  | stopped atMs => atMs
  | silent atMs => atMs

/-! ### One life -/

/-- The end the first stop gives, or else the latest time of the events; and the last event. -/
structure Life where
  stopped : Option Int := none
  last : Option Int := none
  lastId : Nat := 0

namespace Life

/-- The time a stop gives: the earlier of its own and the last heartbeat it carries. -/
def stopOf (event : RunEvent) (time : Int) : Int :=
  match ((event.payload.get "last_heartbeat_at").bind Value.asI64).bind
      fun secs => checked (secs * 1000) with
  | some heartbeat => min heartbeat time
  | none => time

/-- Read one event naming the supervisor: nothing after its stop, nothing without a time. -/
def read (life : Life) (event : RunEvent) : Life :=
  let life := { life with lastId := max life.lastId event.id }
  if life.stopped.isSome then life
  else
    match event.millis with
    | none => life
    | some time =>
      if event.kind = .supervisorStopped then { life with stopped := some (stopOf event time) }
      else { life with last := some ((life.last.map fun last => max last time).getD time) }

/-- The first time at which the life has ended as its events tell. -/
def endsFrom (life : Life) : Option Int :=
  if life.stopped.isSome then some i64Min
  else life.last.map fun last => saturatingAdd last (silentAfterMs + 1)

def endAt (life : Life) (nowMs : Int) : Option LifeEnd :=
  match life.stopped with
  | some time => some (.stopped time)
  | none =>
    match life.last, life.endsFrom with
    | some last, some from_ => if from_ ≤ nowMs then some (.silent last) else none
    | _, _ => none

/-- An end that was read is the end at any later time. -/
theorem endAt_later {life : Life} {before after : Int} {ended : LifeEnd}
    (found : life.endAt before = some ended) (later : before ≤ after) :
    life.endAt after = some ended := by
  obtain ⟨stopped, last, lastId⟩ := life
  cases stopped with
  | some time => exact found
  | none =>
    cases last with
    | none => exact found
    | some last =>
      by_cases passed : saturatingAdd last (silentAfterMs + 1) ≤ before
      · simp only [endAt, endsFrom, Option.isSome_none, Bool.false_eq_true, if_false,
          Option.map_some, if_pos passed, if_pos (passed.trans later)] at found ⊢
        exact found
      · simp [endAt, endsFrom, passed] at found

/-- A life has one end, whenever it is read. -/
theorem endAt_unique {life : Life} {first second : Int} {one two : LifeEnd}
    (atFirst : life.endAt first = some one) (atSecond : life.endAt second = some two) :
    one = two := by
  rcases le_total first second with later | later
  · exact Option.some.inj ((endAt_later atFirst later).symm.trans atSecond)
  · exact Option.some.inj (atFirst.symm.trans (endAt_later atSecond later))

end Life

/-! ### The lives of the supervisors -/

/-- The life of each supervisor an event named. -/
abbrev Lives := String → Option Life

namespace Lives

def add (lives : Lives) (event : RunEvent) : Lives :=
  match event.text "supervisor" with
  | some token => Function.update lives token (some (((lives token).getD {}).read event))
  | none => lives

def of (events : List RunEvent) : Lives := events.foldl add fun _ => none

/-- The end of a supervisor's life. -/
def endAt (lives : Lives) (token : String) (nowMs : Int) : Option LifeEnd :=
  (lives token).bind fun life => life.endAt nowMs

def endsFrom (lives : Lives) (token : String) : Option Int := (lives token).bind Life.endsFrom

theorem of_append_singleton (events : List RunEvent) (event : RunEvent) :
    of (events ++ [event]) = (of events).add event := by
  rw [of, List.foldl_append]
  rfl

/-- An event that does not name a supervisor leaves its life as it is. -/
theorem add_of_ne {lives : Lives} {event : RunEvent} {token : String}
    (unnamed : event.text "supervisor" ≠ some token) : lives.add event token = lives token := by
  rw [add]
  cases named : event.text "supervisor" with
  | none => rfl
  | some other =>
    have different : token ≠ other := fun same => unnamed (named.trans (congrArg some same.symm))
    exact Function.update_of_ne different _ _

theorem endAt_later {lives : Lives} {token : String} {before after : Int} {ended : LifeEnd}
    (found : lives.endAt token before = some ended) (later : before ≤ after) :
    lives.endAt token after = some ended := by
  obtain ⟨life, held, ends⟩ := Option.bind_eq_some_iff.mp found
  exact Option.bind_eq_some_iff.mpr ⟨life, held, Life.endAt_later ends later⟩

theorem endAt_unique {lives : Lives} {token : String} {first second : Int} {one two : LifeEnd}
    (atFirst : lives.endAt token first = some one)
    (atSecond : lives.endAt token second = some two) : one = two := by
  obtain ⟨life, held, ends⟩ := Option.bind_eq_some_iff.mp atFirst
  obtain ⟨other, also, endsToo⟩ := Option.bind_eq_some_iff.mp atSecond
  rw [held] at also
  obtain rfl := Option.some.inj also
  exact Life.endAt_unique ends endsToo

end Lives

end Dagq.PreClaim
