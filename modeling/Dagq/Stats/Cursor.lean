/-
This file models the cursors of the statistics: an event, or a time given in unix
seconds or by a date with its offset. A cursor is written for the queue service as the
event's number or as a time in UTC, and read there again. The reader takes years of four
digits only, so exactly the times of these are the same when they come back.
-/

import Dagq.Ledger.Calendar
import Dagq.Lib.Debug
import Dagq.Lib.Slices
import Dagq.Lib.Text

namespace Dagq.Stats

open Lib Ledger

/-- An event, or unix milliseconds. -/
inductive Cursor where
  | event (id : Int)
  | time (millis : Int)
  deriving DecidableEq, Repr

/-! ### Reading a time -/

/-- A number of eight bits: digits, after a plus or not. -/
def parseU8 (text : List Char) : Option Nat :=
  let digits :=
    match text with
    | '+' :: rest => rest
    | other => other
  (parseDigits digits).filter fun number => number ≤ 255

/-- The milliseconds that a text such as `+09:00` is ahead. -/
def offsetMillis (offset : List Char) : Option Int :=
  match offset with
  | [] => none
  | first :: rest => do
    let sign ← if first = '+' then some 1 else if first = '-' then some (-1) else none
    let (hours, minutes) ← splitOnce (· == ':') rest
    let hours ← parseU8 hours
    let minutes ← parseU8 minutes
    if 23 < hours ∨ 59 < minutes then none
    else some (sign * ((hours : Int) * 60 + minutes) * 60000)

/-- The local time of a text and the milliseconds it is ahead. -/
def splitOffset (text : List Char) : Option (List Char × Int) :=
  if text.getLast? = some 'Z' ∨ text.getLast? = some 'z' then some (text.dropLast, 0)
  else if byteLength text < 6 then none
  else do
    let (localTime, offset) ← splitAtByte (byteLength text - 6) text
    some (localTime, ← offsetMillis offset)

/-- A text starts with a year of four digits. -/
def startsWithYear (localTime : List Char) : Bool :=
  (splitAtByte 5 localTime).any fun parts =>
    parts.1.getLast? == some '-' && parts.1.dropLast.all Char.isDigit

/-- Unix milliseconds of a date and time with an offset, as 64 bits hold them. -/
def rfc3339Millis (text : List Char) : Option Int := do
  let (localTime, offset) ← splitOffset text
  if startsWithYear localTime then
    (timestampMillis (String.ofList localTime)).map fun millis => wrapped (millis - offset)
  else none

/-! ### Reading a cursor -/

def onlyDigits (text : List Char) : Bool := !text.isEmpty && text.all Char.isDigit

/-- The seconds after the `@` of a text. -/
def unixSeconds (text : List Char) : Option (List Char) :=
  match text with
  | '@' :: seconds => if onlyDigits seconds then some seconds else none
  | _ => none

section

variable (printable : Char → Bool)

/-- A cursor that a text is of. -/
def Cursor.fromStr (text : String) : Except String Cursor :=
  let text := trimmed text.toList
  let parsed :=
    if onlyDigits text then (parseInt text).map .event
    else
      match unixSeconds text with
      | some seconds => ((parseInt seconds).bind fun seconds => checked (seconds * 1000)).map .time
      | none => (rfc3339Millis text).map .time
  match parsed with
  | some cursor => .ok cursor
  | none => .error (String.ofList (debugText printable text) ++
      " is not an event id, @<unix seconds> or an RFC 3339 time such as 2026-09-26T08:52:00+09:00")

end

/-- A cursor as it is sent to the queue service. -/
def Cursor.text : Cursor → String
  | event id => toString id
  | time millis => utcText millis

end Dagq.Stats
