/-
This file models how the time a usage limit resets is read from a provider's text: unix
seconds after one of two markers, or else a span of time after ` in `, added to now. A
sum or a product past 64 bits, a slice inside a character and a loop that is not done
each stop the reading.
-/

import Dagq.Ledger.Time
import Dagq.Lib.Slices
import Dagq.Lib.Text

namespace Dagq.Turns

open Lib Ledger

/-- What stops a reading without a result. -/
inductive Fault where
  | overflow
  | slice
  | unfinished
  deriving DecidableEq, Repr

/-- A number that 64 bits hold. -/
def held (number : Int) : Except Fault Int :=
  match checked number with
  | some number => .ok number
  | none => .error .overflow

/-- The text from a byte on. -/
def sliceFrom (text : List Char) (at_ : Nat) : Except Fault (List Char) :=
  match splitAtByte at_ text with
  | some (_, rest) => .ok rest
  | none => .error .slice

/-- The longest that a reset read from a provider's text holds its provider. -/
def maxResetSecs : Int := 7 * 24 * 60 * 60

/-! ### A span of time -/

/-- A text past the words `and` in front. -/
def dropAnds : List Char → List Char
  | 'a' :: 'n' :: 'd' :: ' ' :: rest => dropAnds rest
  | text => text

/-- The seconds of a unit of time. -/
def unitSize (unit : List Char) : Option Nat :=
  if String.ofList unit ∈ ["d", "day", "days"] then some 86400
  else if String.ofList unit ∈ ["h", "hr", "hrs", "hour", "hours"] then some 3600
  else if String.ofList unit ∈ ["m", "min", "mins", "minute", "minutes"] then some 60
  else if String.ofList unit ∈ ["s", "sec", "secs", "second", "seconds"] then some 1
  else none

/-- What the loop over a span's numbers holds. -/
structure Span where
  secs : Int := 0
  read : Bool := false
  rest : List Char

/-- How a round of the loop ends. -/
inductive Round where
  | next (span : Span)
  | done
  | unread

def spanRound (span : Span) : Except Fault Round := do
  let rest := dropAnds (span.rest.dropWhile fun char => char == ' ' || char == ',')
  let digits := rest.takeWhile Char.isDigit
  if digits.isEmpty then .ok .done
  else
    match parseInt digits with
    | none => .ok .unread
    | some number =>
      let rest := (← sliceFrom rest (byteLength digits)).dropWhile isWhiteSpace
      let unit := rest.takeWhile Char.isAlpha
      match unitSize unit with
      | none => .ok .done
      | some size =>
        let secs ← held (span.secs + (← held (number * size)))
        .ok (.next ⟨secs, true, ← sliceFrom rest (byteLength unit)⟩)

def spanLoop : Nat → Span → Except Fault (Option Int)
  | 0, _ => .error .unfinished
  | fuel + 1, span => do
    match ← spanRound span with
    | .next span => spanLoop fuel span
    | .done => .ok (if span.read then some span.secs else none)
    | .unread => .ok none

/-- The seconds of a span at the start of a text; each round takes a character at least. -/
def spanSecs (text : List Char) : Except Fault (Option Int) :=
  spanLoop (text.length + 1) { rest := text }

/-! ### The time of a reset -/

/-- The unix seconds after a marker: ten digits. -/
def epochAfter (lower marker : List Char) : Except Fault (Option Int) :=
  (matchIndices marker lower).findSomeM? fun at_ => do
    let rest ← sliceFrom lower (at_ + byteLength marker)
    let digits := (rest.dropWhile isWhiteSpace).takeWhile Char.isDigit
    .ok (if byteLength digits = 10 then parseInt digits else none)

/-- The seconds of the first span after ` in `. -/
def spanAfter (lower : List Char) : Except Fault (Option Int) :=
  (matchIndices " in ".toList lower).findSomeM? fun at_ => do
    spanSecs (← sliceFrom lower (at_ + 4))

/-- The time that a text tells: after a marker, or a span from now. -/
def resetTime (lower : List Char) (now : Int) : Except Fault (Option Int) := do
  match ← epochAfter lower "|".toList with
  | some at_ => .ok (some at_)
  | none =>
    match ← epochAfter lower "resets at".toList with
    | some at_ => .ok (some at_)
    | none =>
      match ← spanAfter lower with
      | some secs => (held (now + secs)).map some
      | none => .ok none

/-- When the usage limit that a provider's text reports resets: not in the past, and not further away
than the longest hold. -/
def resetAt (text : String) (now : Int) : Except Fault (Option Int) := do
  match ← resetTime (text.toList.map Char.toLower) now with
  | none => .ok none
  | some at_ =>
    if now ≤ at_ then
      (held (at_ - now)).map fun away => if away ≤ maxResetSecs then some at_ else none
    else .ok none

example : (resetAt "rate limited; retry in 1 day, 3 hours and 5 minutes" 1000).toOption =
    some (some (1000 + 97500)) := by decide

end Dagq.Turns
