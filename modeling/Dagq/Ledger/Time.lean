/-
This file models the times of the queue: the text an event carries, read as unix
milliseconds, and a time written back as text. A time is an integer without a
bound; only the numbers in the text have to fit in 64 bits to be read.
-/

import Mathlib.Tactic

namespace Dagq.Ledger

/-! ### Numbers of 64 bits -/

def i64Min : Int := -9223372036854775808

def i64Max : Int := 9223372036854775807

/-- A number that fits in 64 bits. -/
def checked (number : Int) : Option Int :=
  if i64Min ≤ number ∧ number ≤ i64Max then some number else none

/-- A number as 64 bits hold it: a sum or a product past them wraps around. -/
def wrapped (number : Int) : Int := number.bmod (2 ^ 64)

@[simp] theorem wrapped_add_left (first second : Int) :
    wrapped (wrapped first + second) = wrapped (first + second) :=
  Int.bmod_add_bmod

theorem wrapped_of_fits {number : Int} (low : i64Min ≤ number) (high : number ≤ i64Max) :
    wrapped number = number := by
  unfold wrapped i64Min i64Max at *
  exact Int.bmod_eq_of_le (by omega) (by omega)

/-- The sum, or the bound it passes. -/
def saturatingAdd (first second : Int) : Int := max i64Min (min i64Max (first + second))

/-! ### Texts split at a character -/

/-- The text before and after the first character that satisfies `separator`. -/
def splitOnce (separator : Char → Bool) : List Char → Option (List Char × List Char)
  | [] => none
  | char :: rest =>
    if separator char then some ([], rest)
    else (splitOnce separator rest).map fun parts => (char :: parts.1, parts.2)

theorem splitOnce_eq_some_iff {separator : Char → Bool} {text first second : List Char} :
    splitOnce separator text = some (first, second) ↔
      ∃ char, separator char = true ∧ (∀ other ∈ first, separator other = false) ∧
        text = first ++ char :: second := by
  induction text generalizing first with
  | nil => simp [splitOnce]
  | cons head rest inductionHypothesis =>
    rw [splitOnce]
    by_cases separates : separator head = true
    · rw [if_pos separates, Option.some.injEq, Prod.mk.injEq]
      constructor
      · rintro ⟨rfl, rfl⟩
        exact ⟨head, separates, fun _ member => absurd member List.not_mem_nil, rfl⟩
      · rintro ⟨char, _, before, isCut⟩
        cases first with
        | nil => exact ⟨rfl, (List.cons.inj isCut).2⟩
        | cons other _ =>
          have isHead := (List.cons.inj isCut).1
          have kept := before other List.mem_cons_self
          rw [← isHead, separates] at kept
          cases kept
    · rw [if_neg separates, Option.map_eq_some_iff]
      constructor
      · rintro ⟨⟨before, after⟩, found, same⟩
        obtain ⟨isFirst, isSecond⟩ := Prod.mk.inj same
        subst isFirst isSecond
        obtain ⟨char, isSeparator, none_, isCut⟩ := inductionHypothesis.mp found
        refine ⟨char, isSeparator, List.forall_mem_cons.mpr ⟨by simpa using separates, none_⟩, ?_⟩
        rw [List.cons_append, ← isCut]
      · rintro ⟨char, isSeparator, none_, isCut⟩
        cases first with
        | nil =>
          rw [(List.cons.inj isCut).1] at separates
          exact absurd isSeparator separates
        | cons other before =>
          obtain ⟨isHead, isRest⟩ := List.cons.inj isCut
          refine ⟨(before, second), inductionHypothesis.mpr ⟨char, isSeparator,
            (List.forall_mem_cons.mp none_).2, isRest⟩, ?_⟩
          rw [isHead]

/-- The three parts a text has at the first two of a separator. -/
def splitThree (separator : Char) (text : List Char) :
    Option (List Char × List Char × List Char) := do
  let (first, rest) ← splitOnce (· == separator) text
  let (second, third) ← splitOnce (· == separator) rest
  some (first, second, third)

def parseDigits (digits : List Char) : Option Nat :=
  if digits ≠ [] ∧ digits.all Char.isDigit = true then
    some (digits.foldl (fun number digit => number * 10 + (digit.toNat - '0'.toNat)) 0)
  else none

/-- A number with an optional sign, of 64 bits. -/
def parseInt (text : List Char) : Option Int :=
  match text with
  | '-' :: digits => (parseDigits digits).bind fun number => checked (-number)
  | '+' :: digits => (parseDigits digits).bind fun number => checked number
  | digits => (parseDigits digits).bind fun number => checked number

/-! ### Times -/

/-- The first three characters of a fraction, padded with zeros. -/
def millisOf (fraction : List Char) : Option Int :=
  parseInt ((fraction.take 3) ++ List.replicate (3 - fraction.length) '0')

/-- The days from the first of January 1970 to a civil date. -/
def daysOf (year month day : Int) : Int :=
  let y := if month ≤ 2 then year - 1 else year
  let era := y / 400
  let yoe := y - era * 400
  let mp := (month + 9) % 12
  let doy := (153 * mp + 2) / 5 + day - 1
  let doe := yoe * 365 + yoe / 4 - yoe / 100 + doy
  era * 146097 + doe - 719468

/-- Unix milliseconds of a time of the queue, when the text is one. -/
def timestampMillis (text : String) : Option Int := do
  let chars := text.toList
  let chars := if chars.getLast? = some 'Z' then chars.dropLast else chars
  let (date, time) ← splitOnce (fun char => char == 'T' || char == ' ') chars
  let (yearText, monthText, dayText) ← splitThree '-' date
  let year ← parseInt yearText
  let month ← parseInt monthText
  let day ← parseInt dayText
  let (hourText, minuteText, seconds) ← splitThree ':' time
  let hour ← parseInt hourText
  let minute ← parseInt minuteText
  let (secondText, fraction) := (splitOnce (· == '.') seconds).getD (seconds, [])
  let second ← parseInt secondText
  let millis ← millisOf fraction
  if 1 ≤ month ∧ month ≤ 12 ∧ 1 ≤ day ∧ day ≤ 31 then
    some (((daysOf year month day * 24 + hour) * 60 + minute) * 60000 + second * 1000 + millis)
  else none

/-- A number in at least `width` characters, its sign among them. -/
def padded (width : Nat) (number : Int) : String :=
  let digits := toString number.natAbs
  let sign := if number < 0 then "-" else ""
  sign ++ String.ofList (List.replicate (width - sign.length - digits.length) '0') ++ digits

/-- Unix milliseconds as the text of a time. -/
def utcText (millis : Int) : String :=
  let days := millis / 86400000
  let rest := millis % 86400000
  let z := days + 719468
  let era := z / 146097
  let doe := z - era * 146097
  let yoe := (doe - doe / 1460 + doe / 36524 - doe / 146096) / 365
  let doy := doe - (365 * yoe + yoe / 4 - yoe / 100)
  let mp := (5 * doy + 2) / 153
  let day := doy - (153 * mp + 2) / 5 + 1
  let month := if mp < 10 then mp + 3 else mp - 9
  let year := yoe + era * 400 + if month ≤ 2 then 1 else 0
  padded 4 year ++ "-" ++ padded 2 month ++ "-" ++ padded 2 day ++ "T" ++
    padded 2 (rest / 3600000) ++ ":" ++ padded 2 (rest / 60000 % 60) ++ ":" ++
    padded 2 (rest / 1000 % 60) ++ "." ++ padded 3 (rest % 1000) ++ "Z"

end Dagq.Ledger
