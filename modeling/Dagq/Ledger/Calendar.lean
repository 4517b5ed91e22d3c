/-
This file proves that the text of a time reads back as the time. The civil date of a day
is found through the years from March of the era of 400 years it is in; the day of a
civil date goes back through the same numbers. Dates are in the order of their days, so
the texts of times of four-digit years are in the order of the times.
-/

import Mathlib.Data.String.Basic
import Dagq.Ledger.Time
import Dagq.Lib.Digits

namespace Dagq.Ledger

open Lib

/-! ### The civil date of a day -/

/-- The day of its era of 400 years, from the first of March of the year 0. -/
def eraDay (days : Int) : Int := days + 719468 - (days + 719468) / 146097 * 146097

/-- The days past the leap days before it, over which the years of an era are even. -/
def evenDay (doe : Int) : Int := doe - doe / 1460 + doe / 36524 - doe / 146096

def eraYear (doe : Int) : Int := evenDay doe / 365

def yearDay (doe : Int) : Int := doe - (365 * eraYear doe + eraYear doe / 4 - eraYear doe / 100)

/-- The month from March. -/
def marchMonth (doe : Int) : Int := (5 * yearDay doe + 2) / 153

def civilDay (days : Int) : Int :=
  yearDay (eraDay days) - (153 * marchMonth (eraDay days) + 2) / 5 + 1

def civilMonth (days : Int) : Int :=
  if marchMonth (eraDay days) < 10 then marchMonth (eraDay days) + 3
  else marchMonth (eraDay days) - 9

def civilYear (days : Int) : Int :=
  eraYear (eraDay days) + (days + 719468) / 146097 * 400 + if civilMonth days ≤ 2 then 1 else 0

theorem eraDay_bounds (days : Int) : 0 ≤ eraDay days ∧ eraDay days < 146097 := by
  unfold eraDay
  omega

section

variable {doe : Int}

/-- The leap days before a day grow no faster than the days. -/
theorem eraYear_mono {later : Int} (isLater : doe ≤ later) : eraYear doe ≤ eraYear later := by
  have : evenDay doe ≤ evenDay later := by
    unfold evenDay
    omega
  unfold eraYear
  omega

variable (low : 0 ≤ doe) (high : doe < 146097)

include low high

theorem eraYear_bounds : 0 ≤ eraYear doe ∧ eraYear doe < 400 := by
  unfold eraYear evenDay
  omega

theorem yearDay_bounds : 0 ≤ yearDay doe ∧ yearDay doe ≤ 365 := by
  -- The year is found in its cycle of four years, which are one day longer than 4 * 365.
  obtain ⟨cycle, isCycle⟩ : ∃ cycle, cycle = doe / 1460 := ⟨_, rfl⟩
  obtain ⟨rest, isRest⟩ : ∃ rest, rest = doe % 1460 := ⟨_, rfl⟩
  obtain ⟨century, isCentury⟩ : ∃ century, century = doe / 36524 := ⟨_, rfl⟩
  obtain ⟨last, isLast⟩ : ∃ last, last = doe / 146096 := ⟨_, rfl⟩
  obtain ⟨inCycle, isIn⟩ : ∃ inCycle, inCycle = (rest - cycle + century - last) / 365 := ⟨_, rfl⟩
  have parts : doe = 1460 * cycle + rest := by omega
  have year : eraYear doe = 4 * cycle + inCycle := by
    unfold eraYear evenDay
    omega
  have ⟨lowYear, highYear⟩ : -1 ≤ inCycle ∧ inCycle ≤ 3 := by omega
  have ⟨lowCentury, highCentury⟩ : 0 ≤ century ∧ century ≤ 4 := by omega
  have leapYears : eraYear doe / 4 = cycle + inCycle / 4 := by omega
  unfold yearDay
  rw [leapYears, year]
  interval_cases inCycle <;> interval_cases century <;> omega

theorem marchMonth_bounds : 0 ≤ marchMonth doe ∧ marchMonth doe ≤ 11 := by
  have := yearDay_bounds low high
  unfold marchMonth
  omega

end

theorem civilMonth_bounds (days : Int) : 1 ≤ civilMonth days ∧ civilMonth days ≤ 12 := by
  obtain ⟨low, high⟩ := eraDay_bounds days
  have := marchMonth_bounds low high
  unfold civilMonth
  split <;> omega

theorem civilDay_bounds (days : Int) : 1 ≤ civilDay days ∧ civilDay days ≤ 31 := by
  unfold civilDay marchMonth
  omega

/-- The date of a day is of that day. -/
theorem daysOf_civil (days : Int) :
    daysOf (civilYear days) (civilMonth days) (civilDay days) = days := by
  obtain ⟨low, high⟩ := eraDay_bounds days
  have year := eraYear_bounds low high
  have month := marchMonth_bounds low high
  have isYear : (if civilMonth days ≤ 2 then civilYear days - 1 else civilYear days) =
      eraYear (eraDay days) + (days + 719468) / 146097 * 400 := by
    unfold civilYear
    split <;> omega
  have isMonth : (civilMonth days + 9) % 12 = marchMonth (eraDay days) := by
    unfold civilMonth
    split <;> omega
  have era : (eraYear (eraDay days) + (days + 719468) / 146097 * 400) / 400 =
      (days + 719468) / 146097 := by omega
  unfold daysOf
  simp only [isYear, isMonth, era]
  rw [civilDay, Int.add_sub_cancel]
  have isDay : yearDay (eraDay days) = eraDay days - (365 * eraYear (eraDay days) +
    eraYear (eraDay days) / 4 - eraYear (eraDay days) / 100) := rfl
  have isEra : eraDay days = days + 719468 - (days + 719468) / 146097 * 146097 := rfl
  rw [isDay]
  omega

/-! ### The order of dates -/

/-- The months from the year 0 are those from its March. -/
theorem civil_months (days : Int) : 12 * civilYear days + civilMonth days =
    12 * (eraYear (eraDay days) + (days + 719468) / 146097 * 400) +
      marchMonth (eraDay days) + 3 := by
  obtain ⟨low, high⟩ := eraDay_bounds days
  have month := marchMonth_bounds low high
  unfold civilYear civilMonth
  split <;> split <;> omega

/-- A later day is of a later month, or is later in its month. -/
theorem civil_lt {days later : Int} (isLater : days < later) :
    12 * civilYear days + civilMonth days < 12 * civilYear later + civilMonth later ∨
      12 * civilYear days + civilMonth days = 12 * civilYear later + civilMonth later ∧
        civilDay days < civilDay later := by
  obtain ⟨low, high⟩ := eraDay_bounds days
  obtain ⟨laterLow, laterHigh⟩ := eraDay_bounds later
  have year := eraYear_bounds low high
  have laterYear := eraYear_bounds laterLow laterHigh
  have month := marchMonth_bounds low high
  have laterMonth := marchMonth_bounds laterLow laterHigh
  rw [civil_months, civil_months]
  rcases lt_or_ge ((days + 719468) / 146097) ((later + 719468) / 146097) with earlierEra | sameEra
  · omega
  · have isSame : (days + 719468) / 146097 = (later + 719468) / 146097 := by omega
    have inEra : eraDay days < eraDay later := by
      unfold eraDay
      omega
    rcases lt_or_eq_of_le (eraYear_mono inEra.le) with earlierYear | sameYear
    · omega
    · have inYear : yearDay (eraDay days) < yearDay (eraDay later) := by
        unfold yearDay
        rw [sameYear]
        omega
      have months : marchMonth (eraDay days) ≤ marchMonth (eraDay later) := by
        unfold marchMonth
        omega
      rcases lt_or_eq_of_le months with earlierMonth | sameMonth
      · omega
      · refine .inr ⟨by rw [isSame, sameYear, sameMonth], ?_⟩
        unfold civilDay
        rw [sameMonth]
        omega

theorem civilYear_mono {days later : Int} (isLater : days ≤ later) :
    civilYear days ≤ civilYear later := by
  rcases lt_or_eq_of_le isLater with earlier | rfl
  · have month := civilMonth_bounds days
    have laterMonth := civilMonth_bounds later
    have := civil_lt earlier
    omega
  · exact le_rfl

/-- The days of the years of four digits. -/
theorem civilYear_fits {days : Int} :
    0 ≤ civilYear days ∧ civilYear days ≤ 9999 ↔ -719528 ≤ days ∧ days ≤ 2932896 := by
  constructor
  · rintro ⟨isPositive, fits⟩
    constructor
    · by_contra before
      have year := civilYear_mono (show days ≤ -719529 by omega)
      have : civilYear (-719529) = -1 := by decide
      omega
    · by_contra after
      have year := civilYear_mono (show 2932897 ≤ days by omega)
      have : civilYear 2932897 = 10000 := by decide
      omega
  · rintro ⟨low, high⟩
    have first := civilYear_mono low
    have last := civilYear_mono high
    have : civilYear (-719528) = 0 := by decide
    have : civilYear 2932896 = 9999 := by decide
    omega

/-! ### Numbers in their places -/

theorem padded_eq_digits {width number : Nat} (positive : 0 < width) (fits : number < 10 ^ width) :
    (padded width number).toList = digits width number := by
  have sign : (if (number : Int) < 0 then "-" else "") = "" := if_neg (by omega)
  simp only [padded, sign, String.toList_append, String.toList_ofList, Int.natAbs_natCast,
    String.length_empty, Nat.sub_zero]
  rw [Nat.toString_eq_ofList_toDigits, String.length_ofList]
  simp only [String.toList_ofList]
  exact zeros_append_toDigits positive fits

theorem parseDigits_eq {text : List Char} (some : text ≠ [])
    (digits : ∀ char ∈ text, char.isDigit = true) :
    parseDigits text = Option.some (Nat.ofDigitChars 10 text 0) := by
  rw [parseDigits, if_pos ⟨some, List.all_eq_true.mpr digits⟩, Nat.ofDigitChars_eq_foldl]
  simp only [Nat.mul_comm]

/-- Digits are read as a number without a sign. -/
theorem parseInt_eq {text : List Char} (some : text ≠ [])
    (digits : ∀ char ∈ text, char.isDigit = true) :
    parseInt text = checked (Nat.ofDigitChars 10 text 0) := by
  have isNumber := parseDigits_eq some digits
  unfold parseInt
  split
  · next rest => exact absurd (digits '-' List.mem_cons_self) (by decide)
  · next rest => exact absurd (digits '+' List.mem_cons_self) (by decide)
  · rw [isNumber, Option.bind_some]

theorem parseInt_digits {width number : Nat} (positive : 0 < width) (fits : number < 10 ^ width)
    (small : width ≤ 18) : parseInt (digits width number) = some (number : Int) := by
  rw [parseInt_eq (digits_ne_nil positive number) fun _ => isDigit_of_mem_digits,
    ofDigitChars_digits fits, checked]
  have : number < 10 ^ 18 := fits.trans_le (Nat.pow_le_pow_right (by decide) small)
  unfold i64Min i64Max
  rw [if_pos (by omega)]

theorem millisOf_digits {millis : Nat} (fits : millis < 1000) :
    millisOf (digits 3 millis) = some (millis : Int) := by
  have whole : (digits 3 millis).take 3 = digits 3 millis :=
    List.take_of_length_le (length_digits 3 millis).le
  rw [millisOf, whole, length_digits, Nat.sub_self, List.replicate_zero, List.append_nil]
  exact parseInt_digits (by decide) fits (by decide)

/-- A text is cut at the first separator after digits. -/
theorem splitOnce_digits {char : Char} (notDigit : char.isDigit = false) (width number : Nat)
    (rest : List Char) :
    splitOnce (· == char) (digits width number ++ char :: rest) = some (digits width number, rest) := by
  refine splitOnce_eq_some_iff.mpr ⟨char, by simp, fun other among => ?_, rfl⟩
  by_contra same
  have isDigit := isDigit_of_mem_digits among
  have isChar : other = char := by simpa using same
  rw [isChar, notDigit] at isDigit
  cases isDigit

/-! ### The text of a time -/

/-- A date and a time in their places. -/
structure Stamp where
  year : Nat
  month : Nat
  day : Nat
  hour : Nat
  minute : Nat
  second : Nat
  millis : Nat

namespace Stamp

structure Fits (stamp : Stamp) : Prop where
  year : stamp.year < 10000
  monthLow : 1 ≤ stamp.month
  month : stamp.month ≤ 12
  dayLow : 1 ≤ stamp.day
  day : stamp.day ≤ 31
  hour : stamp.hour < 24
  minute : stamp.minute < 60
  second : stamp.second < 60
  millis : stamp.millis < 1000

def date (stamp : Stamp) : List Char :=
  digits 4 stamp.year ++ '-' :: (digits 2 stamp.month ++ '-' :: digits 2 stamp.day)

def time (stamp : Stamp) : List Char :=
  digits 2 stamp.hour ++ ':' :: (digits 2 stamp.minute ++ ':' ::
    (digits 2 stamp.second ++ '.' :: digits 3 stamp.millis))

def text (stamp : Stamp) : List Char := stamp.date ++ 'T' :: stamp.time

/-- The time that a date and a time are of. -/
def at_ (stamp : Stamp) : Int :=
  ((daysOf stamp.year stamp.month stamp.day * 24 + stamp.hour) * 60 + stamp.minute) * 60000 +
    stamp.second * 1000 + stamp.millis

theorem splitThree_date (stamp : Stamp) : splitThree '-' stamp.date =
    some (digits 4 stamp.year, digits 2 stamp.month, digits 2 stamp.day) := by
  unfold splitThree date
  rw [splitOnce_digits (by decide)]
  dsimp only [bind, Option.bind]
  rw [splitOnce_digits (by decide)]

theorem splitThree_time (stamp : Stamp) : splitThree ':' stamp.time =
    some (digits 2 stamp.hour, digits 2 stamp.minute,
      digits 2 stamp.second ++ '.' :: digits 3 stamp.millis) := by
  unfold splitThree time
  rw [splitOnce_digits (by decide)]
  dsimp only [bind, Option.bind]
  rw [splitOnce_digits (by decide)]

theorem splitOnce_text (stamp : Stamp) :
    splitOnce (fun char => char == 'T' || char == ' ') stamp.text = some (stamp.date, stamp.time) := by
  refine splitOnce_eq_some_iff.mpr ⟨'T', by decide, fun char among => ?_, rfl⟩
  by_contra separates
  have isDate : char.isDigit = true ∨ char = '-' := by
    simp only [date, List.mem_append, List.mem_cons] at among
    rcases among with isYear | isDash | isMonth | isDash | isDay
    · exact .inl (isDigit_of_mem_digits isYear)
    · exact .inr isDash
    · exact .inl (isDigit_of_mem_digits isMonth)
    · exact .inr isDash
    · exact .inl (isDigit_of_mem_digits isDay)
  simp only [Bool.not_eq_false, Bool.or_eq_true, beq_iff_eq] at separates
  rcases separates with rfl | rfl
  · exact absurd isDate (by decide)
  · exact absurd isDate (by decide)

theorem text_ends (stamp : Stamp) :
    ∃ before digit, stamp.text = before ++ [digit] ∧ digit.isDigit = true := by
  refine ⟨stamp.date ++ 'T' :: (digits 2 stamp.hour ++ ':' :: (digits 2 stamp.minute ++ ':' ::
    (digits 2 stamp.second ++ '.' :: digits 2 (stamp.millis / 10)))),
    Nat.digitChar (stamp.millis % 10), ?_, by simpa using Nat.mod_lt stamp.millis (by decide)⟩
  simp [text, time, digits]

/-- A date and a time in their places are read, with a `Z` after them or without. -/
theorem timestampMillis_text {stamp : Stamp} (fits : stamp.Fits) {zone : List Char}
    (isZone : zone = [] ∨ zone = ['Z']) :
    timestampMillis (String.ofList (stamp.text ++ zone)) = some stamp.at_ := by
  have stripped : (if (stamp.text ++ zone).getLast? = some 'Z' then (stamp.text ++ zone).dropLast
      else stamp.text ++ zone) = stamp.text := by
    rcases isZone with rfl | rfl
    · obtain ⟨before, digit, isText, isDigit⟩ := stamp.text_ends
      rw [List.append_nil, isText, List.getLast?_concat, if_neg]
      intro isZone
      rw [Option.some.inj isZone] at isDigit
      exact absurd isDigit (by decide)
    · rw [List.getLast?_concat, if_pos rfl, List.dropLast_concat]
  have number : ∀ (width : Nat) {number : Nat}, 0 < width ∧ width ≤ 18 → number < 10 ^ width →
      parseInt (digits width number) = some (number : Int) :=
    fun _ _ width fits => parseInt_digits width.1 fits width.2
  have month : (1 : Int) ≤ stamp.month ∧ (stamp.month : Int) ≤ 12 ∧ (1 : Int) ≤ stamp.day ∧
      (stamp.day : Int) ≤ 31 := by
    have := fits.monthLow
    have := fits.month
    have := fits.dayLow
    have := fits.day
    omega
  unfold timestampMillis
  simp only [String.toList_ofList, stripped, splitOnce_text, splitThree_date, splitThree_time,
    bind, Option.bind, splitOnce_digits (by decide : '.'.isDigit = false), Option.getD_some,
    millisOf_digits fits.millis, number 4 (by decide) (fits.year.trans_le (by decide)),
    number 2 (by decide) (fits.month.trans_lt (by decide)),
    number 2 (by decide) (fits.day.trans_lt (by decide)),
    number 2 (by decide) (fits.hour.trans (by decide)),
    number 2 (by decide) (fits.minute.trans (by decide)),
    number 2 (by decide) (fits.second.trans (by decide)), if_pos month]
  rfl

/-- A later date, or a later time of one date, is a later text. -/
theorem text_lt_of_date {first second : Stamp} (firstFits : first.Fits) (fits : second.Fits)
    (isLater : 12 * first.year + first.month < 12 * second.year + second.month ∨
      12 * first.year + first.month = 12 * second.year + second.month ∧ first.day < second.day) :
    first.text < second.text := by
  refine append_lt_append_of_lt (by simp [date]) ?_
  have := fits.monthLow
  have := fits.month
  have := firstFits.monthLow
  have := firstFits.month
  rcases lt_trichotomy first.year second.year with earlier | sameYear | later
  · exact append_lt_append_of_lt (by simp) (digits_lt (fits.year.trans_le (by decide)) earlier)
  · rw [date, date, sameYear]
    refine List.append_left_lt (List.cons_lt_cons_iff.mpr (.inr ⟨rfl, ?_⟩))
    rcases lt_trichotomy first.month second.month with earlier | sameMonth | later
    · exact append_lt_append_of_lt (by simp)
        (digits_lt (fits.month.trans_lt (by decide)) earlier)
    · rw [sameMonth]
      refine List.append_left_lt (List.cons_lt_cons_iff.mpr (.inr ⟨rfl, ?_⟩))
      exact digits_lt (fits.day.trans_lt (by decide)) (by omega)
    · omega
  · omega

theorem text_lt_of_time {first second : Stamp} (firstFits : first.Fits) (fits : second.Fits)
    (sameDate : first.date = second.date)
    (isLater : ((first.hour * 60 + first.minute) * 60 + first.second) * 1000 + first.millis <
      ((second.hour * 60 + second.minute) * 60 + second.second) * 1000 + second.millis) :
    first.text < second.text := by
  rw [text, text, sameDate]
  refine List.append_left_lt (List.cons_lt_cons_iff.mpr (.inr ⟨rfl, ?_⟩))
  have := firstFits.minute
  have := firstFits.second
  have := firstFits.millis
  have := fits.minute
  have := fits.second
  have := fits.millis
  unfold time
  rcases lt_trichotomy first.hour second.hour with earlier | sameHour | later
  · exact append_lt_append_of_lt (by simp) (digits_lt (fits.hour.trans (by decide)) earlier)
  · rw [sameHour]
    refine List.append_left_lt (List.cons_lt_cons_iff.mpr (.inr ⟨rfl, ?_⟩))
    rcases lt_trichotomy first.minute second.minute with earlier | sameMinute | later
    · exact append_lt_append_of_lt (by simp) (digits_lt (fits.minute.trans (by decide)) earlier)
    · rw [sameMinute]
      refine List.append_left_lt (List.cons_lt_cons_iff.mpr (.inr ⟨rfl, ?_⟩))
      rcases lt_trichotomy first.second second.second with earlier | sameSecond | later
      · exact append_lt_append_of_lt (by simp) (digits_lt (fits.second.trans (by decide)) earlier)
      · rw [sameSecond]
        refine List.append_left_lt (List.cons_lt_cons_iff.mpr (.inr ⟨rfl, ?_⟩))
        exact digits_lt fits.millis (by omega)
      · omega
    · omega
  · omega

end Stamp

/-! ### Times of four-digit years -/

/-- The first millisecond of the year 0. -/
def firstMillis : Int := -62167219200000

/-- The last millisecond of the year 9999. -/
def lastMillis : Int := 253402300799999

/-- The year of a time has four digits. -/
def InYears (millis : Int) : Prop := firstMillis ≤ millis ∧ millis ≤ lastMillis

instance (millis : Int) : Decidable (InYears millis) := inferInstanceAs (Decidable (_ ∧ _))

theorem inYears_iff {millis : Int} : InYears millis ↔
    0 ≤ civilYear (millis / 86400000) ∧ civilYear (millis / 86400000) ≤ 9999 := by
  rw [civilYear_fits]
  unfold InYears firstMillis lastMillis
  omega

def Stamp.of (millis : Int) : Stamp where
  year := (civilYear (millis / 86400000)).toNat
  month := (civilMonth (millis / 86400000)).toNat
  day := (civilDay (millis / 86400000)).toNat
  hour := (millis % 86400000 / 3600000).toNat
  minute := (millis % 86400000 / 60000 % 60).toNat
  second := (millis % 86400000 / 1000 % 60).toNat
  millis := (millis % 86400000 % 1000).toNat

theorem Stamp.of_fits {millis : Int} (inYears : InYears millis) : (Stamp.of millis).Fits := by
  have year := inYears_iff.mp inYears
  have month := civilMonth_bounds (millis / 86400000)
  have day := civilDay_bounds (millis / 86400000)
  constructor <;> simp only [Stamp.of] <;> omega

/-- The time of the date and time of a time is the time. -/
theorem Stamp.at_of {millis : Int} (inYears : InYears millis) : (Stamp.of millis).at_ = millis := by
  have year := inYears_iff.mp inYears
  have month := civilMonth_bounds (millis / 86400000)
  have day := civilDay_bounds (millis / 86400000)
  have isDay := daysOf_civil (millis / 86400000)
  unfold Stamp.at_ Stamp.of
  rw [Int.toNat_of_nonneg year.1, Int.toNat_of_nonneg (by omega), Int.toNat_of_nonneg (by omega),
    isDay]
  dsimp only
  omega

theorem Stamp.of_time (millis : Int) :
    (((Stamp.of millis).hour * 60 + (Stamp.of millis).minute) * 60 + (Stamp.of millis).second) * 1000 +
      (Stamp.of millis).millis = (millis % 86400000).toNat := by
  dsimp only [Stamp.of]
  omega

theorem utcText_eq {millis : Int} (inYears : InYears millis) :
    (utcText millis).toList = (Stamp.of millis).text ++ ['Z'] := by
  obtain ⟨year, monthLow, month, dayLow, day, hour, minute, second, rest⟩ := Stamp.of_fits inYears
  obtain ⟨positive, _⟩ := inYears_iff.mp inYears
  have monthBounds := civilMonth_bounds (millis / 86400000)
  have dayBounds := civilDay_bounds (millis / 86400000)
  have isText : utcText millis = padded 4 (civilYear (millis / 86400000)) ++ "-" ++
      padded 2 (civilMonth (millis / 86400000)) ++ "-" ++ padded 2 (civilDay (millis / 86400000)) ++
      "T" ++ padded 2 (millis % 86400000 / 3600000) ++ ":" ++
      padded 2 (millis % 86400000 / 60000 % 60) ++ ":" ++
      padded 2 (millis % 86400000 / 1000 % 60) ++ "." ++ padded 3 (millis % 86400000 % 1000) ++
      "Z" := rfl
  have written : ∀ (width : Nat) {number : Int}, 0 < width → 0 ≤ number →
      number.toNat < 10 ^ width → (padded width number).toList = digits width number.toNat := by
    intro width number wide positive fits
    rw [← padded_eq_digits wide fits, Int.toNat_of_nonneg positive]
  rw [isText]
  simp only [String.toList_append, written 4 (by decide) positive (year.trans_le (by decide)),
    written 2 (by decide) (by omega : 0 ≤ civilMonth (millis / 86400000))
      (month.trans_lt (by decide)),
    written 2 (by decide) (by omega : 0 ≤ civilDay (millis / 86400000))
      (day.trans_lt (by decide)),
    written 2 (by decide) (by omega : 0 ≤ millis % 86400000 / 3600000)
      (hour.trans (by decide)),
    written 2 (by decide) (by omega : 0 ≤ millis % 86400000 / 60000 % 60)
      (minute.trans (by decide)),
    written 2 (by decide) (by omega : 0 ≤ millis % 86400000 / 1000 % 60)
      (second.trans (by decide)),
    written 3 (by decide) (by omega : 0 ≤ millis % 86400000 % 1000) rest]
  simp [Stamp.text, Stamp.date, Stamp.time, Stamp.of]

/-- Times of four-digit years are in the order of their texts. -/
theorem utcText_lt {first second : Int} (inYears : InYears first) (alsoInYears : InYears second)
    (isLess : first < second) : utcText first < utcText second := by
  rw [String.lt_iff, utcText_eq inYears, utcText_eq alsoInYears]
  refine append_lt_append_of_lt (by simp [Stamp.text, Stamp.date, Stamp.time]) ?_
  have firstFits := Stamp.of_fits inYears
  have fits := Stamp.of_fits alsoInYears
  obtain ⟨positive, _⟩ := inYears_iff.mp inYears
  obtain ⟨alsoPositive, _⟩ := inYears_iff.mp alsoInYears
  have month := civilMonth_bounds (first / 86400000)
  have otherMonth := civilMonth_bounds (second / 86400000)
  have day := civilDay_bounds (first / 86400000)
  have otherDay := civilDay_bounds (second / 86400000)
  rcases lt_or_ge (first / 86400000) (second / 86400000) with earlierDay | sameDay
  · refine Stamp.text_lt_of_date firstFits fits ?_
    have isLater := civil_lt earlierDay
    simp only [Stamp.of]
    omega
  · have isSame : first / 86400000 = second / 86400000 := by omega
    refine Stamp.text_lt_of_time firstFits fits ?_ ?_
    · simp only [Stamp.date, Stamp.of, isSame]
    · rw [Stamp.of_time, Stamp.of_time]
      omega

theorem utcText_lt_iff {first second : Int} (inYears : InYears first)
    (alsoInYears : InYears second) : utcText first < utcText second ↔ first < second := by
  constructor
  · intro isLess
    rcases lt_trichotomy first second with less | rfl | greater
    · exact less
    · exact absurd isLess (lt_irrefl _)
    · exact absurd (isLess.trans (utcText_lt alsoInYears inYears greater)) (lt_irrefl _)
  · exact utcText_lt inYears alsoInYears

end Dagq.Ledger
