/-
This file proves when the time of a reset is read without a number past 64 bits. The
numbers of a span are read in full and their seconds added up without a bound; the loop
that reads them in 64 bits gives the same sum as long as that fits. A time it gives is
within the longest hold from now, and so is the whole span it is read from.
-/

import Mathlib.Data.List.TakeWhile
import Dagq.Ledger.Calendar
import Dagq.Turns.ResetAt

namespace Dagq.Turns

open Lib Ledger

/-! ### The numbers of a span -/

/-- The number at the start of a text, and the seconds of its unit with the text after it. -/
def nextNumber (text : List Char) : Option (Nat × Option (Nat × List Char)) :=
  let rest := dropAnds (text.dropWhile fun char => char == ' ' || char == ',')
  let digits := rest.takeWhile Char.isDigit
  let after := (rest.dropWhile Char.isDigit).dropWhile isWhiteSpace
  if digits.isEmpty then none
  else some (Nat.ofDigitChars 10 digits 0,
    (unitSize (after.takeWhile Char.isAlpha)).map fun size => (size, after.dropWhile Char.isAlpha))

theorem length_dropAnds_le (text : List Char) : (dropAnds text).length ≤ text.length := by
  induction text using dropAnds.induct with
  | case1 rest inductionHypothesis =>
    rw [dropAnds]
    exact inductionHypothesis.trans (by simp only [List.length_cons]; omega)
  | case2 text other =>
    rw [dropAnds]
    exact other

/-- The text after a number and its unit is shorter. -/
theorem length_of_nextNumber {text rest : List Char} {number size : Nat}
    (found : nextNumber text = some (number, some (size, rest))) : rest.length < text.length := by
  unfold nextNumber at found
  dsimp only at found
  split at found
  · cases found
  · next some_ =>
    obtain ⟨_, isRest⟩ := Prod.mk.inj (Option.some.inj found)
    obtain ⟨_, _, same⟩ := Option.map_eq_some_iff.mp isRest
    obtain ⟨_, rfl⟩ := Prod.mk.inj same
    have front := length_dropAnds_le (text.dropWhile fun char => char == ' ' || char == ',')
    generalize dropAnds (text.dropWhile fun char => char == ' ' || char == ',') = start at *
    have whole := congrArg List.length (List.takeWhile_append_dropWhile (p := Char.isDigit) (l := start))
    have taken : 0 < (start.takeWhile Char.isDigit).length :=
      List.length_pos_iff.mpr (by simpa using some_)
    have spaces := (List.dropWhile_suffix (l := text) fun char => char == ' ' || char == ',').length_le
    have blanks := (List.dropWhile_suffix (l := start.dropWhile Char.isDigit) isWhiteSpace).length_le
    have unit := (List.dropWhile_suffix
      (l := (start.dropWhile Char.isDigit).dropWhile isWhiteSpace) Char.isAlpha).length_le
    rw [List.length_append] at whole
    omega

/-- The numbers of a span with the seconds of their units, up to one without a unit. -/
def spanNumbers (text : List Char) : List (Nat × Option Nat) :=
  match _found : nextNumber text with
  | none => []
  | some (number, none) => [(number, none)]
  | some (number, some (size, rest)) => (number, some size) :: spanNumbers rest
termination_by text.length
decreasing_by exact length_of_nextNumber _found

/-- The seconds of numbers with units. -/
def totalSecs (numbers : List (Nat × Option Nat)) : Nat :=
  (numbers.map fun number => number.1 * number.2.getD 0).sum

/-- The length of a span in seconds, however long its digits. -/
def exactSecs (text : List Char) : Nat := totalSecs (spanNumbers text)

/-- The numbers up to the first that 64 bits do not hold. -/
def heldNumbers (text : List Char) : List (Nat × Option Nat) :=
  (spanNumbers text).takeWhile fun number => (number.1 : Int) ≤ i64Max

/-- Whether a span is read: 64 bits hold its numbers, one of them with a unit. -/
def spanReads (text : List Char) : Bool :=
  (spanNumbers text).all (fun number => (number.1 : Int) ≤ i64Max) &&
    (spanNumbers text).any fun number => number.2.isSome

/-! ### The loop over a span -/

theorem sliceFrom_takeWhile (text : List Char) (goesOn : Char → Bool) :
    sliceFrom text (byteLength (text.takeWhile goesOn)) = .ok (text.dropWhile goesOn) := by
  have isCut := splitAtByte_append (text.takeWhile goesOn) (text.dropWhile goesOn)
  rw [List.takeWhile_append_dropWhile] at isCut
  rw [sliceFrom, isCut]

theorem held_of_nonneg {number : Int} (positive : 0 ≤ number) :
    held number = if i64Max < number then .error .overflow else .ok number := by
  have low : i64Min ≤ number := by
    unfold i64Min
    omega
  by_cases fits : number ≤ i64Max
  · rw [held, checked, if_pos ⟨low, fits⟩, if_neg (not_lt.mpr fits)]
  · rw [held, checked, if_neg fun both => fits both.2, if_pos (not_le.mp fits)]

/-- A round reads the next number. -/
theorem spanRound_eq {span : Span} (positive : 0 ≤ span.secs) : spanRound span =
    match nextNumber span.rest with
    | none => .ok .done
    | some (number, unit) =>
      if i64Max < (number : Int) then .ok .unread
      else
        match unit with
        | none => .ok .done
        | some (size, rest) =>
          if i64Max < span.secs + (number * size : Nat) then .error .overflow
          else .ok (.next ⟨span.secs + (number * size : Nat), true, rest⟩) := by
  unfold spanRound nextNumber
  dsimp only
  generalize dropAnds (span.rest.dropWhile fun char => char == ' ' || char == ',') = start
  by_cases noDigit : (start.takeWhile Char.isDigit).isEmpty = true
  · rw [if_pos noDigit, if_pos noDigit]
  · have isNumber : parseInt (start.takeWhile Char.isDigit) =
        checked (Nat.ofDigitChars 10 (start.takeWhile Char.isDigit) 0) :=
      parseInt_eq (by simpa using noDigit) fun char => List.mem_takeWhile_imp
    rw [if_neg noDigit, if_neg noDigit, isNumber]
    generalize Nat.ofDigitChars 10 (start.takeWhile Char.isDigit) 0 = number
    dsimp only
    by_cases fits : i64Max < (number : Int)
    · rw [if_pos fits, checked, if_neg fun both => absurd fits (not_lt.mpr both.2)]
    · have low : i64Min ≤ number := by
        unfold i64Min
        omega
      rw [if_neg fits, checked, if_pos ⟨low, not_lt.mp fits⟩, sliceFrom_takeWhile]
      dsimp only [bind, Except.bind]
      cases unitSize (((start.dropWhile Char.isDigit).dropWhile isWhiteSpace).takeWhile
        Char.isAlpha) with
      | none => rfl
      | some size =>
        rw [sliceFrom_takeWhile]
        dsimp only [Option.map_some]
        rw [held_of_nonneg (by positivity)]
        by_cases large : i64Max < (number : Int) * size
        · rw [if_pos large, if_pos]
          push_cast
          omega
        · rw [if_neg large]
          dsimp only
          rw [held_of_nonneg (by positivity)]
          push_cast
          by_cases more : i64Max < span.secs + (number : Int) * size
          · rw [if_pos more, if_pos more]
          · rw [if_neg more, if_neg more]

theorem spanNumbers_eq (text : List Char) : spanNumbers text =
    match nextNumber text with
    | none => []
    | some (number, none) => [(number, none)]
    | some (number, some (size, rest)) => (number, some size) :: spanNumbers rest := by
  rw [spanNumbers]
  split <;> simp [*]

/-- The seconds of the numbers that 64 bits hold. -/
def heldSecs (text : List Char) : Nat := totalSecs (heldNumbers text)

/-- The loop over a span adds up the seconds of its numbers, and stops where 64 bits do not hold
them. -/
theorem spanLoop_eq {fuel : Nat} {span : Span} (positive : 0 ≤ span.secs)
    (fits : span.secs ≤ i64Max) (enough : span.rest.length < fuel) :
    spanLoop fuel span =
      if i64Max < span.secs + (heldSecs span.rest : Nat) then .error .overflow
      else if (spanNumbers span.rest).all (fun number => (number.1 : Int) ≤ i64Max) then
        .ok (if span.read || (spanNumbers span.rest).any fun number => number.2.isSome then
          some (span.secs + (exactSecs span.rest : Nat)) else none)
      else .ok none := by
  induction fuel generalizing span with
  | zero => omega
  | succ fuel inductionHypothesis =>
    rw [spanLoop, spanRound_eq positive, heldSecs, heldNumbers, exactSecs, spanNumbers_eq]
    cases found : nextNumber span.rest with
    | none =>
      simp [totalSecs, bind, Except.bind, not_lt.mpr fits]
    | some next =>
      obtain ⟨number, unit⟩ := next
      dsimp only
      by_cases large : i64Max < (number : Int)
      · -- The digits are not read, and nothing before them is kept.
        have notHeld : ¬(number : Int) ≤ i64Max := not_le.mpr large
        rw [if_pos large]
        cases unit with
        | none => simp [totalSecs, bind, Except.bind, not_lt.mpr fits, notHeld]
        | some unit =>
          simp [totalSecs, bind, Except.bind, not_lt.mpr fits, notHeld]
      · have isHeld : (number : Int) ≤ i64Max := not_lt.mp large
        rw [if_neg large]
        cases unit with
        | none => simp [totalSecs, bind, Except.bind, not_lt.mpr fits, isHeld]
        | some unit =>
          obtain ⟨size, rest⟩ := unit
          have shorter := length_of_nextNumber found
          dsimp only
          by_cases tooLong : i64Max < span.secs + (number * size : Nat)
          · have isOver : i64Max < span.secs + (totalSecs (((number, some size) ::
                spanNumbers rest).takeWhile fun number => (number.1 : Int) ≤ i64Max) : Nat) := by
              rw [List.takeWhile_cons_of_pos (by simpa using isHeld), totalSecs, List.map_cons,
                List.sum_cons, Option.getD_some]
              dsimp only
              omega
            rw [if_pos tooLong, if_pos isOver]
            rfl
          · rw [if_neg tooLong]
            dsimp only [bind, Except.bind]
            rw [inductionHypothesis (by dsimp only; omega) (not_lt.mp tooLong) (by dsimp only; omega)]
            have sum : totalSecs (((number, some size) :: spanNumbers rest).takeWhile
                fun number => (number.1 : Int) ≤ i64Max) = number * size + heldSecs rest := by
              rw [List.takeWhile_cons_of_pos (by simpa using isHeld), totalSecs, List.map_cons,
                List.sum_cons]
              rfl
            have whole : totalSecs ((number, some size) :: spanNumbers rest) =
                number * size + exactSecs rest := by
              rw [totalSecs, List.map_cons, List.sum_cons]
              rfl
            rw [sum, whole, List.all_cons, List.any_cons, decide_eq_true isHeld, Bool.true_and,
              Nat.cast_add, Nat.cast_add, ← add_assoc, ← add_assoc]
            simp

theorem spanSecs_eq (text : List Char) : spanSecs text =
    if i64Max < (heldSecs text : Nat) then .error .overflow
    else .ok (if spanReads text then some (exactSecs text : Nat) else none) := by
  have isLoop := @spanLoop_eq (text.length + 1) { rest := text } le_rfl
    (show (0 : Int) ≤ i64Max by decide) (Nat.lt_succ_self _)
  simp only [zero_add, Bool.false_or] at isLoop
  rw [spanSecs, isLoop, spanReads]
  split
  · rfl
  · cases (spanNumbers text).all fun number => decide ((number.1 : Int) ≤ i64Max) with
    | true => rw [if_pos rfl, Bool.true_and]
    | false => rw [if_neg Bool.false_ne_true, Bool.false_and, if_neg Bool.false_ne_true]

/-! ### The spans of a text -/

/-- The texts after the spans' marker. -/
def spansOf (lower : List Char) : List (List Char) :=
  (matchIndices " in ".toList lower).filterMap fun at_ =>
    (splitAtByte (at_ + 4) lower).map Prod.snd

/-- Every slice after a marker is at the end of a character. -/
theorem sliceFrom_matchIndices {marker lower : List Char} {at_ : Nat}
    (found : at_ ∈ matchIndices marker lower) :
    ∃ after, splitAtByte (at_ + byteLength marker) lower = some after ∧
      sliceFrom lower (at_ + byteLength marker) = .ok after.2 := by
  obtain ⟨before, after, _, isCut⟩ := splitAtByte_matchIndices found
  exact ⟨(before, after), isCut, by rw [sliceFrom, isCut]⟩

theorem spanAfter_eq (lower : List Char) :
    spanAfter lower = (spansOf lower).findSomeM? spanSecs := by
  have sliced : ∀ at_ ∈ matchIndices " in ".toList lower,
      ∃ after, splitAtByte (at_ + 4) lower = some after ∧ sliceFrom lower (at_ + 4) = .ok after.2 :=
    fun at_ found => sliceFrom_matchIndices found
  unfold spanAfter spansOf
  generalize matchIndices " in ".toList lower = places at sliced
  induction places with
  | nil => rfl
  | cons at_ places inductionHypothesis =>
    obtain ⟨first, others⟩ := List.forall_mem_cons.mp sliced
    obtain ⟨after, isCut, isSlice⟩ := first
    rw [List.filterMap_cons, isCut, Option.map_some, List.findSomeM?_cons, List.findSomeM?_cons,
      isSlice, inductionHypothesis others]
    rfl

/-- The epoch after a marker, as no slice fails. -/
def epochOf (lower marker : List Char) : Option Int :=
  ((matchIndices marker lower).filterMap fun at_ =>
    (splitAtByte (at_ + byteLength marker) lower).map Prod.snd).findSome? fun rest =>
      let digits := (rest.dropWhile isWhiteSpace).takeWhile Char.isDigit
      if byteLength digits = 10 then parseInt digits else none

theorem epochAfter_eq (lower marker : List Char) :
    epochAfter lower marker = .ok (epochOf lower marker) := by
  have sliced : ∀ at_ ∈ matchIndices marker lower,
      ∃ after, splitAtByte (at_ + byteLength marker) lower = some after ∧
        sliceFrom lower (at_ + byteLength marker) = .ok after.2 :=
    fun at_ found => sliceFrom_matchIndices found
  unfold epochAfter epochOf
  generalize matchIndices marker lower = places at sliced
  induction places with
  | nil => rfl
  | cons at_ places inductionHypothesis =>
    obtain ⟨first, others⟩ := List.forall_mem_cons.mp sliced
    obtain ⟨after, isCut, isSlice⟩ := first
    rw [List.filterMap_cons, isCut, Option.map_some, List.findSomeM?_cons, List.findSome?_cons,
      isSlice, inductionHypothesis others]
    dsimp only [bind, Except.bind]
    split <;> simp [*, pure, Except.pure]

/-! ### The time of a reset -/

/-- The unix seconds after one of the markers. -/
def epochRead (lower : List Char) : Option Int :=
  (epochOf lower "|".toList).or (epochOf lower "resets at".toList)

/-- The first span that is read. -/
def firstSpan (spans : List (List Char)) : Option (List Char) := spans.find? spanReads

/-- 64 bits hold what is added up of the spans up to the first that is read, and its time from
now. -/
def SpansFit (now : Int) : List (List Char) → Prop
  | [] => True
  | span :: rest =>
    (heldSecs span : Nat) ≤ i64Max ∧
      if spanReads span then now + (exactSecs span : Nat) ≤ i64Max else SpansFit now rest

/-- What is read of a text's spans. -/
theorem findSomeM?_spanSecs (now : Int) (spans : List (List Char)) :
    (SpansFit now spans → spans.findSomeM? spanSecs =
      .ok ((firstSpan spans).map fun span => ((exactSecs span : Nat) : Int)) ∧
        ∀ span, firstSpan spans = some span → now + (exactSecs span : Nat) ≤ i64Max) ∧
    (¬SpansFit now spans → spans.findSomeM? spanSecs = .error .overflow ∨
      ∃ secs, i64Max < now + secs ∧ spans.findSomeM? spanSecs = .ok (some secs)) := by
  induction spans with
  | nil => exact ⟨fun _ => ⟨rfl, nofun⟩, fun notFit => absurd trivial notFit⟩
  | cons span rest inductionHypothesis =>
    rw [List.findSomeM?_cons, spanSecs_eq, firstSpan, List.find?_cons, SpansFit]
    by_cases fits : (heldSecs span : Nat) ≤ i64Max
    · rw [if_neg (not_lt.mpr fits)]
      cases reads : spanReads span with
      | true =>
        constructor
        · rintro ⟨_, inTime⟩
          refine ⟨rfl, ?_⟩
          rintro _ ⟨⟩
          exact inTime
        · intro notFit
          refine .inr ⟨(exactSecs span : Nat), ?_, rfl⟩
          by_contra inTime
          exact notFit ⟨fits, not_lt.mp inTime⟩
      | false =>
        refine ⟨fun both => inductionHypothesis.1 both.2, fun notFit => ?_⟩
        exact inductionHypothesis.2 fun fit => notFit ⟨fits, fit⟩
    · rw [if_pos (not_le.mp fits)]
      exact ⟨fun both => absurd both.1 fits, fun _ => .inl rfl⟩

/-- What is read of a text and a time is a time from now within the longest hold, and when it is of
the first span that is read, that is all of the span. -/
def Settles (text : String) (now : Int) : Prop :=
  ∃ result, resetAt text now = .ok result ∧ ∀ at_, result = some at_ →
    now ≤ at_ ∧ at_ ≤ now + maxResetSecs ∧
      (epochRead (text.toList.map Char.toLower) = none →
        ∃ span, firstSpan (spansOf (text.toList.map Char.toLower)) = some span ∧
          at_ = now + (exactSecs span : Nat) ∧ (exactSecs span : Nat) ≤ maxResetSecs)

/-- A time after a marker is read, or 64 bits hold what is added up of the spans. -/
def NumbersFit (text : String) (now : Int) : Prop :=
  epochRead (text.toList.map Char.toLower) ≠ none ∨
    SpansFit now (spansOf (text.toList.map Char.toLower))

theorem epochOf_le {lower marker : List Char} {at_ : Int} (read : epochOf lower marker = some at_) :
    at_ ≤ i64Max := by
  obtain ⟨rest, _, isNumber⟩ := List.exists_of_findSome?_eq_some read
  dsimp only at isNumber
  split at isNumber
  · unfold parseInt at isNumber
    split at isNumber <;>
    · obtain ⟨_, _, held⟩ := Option.bind_eq_some_iff.mp isNumber
      obtain ⟨bounds, isValue⟩ := Option.ite_none_right_eq_some.mp held
      exact Option.some.inj isValue ▸ bounds.2
  · cases isNumber

/-- A time of 64 bits from now on is taken when it is within the longest hold. -/
theorem withinHold {now at_ : Int} (low : 0 ≤ now) (fits : at_ ≤ i64Max) :
    (if now ≤ at_ then
      (held (at_ - now)).map fun away => if away ≤ maxResetSecs then some at_ else none
    else .ok none) = .ok (if now ≤ at_ ∧ at_ - now ≤ maxResetSecs then some at_ else none) := by
  by_cases isLater : now ≤ at_
  · rw [if_pos isLater, held_of_nonneg (by omega), if_neg (by omega)]
    simp only [isLater, true_and]
    rfl
  · simp [isLater]

/-- The time of the first span that is read. -/
def spanTime (lower : List Char) (now : Int) : Except Fault (Option Int) := do
  match ← (spansOf lower).findSomeM? spanSecs with
  | some secs => (held (now + secs)).map some
  | none => .ok none

theorem resetTime_eq (lower : List Char) (now : Int) : resetTime lower now =
    (epochRead lower).elim (spanTime lower now) fun at_ => .ok (some at_) := by
  unfold resetTime epochRead spanTime
  rw [epochAfter_eq, epochAfter_eq, spanAfter_eq]
  cases epochOf lower "|".toList with
  | some at_ => rfl
  | none =>
    rw [Option.none_or]
    cases epochOf lower "resets at".toList <;> rfl

/-- A time told is taken when it is within the longest hold. -/
theorem resetAt_of_resetTime {text : String} {now at_ : Int} (low : 0 ≤ now) (fits : at_ ≤ i64Max)
    (told : resetTime (text.toList.map Char.toLower) now = .ok (some at_)) :
    resetAt text now = .ok (if now ≤ at_ ∧ at_ - now ≤ maxResetSecs then some at_ else none) := by
  rw [resetAt, told]
  exact withinHold low fits

/-- Where the numbers do not fit, the sum or the product that is too large stops the reading. -/
theorem resetAt_of_not_fit {text : String} {now : Int}
    (notFit : ¬NumbersFit text now) : resetAt text now = .error .overflow := by
  obtain ⟨noEpoch, spansDoNot⟩ := not_or.mp notFit
  have isTime := resetTime_eq (text.toList.map Char.toLower) now
  rw [not_not.mp noEpoch, Option.elim_none, spanTime] at isTime
  have stops : resetTime (text.toList.map Char.toLower) now = .error .overflow := by
    rcases (findSomeM?_spanSecs now _).2 spansDoNot with stops | ⟨secs, tooFar, isSecs⟩
    · rw [isTime, stops]
      rfl
    · rw [isTime, isSecs]
      show (held (now + secs)).map some = _
      rw [held_of_nonneg (by unfold i64Max at tooFar; omega), if_pos tooFar]
      rfl
  rw [resetAt, stops]
  rfl

theorem settles_of_fit {text : String} {now : Int} (low : 0 ≤ now) (fit : NumbersFit text now) :
    Settles text now := by
  have isTime := resetTime_eq (text.toList.map Char.toLower) now
  unfold Settles
  cases read : epochRead (text.toList.map Char.toLower) with
  | some at_ =>
    have fits : at_ ≤ i64Max := by
      rcases Option.or_eq_some_iff.mp read with first | ⟨_, second⟩
      · exact epochOf_le first
      · exact epochOf_le second
    rw [read] at isTime
    refine ⟨_, resetAt_of_resetTime low fits isTime, ?_⟩
    intro at_ isAt
    obtain ⟨⟨isLater, near⟩, same⟩ := Option.ite_none_right_eq_some.mp isAt
    obtain rfl := Option.some.inj same
    exact ⟨isLater, by omega, nofun⟩
  | none =>
    have spansFit : SpansFit now (spansOf (text.toList.map Char.toLower)) :=
      fit.resolve_left (not_not.mpr read)
    obtain ⟨isSecs, inTime⟩ := (findSomeM?_spanSecs now _).1 spansFit
    rw [read, Option.elim_none, spanTime, isSecs] at isTime
    cases first : firstSpan (spansOf (text.toList.map Char.toLower)) with
    | none =>
      rw [first] at isTime
      refine ⟨none, ?_, nofun⟩
      rw [resetAt, isTime]
      rfl
    | some span =>
      rw [first] at isTime
      have fits := inTime span first
      have told : resetTime (text.toList.map Char.toLower) now =
          .ok (some (now + (exactSecs span : Nat))) := by
        rw [isTime]
        show (held (now + (exactSecs span : Nat))).map some = _
        rw [held_of_nonneg (by omega), if_neg (not_lt.mpr fits)]
        rfl
      refine ⟨_, resetAt_of_resetTime low fits told, ?_⟩
      intro at_ isAt
      obtain ⟨⟨isLater, near⟩, same⟩ := Option.ite_none_right_eq_some.mp isAt
      obtain rfl := Option.some.inj same
      exact ⟨isLater, by omega, fun _ => ⟨span, rfl, rfl, by omega⟩⟩

/-- The reading of a text settles exactly when its numbers fit; no slice fails and no loop goes on
without an end for any text. -/
theorem settles_iff {text : String} {now : Int} (low : 0 ≤ now) :
    (Settles text now ↔ NumbersFit text now) ∧
      ∀ fault, resetAt text now = .error fault → fault = .overflow := by
  refine ⟨⟨?_, settles_of_fit low⟩, ?_⟩
  · rintro ⟨result, isResult, _⟩
    by_contra notFit
    rw [resetAt_of_not_fit notFit] at isResult
    cases isResult
  · intro fault isFault
    by_cases fit : NumbersFit text now
    · obtain ⟨result, isResult, _⟩ := settles_of_fit low fit
      rw [isResult] at isFault
      cases isFault
    · rw [resetAt_of_not_fit fit] at isFault
      exact (Except.error.inj isFault).symm

/-- A span of as many days as 64 bits hold is past what they hold in seconds. -/
theorem longest_days_overflow :
    resetAt "Usage limit reached, try again in 9223372036854775807 days" 1790000000 =
      .error .overflow := by decide

theorem settles_two_hours :
    NumbersFit "try again in 2 hours" 1000 ∧ Settles "try again in 2 hours" 1000 := by
  have spans : spansOf ("try again in 2 hours".toList.map Char.toLower) = ["2 hours".toList] := by
    decide
  have first : nextNumber "2 hours".toList = some (2, some (3600, [])) := rfl
  have last : nextNumber [] = none := rfl
  have numbers : spanNumbers "2 hours".toList = [(2, some 3600)] := by
    rw [spanNumbers_eq, first]
    dsimp only
    rw [spanNumbers_eq, last]
  have fits : SpansFit 1000 ["2 hours".toList] := by
    rw [SpansFit, heldSecs, heldNumbers, exactSecs, spanReads, numbers, if_pos (by decide)]
    decide
  have fit : NumbersFit "try again in 2 hours" 1000 := .inr (spans ▸ fits)
  exact ⟨fit, (settles_iff (by decide)).1.mpr fit⟩

end Dagq.Turns
