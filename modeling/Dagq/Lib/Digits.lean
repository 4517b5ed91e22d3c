/-
This file writes numbers in a fixed count of decimal digits. Such texts read back as the
number, and as long as they are of one width they are in the order of their numbers, in
front of any other text as well.
-/

import Mathlib.Data.Nat.Basic
import Mathlib.Tactic.IntervalCases

namespace Dagq.Lib

theorem digitChar_lt {first second : Nat} (small : second < 10) (isLess : first < second) :
    Nat.digitChar first < Nat.digitChar second := by
  interval_cases second <;> interval_cases first <;> decide

/-- The last `width` digits of a number. -/
def digits : Nat → Nat → List Char
  | 0, _ => []
  | width + 1, number => digits width (number / 10) ++ [Nat.digitChar (number % 10)]

@[simp] theorem length_digits (width number : Nat) : (digits width number).length = width := by
  induction width generalizing number with
  | zero => rfl
  | succ width inductionHypothesis => simp [digits, inductionHypothesis]

theorem isDigit_of_mem_digits {width number : Nat} {char : Char}
    (among : char ∈ digits width number) : char.isDigit = true := by
  induction width generalizing number with
  | zero => cases among
  | succ width inductionHypothesis =>
    rcases List.mem_append.mp among with isBefore | isLast
    · exact inductionHypothesis isBefore
    · rw [List.mem_singleton.mp isLast]
      simpa using Nat.mod_lt number (by decide)

theorem digits_ne_nil {width : Nat} (positive : 0 < width) (number : Nat) :
    digits width number ≠ [] := by
  intro isEmpty
  have width_ := length_digits width number
  rw [isEmpty, List.length_nil] at width_
  omega

/-- The digits read back as the number. -/
theorem ofDigitChars_digits {width number : Nat} (fits : number < 10 ^ width) :
    Nat.ofDigitChars 10 (digits width number) 0 = number := by
  induction width generalizing number with
  | zero =>
    rw [pow_zero] at fits
    rw [digits, Nat.ofDigitChars_nil]
    omega
  | succ width inductionHypothesis =>
    rw [pow_succ] at fits
    rw [digits, Nat.ofDigitChars_append, inductionHypothesis (by omega),
      Nat.ofDigitChars_cons_digitChar_of_lt_ten (Nat.mod_lt _ (by decide)), Nat.ofDigitChars_nil]
    omega

/-- A number padded with zeros to a width it fits in. -/
theorem zeros_append_toDigits {width number : Nat} (positive : 0 < width)
    (fits : number < 10 ^ width) :
    List.replicate (width - (Nat.toDigits 10 number).length) '0' ++ Nat.toDigits 10 number =
      digits width number := by
  induction width generalizing number with
  | zero => omega
  | succ width inductionHypothesis =>
    rw [pow_succ] at fits
    rw [Nat.toDigits_eq_if (by decide), digits]
    split
    · next small =>
      have zeros : digits width (number / 10) = List.replicate width '0' := by
        rw [Nat.div_eq_of_lt small]
        clear fits inductionHypothesis positive
        induction width with
        | zero => rfl
        | succ width inductionHypothesis =>
          rw [digits, Nat.zero_div, inductionHypothesis, List.replicate_succ']
          rfl
      rw [zeros, Nat.mod_eq_of_lt small]
      simp
    · next large =>
      have wide : 0 < width := by
        rcases Nat.eq_zero_or_pos width with rfl | wide
        · rw [pow_zero] at fits
          omega
        · exact wide
      rw [← inductionHypothesis wide (by omega), List.length_append, List.length_singleton,
        Nat.add_sub_add_right, List.append_assoc]

/-! ### The order of texts of one width -/

section

variable {Letter : Type} [LT Letter]

theorem append_lt_append_of_lt {first second rest other : List Letter}
    (sameLength : first.length = second.length) (isLess : first < second) :
    first ++ rest < second ++ other := by
  induction first generalizing second with
  | nil =>
    cases second with
    | nil => exact absurd isLess (List.not_lt_nil _)
    | cons _ _ => cases sameLength
  | cons letter first inductionHypothesis =>
    cases second with
    | nil => cases sameLength
    | cons otherLetter second =>
      rw [List.cons_append, List.cons_append]
      rcases List.cons_lt_cons_iff.mp isLess with smaller | ⟨rfl, isRest⟩
      · exact List.cons_lt_cons_iff.mpr (.inl smaller)
      · exact List.cons_lt_cons_iff.mpr
          (.inr ⟨rfl, inductionHypothesis (Nat.succ.inj sameLength) isRest⟩)

end

/-- Numbers written in one width are in the order of the numbers. -/
theorem digits_lt {width first second : Nat} (fits : second < 10 ^ width)
    (isLess : first < second) : digits width first < digits width second := by
  induction width generalizing first second with
  | zero =>
    rw [pow_zero] at fits
    omega
  | succ width inductionHypothesis =>
    rw [pow_succ] at fits
    rw [digits, digits]
    rcases Nat.lt_or_ge (first / 10) (second / 10) with smaller | same
    · exact append_lt_append_of_lt
        ((length_digits _ _).trans (length_digits _ _).symm) (inductionHypothesis (by omega) smaller)
    · have isSame : first / 10 = second / 10 := by omega
      rw [isSame]
      exact List.append_left_lt (List.cons_lt_cons_iff.mpr
        (.inl (digitChar_lt (Nat.mod_lt _ (by decide)) (by omega))))

end Dagq.Lib
