/-
This file fixes what white space is, and what a text is without it around.
-/

namespace Dagq.Lib

/-- Whether a character is white space as Unicode has it. -/
def isWhiteSpace (char : Char) : Bool :=
  let code := char.toNat
  (9 ≤ code && code ≤ 13) || code == 0x20 || code == 0x85 || code == 0xa0 || code == 0x1680 ||
    (0x2000 ≤ code && code ≤ 0x200a) || code == 0x2028 || code == 0x2029 || code == 0x202f ||
    code == 0x205f || code == 0x3000

/-- Whether a text says nothing. -/
def isBlank (text : String) : Bool := text.toList.all isWhiteSpace

/-- The text without the white space around it. -/
def trim (text : String) : String :=
  String.ofList (((text.toList.dropWhile isWhiteSpace).reverse.dropWhile isWhiteSpace).reverse)

/-- The characters without the white space around them. -/
def trimmed (chars : List Char) : List Char :=
  ((chars.dropWhile isWhiteSpace).reverse.dropWhile isWhiteSpace).reverse

/-- Characters that begin and end with no white space stay as they are. -/
theorem trimmed_of_visible {chars : List Char}
    (first : (chars.head?.all fun char => !isWhiteSpace char) = true)
    (last : (chars.getLast?.all fun char => !isWhiteSpace char) = true) :
    trimmed chars = chars := by
  have drops : ∀ {chars : List Char}, (chars.head?.all fun char => !isWhiteSpace char) = true →
      chars.dropWhile isWhiteSpace = chars := by
    intro chars first
    cases chars with
    | nil => rfl
    | cons char rest =>
      have visible : isWhiteSpace char = false := by simpa using first
      rw [List.dropWhile_cons, visible]
      rfl
  unfold trimmed
  rw [drops first, drops (by rw [List.head?_reverse]; exact last), List.reverse_reverse]

/-- White space is no letter, so a letter's case does not hide it. -/
theorem isWhiteSpace_toLower {char : Char} (blank : isWhiteSpace char = true) :
    isWhiteSpace char.toLower = true := by
  have same : char.toLower = char := by
    delta Char.toLower
    split
    · next isUpper =>
      exfalso
      simp only [isWhiteSpace, Bool.or_eq_true, Bool.and_eq_true, decide_eq_true_eq,
        beq_iff_eq] at blank
      have low : 65 ≤ char.toNat := isUpper.1
      have high : char.toNat ≤ 90 := isUpper.2
      omega
    · rfl
  rw [same]
  exact blank

/-- Whether a text begins and ends with no white space: it says something, and nothing around it. -/
def isTidy (text : String) : Bool :=
  (text.toList.head?.any fun char => !isWhiteSpace char) &&
    text.toList.getLast?.any fun char => !isWhiteSpace char

theorem trim_of_tidy {text : String} (tidy : isTidy text = true) : trim text = text := by
  have visible : ∀ {char : Option Char}, (char.any fun char => !isWhiteSpace char) = true →
      (char.all fun char => !isWhiteSpace char) = true := by
    intro char visible
    cases char with
    | none => rfl
    | some char => exact visible
  obtain ⟨first, last⟩ := Bool.and_eq_true_iff.mp tidy
  show String.ofList (trimmed text.toList) = text
  rw [trimmed_of_visible (visible first) (visible last), String.ofList_toList]

theorem ne_empty_of_tidy {text : String} (tidy : isTidy text = true) : text ≠ "" := by
  rintro rfl
  cases tidy

/-- A text after a lead that begins with no white space. -/
theorem isTidy_append {lead text : String}
    (begins : (lead.toList.head?.any fun char => !isWhiteSpace char) = true)
    (tidy : isTidy text = true) : isTidy (lead ++ text) = true := by
  obtain ⟨_, last⟩ := Bool.and_eq_true_iff.mp tidy
  unfold isTidy
  rw [String.toList_append, Bool.and_eq_true]
  constructor
  · cases chars : lead.toList with
    | nil =>
      rw [chars] at begins
      cases begins
    | cons char rest =>
      rw [chars] at begins
      exact begins
  · rw [List.getLast?_append]
    cases ends : text.toList.getLast? with
    | none =>
      rw [ends] at last
      cases last
    | some char =>
      rw [ends] at last
      exact last

/-- What is left of a text that begins with no white space begins as it does. -/
theorem trim_cons {text : String} {char : Char} {rest : List Char}
    (begins : text.toList = char :: rest) (visible : isWhiteSpace char = false) :
    ∃ kept, (trim text).toList = char :: kept := by
  unfold trim
  rw [String.toList_ofList, begins, List.dropWhile_cons, visible, if_neg Bool.false_ne_true,
    List.reverse_cons]
  have keeps : ∀ chars : List Char, ∃ kept,
      (chars ++ [char]).dropWhile isWhiteSpace = kept ++ [char] := by
    intro chars
    induction chars with
    | nil => exact ⟨[], by rw [List.nil_append, List.dropWhile_cons, visible]; rfl⟩
    | cons first others inductionHypothesis =>
      rw [List.cons_append, List.dropWhile_cons]
      split
      · exact inductionHypothesis
      · exact ⟨first :: others, rfl⟩
  obtain ⟨kept, isKept⟩ := keeps rest.reverse
  exact ⟨kept.reverse, by rw [isKept, List.reverse_append]; rfl⟩

end Dagq.Lib
