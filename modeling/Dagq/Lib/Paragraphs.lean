/-
This file takes texts apart at their blank lines, from the left or from the right. A text
that ends with no line end keeps its paragraphs when another follows it, and paragraphs
taken from a text are its paragraphs again once they are joined.
-/

import Mathlib.Data.List.TakeWhile
import Dagq.Lib.Slices
import Dagq.Lib.Text

namespace Dagq.Lib

/-- The parts of a text between its blank lines, the first line end of a run taken first. -/
def paragraphs : List Char → List (List Char)
  | [] => [[]]
  | '\n' :: '\n' :: rest => [] :: paragraphs rest
  | char :: rest => (paragraphs rest).modifyHead (char :: ·)

/-- The parts of a text from its end, the last line end of a run taken first. -/
def paragraphsFromEnd (text : List Char) : List (List Char) :=
  (paragraphs text.reverse).map List.reverse

/-- Texts with a blank line between each. -/
def joined : List (List Char) → List Char
  | [] => []
  | [last] => last
  | first :: second :: rest => first ++ '\n' :: '\n' :: joined (second :: rest)

/-- A text holds a blank line. -/
def HasBlankLine (text : List Char) : Prop := ['\n', '\n'] <:+: text

/-- The text without the white space at its start. -/
def trimStart (text : List Char) : List Char := text.dropWhile isWhiteSpace

/-- The text without the white space at its end. -/
def trimEnd (text : List Char) : List Char := (text.reverse.dropWhile isWhiteSpace).reverse

/-! ### The paragraphs of a text -/

theorem paragraphs_ne_nil (text : List Char) : paragraphs text ≠ [] := by
  induction text using paragraphs.induct with
  | case1 => simp [paragraphs]
  | case2 rest inductionHypothesis => simp [paragraphs]
  | case3 char rest notBlank inductionHypothesis =>
    rw [paragraphs]
    · cases found : paragraphs rest with
      | nil => exact absurd found inductionHypothesis
      | cons first others => simp
    · exact notBlank

/-- A text without a line end at its end keeps its paragraphs, the last going on with what follows. -/
theorem paragraphs_append {text : List Char} (ends : text.getLast? ≠ some '\n') :
    ∃ front last, paragraphs text = front ++ [last] ∧ ∀ after first rest,
      paragraphs after = first :: rest →
        paragraphs (text ++ after) = front ++ (last ++ first) :: rest := by
  induction text using paragraphs.induct with
  | case1 => exact ⟨[], [], rfl, fun after first rest isAfter => isAfter⟩
  | case2 text inductionHypothesis =>
    have endsText : text.getLast? ≠ some '\n' := by
      intro isLast
      obtain ⟨before, rfl⟩ := List.getLast?_eq_some_iff.mp isLast
      exact ends (List.getLast?_concat (l := '\n' :: '\n' :: before))
    obtain ⟨front, last, isText, appended⟩ := inductionHypothesis endsText
    refine ⟨[] :: front, last, by rw [paragraphs, isText]; rfl, fun after first rest isAfter => ?_⟩
    rw [List.cons_append, List.cons_append, paragraphs, appended after first rest isAfter]
    rfl
  | case3 char text notBlank inductionHypothesis =>
    cases text with
    | nil =>
      have visible : char ≠ '\n' := fun same => ends (by rw [same]; rfl)
      refine ⟨[], [char], ?_, fun after first rest isAfter => ?_⟩
      · rw [paragraphs]
        · rfl
        · exact notBlank
      · rw [List.singleton_append, paragraphs, isAfter]
        · rfl
        · rintro _ rfl _
          exact visible rfl
    | cons second text =>
      have endsText : (second :: text).getLast? ≠ some '\n' := by
        rwa [List.getLast?_cons_cons] at ends
      obtain ⟨front, last, isText, appended⟩ := inductionHypothesis endsText
      cases front with
      | nil =>
        refine ⟨[], char :: last, ?_, fun after first rest isAfter => ?_⟩
        · rw [paragraphs, isText]
          · rfl
          · exact notBlank
        · rw [List.cons_append, paragraphs, appended after first rest isAfter]
          · rfl
          · rintro _ isLine isText
            obtain ⟨rfl, _⟩ := List.cons.inj isText
            exact notBlank _ isLine rfl
      | cons head front =>
        refine ⟨(char :: head) :: front, last, ?_, fun after first rest isAfter => ?_⟩
        · rw [paragraphs, isText]
          · rfl
          · exact notBlank
        · rw [List.cons_append, paragraphs, appended after first rest isAfter]
          · rfl
          · rintro _ isLine isText
            obtain ⟨rfl, _⟩ := List.cons.inj isText
            exact notBlank _ isLine rfl

/-- The paragraphs of a text that ends with no line end are in front of those after a blank line. -/
theorem paragraphs_append_blank {text : List Char} (ends : text.getLast? ≠ some '\n')
    (after : List Char) :
    paragraphs (text ++ '\n' :: '\n' :: after) = paragraphs text ++ paragraphs after := by
  obtain ⟨front, last, isText, appended⟩ := paragraphs_append ends
  rw [appended _ [] (paragraphs after) (by rw [paragraphs]), isText, List.append_nil,
    List.append_assoc]
  rfl

theorem paragraphs_of_noBlankLine {text : List Char} (noBlankLine : ¬HasBlankLine text) :
    paragraphs text = [text] := by
  induction text using paragraphs.induct with
  | case1 => rfl
  | case2 rest inductionHypothesis => exact absurd ⟨[], rest, rfl⟩ noBlankLine
  | case3 char rest notBlank inductionHypothesis =>
    rw [paragraphs, inductionHypothesis fun ⟨before, after, isRest⟩ =>
      noBlankLine ⟨char :: before, after, by rw [← isRest]; rfl⟩]
    · rfl
    · exact notBlank

theorem joined_cons {first : List Char} {rest : List (List Char)} (more : rest ≠ []) :
    joined (first :: rest) = first ++ '\n' :: '\n' :: joined rest := by
  obtain ⟨second, others, rfl⟩ := List.exists_cons_of_ne_nil more
  rw [joined]

/-- A text is its paragraphs joined. -/
theorem joined_paragraphs (text : List Char) : joined (paragraphs text) = text := by
  induction text using paragraphs.induct with
  | case1 => rfl
  | case2 rest inductionHypothesis =>
    rw [paragraphs, joined_cons (paragraphs_ne_nil rest), inductionHypothesis, List.nil_append]
  | case3 char rest notBlank inductionHypothesis =>
    rw [paragraphs]
    · obtain ⟨first, others, isRest⟩ := List.exists_cons_of_ne_nil (paragraphs_ne_nil rest)
      rw [isRest] at inductionHypothesis ⊢
      rw [List.modifyHead_cons]
      cases others with
      | nil => exact congrArg (char :: ·) inductionHypothesis
      | cons second others => exact congrArg (char :: ·) inductionHypothesis
    · exact notBlank

/-! ### Paragraphs joined again -/

/-- Texts that are the paragraphs of a text: none holds a blank line, and only the last may end with
a line end. -/
def Parted : List (List Char) → Prop
  | [] => False
  | [last] => ¬HasBlankLine last
  | first :: second :: rest =>
    ¬HasBlankLine first ∧ first.getLast? ≠ some '\n' ∧ Parted (second :: rest)

theorem parted_cons {first : List Char} {rest : List (List Char)} (more : rest ≠ []) :
    Parted (first :: rest) ↔
      ¬HasBlankLine first ∧ first.getLast? ≠ some '\n' ∧ Parted rest := by
  obtain ⟨second, others, rfl⟩ := List.exists_cons_of_ne_nil more
  rw [Parted]

theorem Parted.noBlankLine {texts : List (List Char)} (parted : Parted texts) {text : List Char}
    (among : text ∈ texts) : ¬HasBlankLine text := by
  induction texts with
  | nil => cases among
  | cons first rest inductionHypothesis =>
    by_cases some : rest = []
    · subst some
      rw [List.mem_singleton.mp among]
      exact parted
    · obtain ⟨noBlankLine, _, isRest⟩ := (parted_cons some).mp parted
      rcases List.mem_cons.mp among with rfl | isLater
      · exact noBlankLine
      · exact inductionHypothesis isRest isLater

theorem starts_of_paragraphs {text first : List Char} {char : Char} {rest : List (List Char)}
    (found : paragraphs text = (char :: first) :: rest) : text.head? = some char := by
  unfold paragraphs at found
  split at found
  · cases found
  · cases found
  · next other text notBlank =>
    obtain ⟨head, others, isText⟩ := List.exists_cons_of_ne_nil (paragraphs_ne_nil text)
    rw [isText, List.modifyHead_cons] at found
    rw [List.head?_cons, (List.cons.inj (List.cons.inj found).1).1]

theorem startsBlank_of_paragraphs {text : List Char} {rest : List (List Char)}
    (found : paragraphs text = [] :: rest) (more : rest ≠ []) :
    text.head? = some '\n' := by
  unfold paragraphs at found
  split at found
  · exact absurd (List.cons.inj found).2.symm more
  · rfl
  · next other text notBlank =>
    obtain ⟨head, others, isText⟩ := List.exists_cons_of_ne_nil (paragraphs_ne_nil text)
    rw [isText, List.modifyHead_cons] at found
    cases found

theorem parted_paragraphs (text : List Char) : Parted (paragraphs text) := by
  have noneInNothing : ¬HasBlankLine [] := fun ⟨before, after, isNothing⟩ => by simp at isNothing
  induction text using paragraphs.induct with
  | case1 => exact noneInNothing
  | case2 rest inductionHypothesis =>
    rw [paragraphs, parted_cons (paragraphs_ne_nil rest)]
    exact ⟨noneInNothing, by simp, inductionHypothesis⟩
  | case3 char rest notBlank inductionHypothesis =>
    rw [paragraphs]
    · obtain ⟨first, others, isRest⟩ := List.exists_cons_of_ne_nil (paragraphs_ne_nil rest)
      rw [isRest] at inductionHypothesis ⊢
      rw [List.modifyHead_cons]
      -- A line end in front of another would have been a blank line.
      have notTwo : char = '\n' → rest.head? ≠ some '\n' := by
        rintro isLine isHead
        obtain ⟨tail, rfl⟩ := List.head?_eq_some_iff.mp isHead
        exact notBlank tail isLine rfl
      have noBlankLine : ¬HasBlankLine first → ¬HasBlankLine (char :: first) := by
        rintro notFirst ⟨before, after, isText⟩
        cases before with
        | nil =>
          obtain ⟨isLine, isFirst⟩ := List.cons.inj isText
          rw [← isFirst] at isRest
          exact notTwo isLine.symm (starts_of_paragraphs isRest)
        | cons _ before => exact notFirst ⟨before, after, (List.cons.inj isText).2⟩
      by_cases some : others = []
      · subst some
        exact noBlankLine inductionHypothesis
      · rw [parted_cons some] at inductionHypothesis ⊢
        refine ⟨noBlankLine inductionHypothesis.1, ?_, inductionHypothesis.2.2⟩
        cases first with
        | nil =>
          intro isLine
          exact notTwo (by simpa using isLine) (startsBlank_of_paragraphs isRest some)
        | cons second first =>
          rw [List.getLast?_cons_cons]
          exact inductionHypothesis.2.1
    · exact notBlank

/-- Paragraphs joined are the paragraphs again. -/
theorem Parted.paragraphs_joined {texts : List (List Char)} (parted : Parted texts) :
    paragraphs (joined texts) = texts := by
  induction texts with
  | nil => cases parted
  | cons first rest inductionHypothesis =>
    by_cases some : rest = []
    · subst some
      exact paragraphs_of_noBlankLine parted
    · obtain ⟨noBlankLine, ends, isRest⟩ := (parted_cons some).mp parted
      rw [joined_cons some, paragraphs_append_blank ends, paragraphs_of_noBlankLine noBlankLine,
        inductionHypothesis isRest]
      rfl

theorem Parted.filter {texts : List (List Char)} (parted : Parted texts) (keeps : List Char → Bool)
    (some : texts.filter keeps ≠ []) : Parted (texts.filter keeps) := by
  induction texts with
  | nil => cases parted
  | cons first rest inductionHypothesis =>
    by_cases more : rest = []
    · subst more
      rw [List.filter_cons] at some ⊢
      split
      · exact parted
      · next notKept =>
        rw [if_neg notKept] at some
        exact absurd rfl some
    · obtain ⟨noBlankLine, ends, isRest⟩ := (parted_cons more).mp parted
      rw [List.filter_cons] at some ⊢
      split
      · by_cases others : rest.filter keeps = []
        · rw [others]
          exact noBlankLine
        · exact (parted_cons others).mpr ⟨noBlankLine, ends, inductionHypothesis isRest others⟩
      · next notKept =>
        rw [if_neg notKept] at some
        exact inductionHypothesis isRest some

/-- What is between two blank lines holds none. -/
theorem noBlankLine_of_mem {text paragraph : List Char} (among : paragraph ∈ paragraphs text) :
    ¬HasBlankLine paragraph :=
  (parted_paragraphs text).noBlankLine among

/-! ### White space at the end -/

theorem trimEnd_prefix (text : List Char) :
    ∃ blank, text = trimEnd text ++ blank ∧ ∀ char ∈ blank, isWhiteSpace char = true := by
  refine ⟨(text.reverse.takeWhile isWhiteSpace).reverse, ?_, fun char among => ?_⟩
  · have := congrArg List.reverse (List.takeWhile_append_dropWhile (p := isWhiteSpace)
      (l := text.reverse))
    rw [List.reverse_append, List.reverse_reverse] at this
    exact this.symm
  · exact List.mem_takeWhile_imp (List.mem_reverse.mp among)

theorem trimEnd_ends (text : List Char) {char : Char}
    (isLast : (trimEnd text).getLast? = some char) : isWhiteSpace char = false := by
  rw [trimEnd, List.getLast?_reverse] at isLast
  have := List.head?_dropWhile_not isWhiteSpace text.reverse
  rw [isLast] at this
  simpa using this

theorem trimEnd_of_visible {text : List Char}
    (visible : (text.getLast?.all fun char => !isWhiteSpace char) = true) : trimEnd text = text := by
  rw [← List.head?_reverse] at visible
  cases reversed : text.reverse with
  | nil =>
    rw [trimEnd, reversed, List.dropWhile_nil, ← reversed, List.reverse_reverse]
  | cons char rest =>
    rw [reversed, List.head?_cons, Option.all_some, Bool.not_eq_true'] at visible
    rw [trimEnd, reversed, List.dropWhile_cons_of_neg (by simp [visible]), ← reversed,
      List.reverse_reverse]

end Dagq.Lib
