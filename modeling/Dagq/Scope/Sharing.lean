/-
This file shows what the matcher of a segment does, in characters. A `*` may stop
inside a character, and each `?` after it then takes one byte of what is left of it:
so several of them may share a character of three or four bytes. Nothing else parts
the bytes of a character.
-/

import Dagq.Scope.Glob

namespace Dagq.Scope

open Lib

/-- A segment of a glob matches `left` bytes of a character and the text after it, where a `*`
may stop inside a character and the `?`s after it share what is left of it. -/
inductive Sharing : List Char → Nat → List Char → Prop
  | nil : Sharing [] 0 []
  | within {rest : List Char} {left remaining : Nat} {text : List Char}
      (fewer : remaining ≤ left) (after : Sharing rest remaining text) :
      Sharing ('*' :: rest) left text
  | into {rest : List Char} (left : Nat) (front : List Char) (c : Char) {remaining : Nat}
      {text : List Char} (inside : remaining < c.utf8Size) (after : Sharing rest remaining text) :
      Sharing ('*' :: rest) left (front ++ c :: text)
  | shares {rest : List Char} {left : Nat} {text : List Char} (after : Sharing rest left text) :
      Sharing ('?' :: rest) (left + 1) text
  | takes {rest : List Char} (c : Char) {text : List Char} (after : Sharing rest 0 text) :
      Sharing ('?' :: rest) 0 (c :: text)
  | literal {rest : List Char} (c : Char) {text : List Char} (notStar : c ≠ '*')
      (notQuestion : c ≠ '?') (after : Sharing rest 0 text) : Sharing (c :: rest) 0 (c :: text)

section

variable {rest text : List Char} {left : Nat}

theorem sharing_nil : Sharing [] left text ↔ left = 0 ∧ text = [] := by
  constructor
  · rintro ⟨⟩
    exact ⟨rfl, rfl⟩
  · rintro ⟨rfl, rfl⟩
    exact .nil

theorem sharing_star : Sharing ('*' :: rest) left text ↔
    (∃ remaining ≤ left, Sharing rest remaining text) ∨
      ∃ front c more remaining, text = front ++ c :: more ∧ remaining < c.utf8Size ∧
        Sharing rest remaining more := by
  constructor
  · intro sharing
    cases sharing with
    | within fewer after => exact Or.inl ⟨_, fewer, after⟩
    | into _ front c inside after => exact Or.inr ⟨front, c, _, _, rfl, inside, after⟩
    | literal _ notStar => exact absurd rfl notStar
  · rintro (⟨remaining, fewer, after⟩ | ⟨front, c, more, remaining, rfl, inside, after⟩)
    · exact .within fewer after
    · exact .into left front c inside after

theorem sharing_shares : Sharing ('?' :: rest) (left + 1) text ↔ Sharing rest left text := by
  constructor
  · rintro ⟨⟩
    assumption
  · exact .shares

theorem sharing_takes : Sharing ('?' :: rest) 0 text ↔
    ∃ c more, text = c :: more ∧ Sharing rest 0 more := by
  constructor
  · intro sharing
    cases sharing with
    | takes c after => exact ⟨c, _, rfl, after⟩
    | literal _ _ notQuestion => exact absurd rfl notQuestion
  · rintro ⟨c, more, rfl, after⟩
    exact .takes c after

theorem sharing_literal {c : Char} (notStar : c ≠ '*') (notQuestion : c ≠ '?') :
    Sharing (c :: rest) left text ↔
      left = 0 ∧ ∃ more, text = c :: more ∧ Sharing rest 0 more := by
  constructor
  · intro sharing
    cases sharing with
    | within => exact absurd rfl notStar
    | into => exact absurd rfl notStar
    | shares => exact absurd rfl notQuestion
    | takes => exact absurd rfl notQuestion
    | literal _ _ _ after => exact ⟨rfl, _, rfl, after⟩
  · rintro ⟨rfl, more, rfl, after⟩
    exact .literal c notStar notQuestion after

end

/-! ### Bytes skipped -/

theorem asBytes_cons (c : Char) (text : List Char) :
    asBytes (c :: text) = String.utf8EncodeChar c ++ asBytes text := List.flatMap_cons ..

/-- Bytes skipped from a text leave what is left of a character, and the text after it. -/
theorem drop_asBytes (text : List Char) (skip : Nat) (some_ : 0 < skip)
    (within : skip ≤ (asBytes text).length) :
    ∃ front c more remaining, text = front ++ c :: more ∧ remaining.length < c.utf8Size ∧
      (∀ byte ∈ remaining, GoesOn byte) ∧
      (asBytes text).drop skip = remaining ++ asBytes more := by
  induction text generalizing skip with
  | nil => exact absurd (Nat.lt_of_lt_of_le some_ within) (Nat.lt_irrefl 0)
  | cons c text inductionHypothesis =>
    obtain ⟨first, rest, bytes, -, -, goOn, -⟩ := utf8EncodeChar_spec c
    have size : rest.length + 1 = c.utf8Size := by
      rw [← String.length_utf8EncodeChar, bytes, List.length_cons]
    rw [asBytes_cons, bytes] at within ⊢
    obtain ⟨skip, rfl⟩ := Nat.exists_eq_succ_of_ne_zero (Nat.ne_of_gt some_)
    rw [List.cons_append, Nat.succ_eq_add_one, List.drop_succ_cons]
    rcases Nat.lt_or_ge rest.length skip with past | inside
    · rw [List.cons_append, List.length_cons, List.length_append] at within
      obtain ⟨front, d, more, remaining, isText, shorter, bytesGoOn, dropped⟩ :=
        inductionHypothesis (skip - rest.length) (by omega) (by omega)
      refine ⟨c :: front, d, more, remaining, by rw [isText, List.cons_append], shorter,
        bytesGoOn, ?_⟩
      rw [List.drop_append, List.drop_eq_nil_of_le (Nat.le_of_lt past), List.nil_append, dropped]
    · refine ⟨[], c, text, rest.drop skip, rfl, ?_, ?_, ?_⟩
      · rw [List.length_drop]
        omega
      · exact fun byte member => goOn byte (List.mem_of_mem_drop member)
      · exact List.drop_append_of_le_length inside

/-- Any number of the last bytes of a character, less than all, may be left of it. -/
theorem exists_drop_asBytes (front : List Char) (c : Char) (more : List Char) (remaining : Nat)
    (inside : remaining < c.utf8Size) :
    ∃ skip ≤ (asBytes (front ++ c :: more)).length, ∃ bytes, bytes.length = remaining ∧
      (∀ byte ∈ bytes, GoesOn byte) ∧
      (asBytes (front ++ c :: more)).drop skip = bytes ++ asBytes more := by
  obtain ⟨first, rest, encoded, -, -, goOn, -⟩ := utf8EncodeChar_spec c
  have size : rest.length + 1 = c.utf8Size := by
    rw [← String.length_utf8EncodeChar, encoded, List.length_cons]
  have whole : asBytes (front ++ c :: more) = asBytes front ++ (first :: rest ++ asBytes more) := by
    rw [asBytes, List.flatMap_append]
    show asBytes front ++ asBytes (c :: more) = _
    rw [asBytes_cons, encoded]
  refine ⟨(asBytes front).length + 1 + (rest.length - remaining), ?_,
    rest.drop (rest.length - remaining), ?_, ?_, ?_⟩
  · rw [whole, List.length_append, List.length_append, List.length_cons]
    omega
  · rw [List.length_drop]
    omega
  · exact fun byte member => goOn byte (List.mem_of_mem_drop member)
  · rw [whole, Nat.add_assoc, List.drop_length_add_append, Nat.add_comm 1, List.cons_append,
      List.drop_succ_cons, List.drop_append_of_le_length (Nat.sub_le ..)]

/-! ### The matcher of a segment -/

/-- Bytes that are no wildcard match themselves. -/
theorem segmentMatches_append (bytes rest text : List UInt8)
    (plain : ∀ byte ∈ bytes, byte ≠ star ∧ byte ≠ question) :
    segmentMatches (bytes ++ rest) text = true ↔
      ∃ more, text = bytes ++ more ∧ segmentMatches rest more = true := by
  induction bytes generalizing text with
  | nil =>
    constructor
    · exact fun matches_ => ⟨text, rfl, matches_⟩
    · rintro ⟨more, rfl, matches_⟩
      exact matches_
  | cons byte bytes inductionHypothesis =>
    have isPlain := plain byte List.mem_cons_self
    have step : segmentMatches (byte :: bytes ++ rest) text =
        (text.head? == some byte && segmentMatches (bytes ++ rest) (text.drop 1)) := by
      rw [List.cons_append, segmentMatches, if_neg isPlain.1, if_neg isPlain.2]
    rw [step, Bool.and_eq_true, inductionHypothesis _ fun other member =>
      plain other (List.mem_cons_of_mem _ member)]
    cases text with
    | nil => simp
    | cons first text =>
      simp only [List.head?_cons, beq_iff_eq, Option.some.injEq, List.drop_succ_cons,
        List.drop_zero, List.cons_append, List.cons.injEq]
      constructor
      · rintro ⟨rfl, more, rfl, matches_⟩
        exact ⟨more, ⟨rfl, rfl⟩, matches_⟩
      · rintro ⟨more, ⟨rfl, rfl⟩, matches_⟩
        exact ⟨rfl, more, rfl, matches_⟩

/-- No byte of a character that is no wildcard is one. -/
theorem utf8EncodeChar_plain {c : Char} (notStar : c ≠ '*') (notQuestion : c ≠ '?') :
    ∀ byte ∈ String.utf8EncodeChar c, byte ≠ star ∧ byte ≠ question := by
  obtain ⟨first, rest, bytes, -, -, goOn, own⟩ := utf8EncodeChar_spec c
  rw [bytes]
  refine List.forall_mem_cons.mpr ⟨⟨?_, ?_⟩, fun byte member => ⟨?_, ?_⟩⟩
  · rintro rfl
    exact notStar (Char.toNat_inj.mp (own (by decide)).1.symm)
  · rintro rfl
    exact notQuestion (Char.toNat_inj.mp (own (by decide)).1.symm)
  · rintro rfl
    exact absurd (goOn _ member).1 (by decide)
  · rintro rfl
    exact absurd (goOn _ member).1 (by decide)

section

variable {rest : List Char}

/-- What the matcher does with bytes left of a character and a text, past the wildcard or the
character at hand. -/
def Matched (glob : List Char) : Prop :=
  ∀ left : List UInt8, (∀ byte ∈ left, GoesOn byte) → ∀ text : List Char,
    segmentMatches (asBytes glob) (left ++ asBytes text) = true ↔ Sharing glob left.length text

theorem Matched.aligned {glob : List Char} (matched : Matched glob) (text : List Char) :
    segmentMatches (asBytes glob) (asBytes text) = true ↔ Sharing glob 0 text :=
  matched [] (List.forall_mem_nil _) text

theorem matched_nil : Matched [] := by
  intro left _ text
  show (left ++ asBytes text).isEmpty = true ↔ _
  rw [List.isEmpty_iff, List.append_eq_nil_iff, sharing_nil, List.length_eq_zero_iff]
  refine and_congr_right' ⟨fun none_ => ?_, ?_⟩
  · cases text with
    | nil => rfl
    | cons c text =>
      rw [asBytes_cons] at none_
      exact absurd (List.append_eq_nil_iff.mp none_).1 String.utf8EncodeChar_ne_nil
  · rintro rfl
    rfl

theorem Matched.star (matched : Matched rest) : Matched ('*' :: rest) := by
  intro left goOn text
  have step : segmentMatches (asBytes ('*' :: rest)) (left ++ asBytes text) = true ↔
      ∃ skip ≤ (left ++ asBytes text).length,
        segmentMatches (asBytes rest) ((left ++ asBytes text).drop skip) = true :=
    any_range_iff (left ++ asBytes text) (segmentMatches (asBytes rest))
  rw [step, sharing_star]
  constructor
  · rintro ⟨skip, within, matches_⟩
    rcases Nat.lt_or_ge left.length skip with past | inside
    · rw [List.length_append] at within
      obtain ⟨front, d, more, remaining, isText, shorter, bytesGoOn, dropped⟩ :=
        drop_asBytes text (skip - left.length) (by omega) (by omega)
      rw [List.drop_append, List.drop_eq_nil_of_le (Nat.le_of_lt past), List.nil_append,
        dropped, matched remaining bytesGoOn] at matches_
      exact Or.inr ⟨front, d, more, remaining.length, isText, shorter, matches_⟩
    · rw [List.drop_append_of_le_length inside, matched (left.drop skip)
        fun byte member => goOn byte (List.mem_of_mem_drop member)] at matches_
      exact Or.inl ⟨_, by rw [List.length_drop]; omega, matches_⟩
  · rintro (⟨remaining, fewer, after⟩ | ⟨front, d, more, remaining, rfl, inside, after⟩)
    · refine ⟨left.length - remaining, by rw [List.length_append]; omega, ?_⟩
      rw [List.drop_append_of_le_length (Nat.sub_le ..),
        matched _ fun byte member => goOn byte (List.mem_of_mem_drop member),
        List.length_drop, Nat.sub_sub_self fewer]
      exact after
    · obtain ⟨skip, within, bytes, rfl, bytesGoOn, dropped⟩ :=
        exists_drop_asBytes front d more remaining inside
      refine ⟨left.length + skip, by rw [List.length_append]; omega, ?_⟩
      rw [List.drop_length_add_append, dropped, matched bytes bytesGoOn]
      exact after

theorem segmentMatches_question (rest text : List UInt8) (first : UInt8) :
    segmentMatches (question :: rest) (first :: text) =
      (decide (0 < saidWidth first) && decide (saidWidth first ≤ (first :: text).length) &&
        segmentMatches rest ((first :: text).drop (saidWidth first))) := rfl

theorem Matched.question (matched : Matched rest) : Matched ('?' :: rest) := by
  intro left goOn text
  show segmentMatches (Scope.question :: asBytes rest) (left ++ asBytes text) = true ↔ _
  cases left with
  | cons byte left =>
    have width : saidWidth byte = 1 := (goOn byte List.mem_cons_self).saidWidth
    rw [List.cons_append, segmentMatches_question, width, @List.length_cons _ byte left,
      sharing_shares, ← matched left fun other member => goOn other (List.mem_cons_of_mem _ member)]
    simp
  | nil =>
    rw [List.nil_append, List.length_nil, sharing_takes]
    cases text with
    | nil => exact iff_of_false Bool.false_ne_true fun ⟨_, _, none_, _⟩ => nomatch none_
    | cons d more =>
      obtain ⟨first, tail, bytes, -, width, -, -⟩ := utf8EncodeChar_spec d
      rw [asBytes_cons, bytes, List.cons_append, segmentMatches_question, width,
        List.drop_succ_cons, List.drop_left, Bool.and_eq_true, matched.aligned]
      simp

theorem Matched.literal (matched : Matched rest) {c : Char} (notStar : c ≠ '*')
    (notQuestion : c ≠ '?') : Matched (c :: rest) := by
  intro left goOn text
  rw [asBytes_cons, segmentMatches_append _ _ _ (utf8EncodeChar_plain notStar notQuestion),
    sharing_literal notStar notQuestion]
  obtain ⟨first, tail, bytes, notOn, -, -, -⟩ := utf8EncodeChar_spec c
  constructor
  · rintro ⟨more, same, matches_⟩
    cases left with
    | cons byte left =>
      -- A character does not begin inside another.
      rw [bytes, List.cons_append, List.cons_append] at same
      exact absurd ((List.cons.inj same).1 ▸ goOn byte List.mem_cons_self) notOn
    | nil =>
      cases text with
      | nil =>
        rw [bytes] at same
        exact absurd same (List.cons_ne_nil _ _).symm
      | cons d text =>
        rw [List.nil_append, asBytes_cons] at same
        obtain ⟨rfl, rfl⟩ := utf8EncodeChar_append_inj same
        exact ⟨rfl, text, rfl, (matched.aligned text).mp matches_⟩
  · rintro ⟨none_, more, rfl, after⟩
    rw [List.length_eq_zero_iff.mp none_, List.nil_append, asBytes_cons]
    exact ⟨_, rfl, (matched.aligned more).mpr after⟩

end

/-- The matcher of a segment lets the wildcards share characters, and does nothing else. -/
theorem matched (glob : List Char) : Matched glob := by
  induction glob with
  | nil => exact matched_nil
  | cons c rest inductionHypothesis =>
    by_cases isStar : c = '*'
    · exact isStar ▸ inductionHypothesis.star
    · by_cases isQuestion : c = '?'
      · exact isQuestion ▸ inductionHypothesis.question
      · exact inductionHypothesis.literal isStar isQuestion

end Dagq.Scope
