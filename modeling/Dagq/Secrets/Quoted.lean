/-
This file proves that a name is decoded from what is printed of it: the escapes of every byte
read back, so a quoted name gives its bytes, and a header names its file exactly where the name
is in UTF-8.
-/

import Dagq.Secrets.Diff

namespace Dagq.Secrets

open Lib

/-! ### Escapes -/

/-- The bytes that are printed as they are. -/
def Printable (byte : UInt8) : Prop := 0x20 ≤ byte.toNat ∧ byte.toNat < 0x7f

instance (byte : UInt8) : Decidable (Printable byte) :=
  inferInstanceAs (Decidable (0x20 ≤ byte.toNat ∧ byte.toNat < 0x7f))

theorem toNat_octalDigit (byte : UInt8) (place : Nat) :
    (octalDigit byte place).toNat = 48 + byte.toNat / place % 8 := by
  rw [octalDigit, UInt8.toNat_ofNat']
  omega

theorem isOctal_octalDigit (byte : UInt8) (place : Nat) : isOctal (octalDigit byte place) = true := by
  rw [isOctal, toNat_octalDigit, decide_eq_true_eq]
  omega

/-- The octal digits of a byte read back. -/
theorem octalByte_octalDigit (byte : UInt8) :
    octalByte (octalDigit byte 64) (octalDigit byte 8) (octalDigit byte 1) = some byte := by
  have small := byte.toNat_lt
  have isByte : (48 + byte.toNat / 64 % 8 - 48) * 64 + (48 + byte.toNat / 8 % 8 - 48) * 8 +
      (48 + byte.toNat / 1 % 8 - 48) = byte.toNat := by omega
  rw [octalByte]
  simp only [isOctal_octalDigit, toNat_octalDigit, isByte, Bool.true_and]
  rw [if_pos (decide_eq_true small), UInt8.ofNat_toNat]

/-- A letter stands for its byte. -/
theorem letterFor_spec {byte : UInt8} {letter : Char} (isLetter : letterFor byte = some letter) :
    isOctal (UInt8.ofNat letter.toNat) = false ∧ unescaped (UInt8.ofNat letter.toNat) = byte ∧
      Printable (UInt8.ofNat letter.toNat) := by
  have isByte : ∀ n : Nat, byte.toNat = n → UInt8.ofNat n = byte := by
    rintro n rfl
    exact UInt8.ofNat_toNat
  unfold letterFor at isLetter
  split at isLetter
  case h_10 => cases isLetter
  all_goals
    next isNumber =>
      obtain rfl := Option.some.inj isLetter
      rw [← isByte _ isNumber]
      decide

/-- How a byte is escaped: by a letter that stands for it, in octal, or not at all. -/
theorem escape_cases (byte : UInt8) :
    (∃ letter, escape byte = [0x5c, letter] ∧ isOctal letter = false ∧ unescaped letter = byte ∧
        Printable letter) ∨
      escape byte = [0x5c, octalDigit byte 64, octalDigit byte 8, octalDigit byte 1] ∨
      (escape byte = [byte] ∧ charOf byte ≠ '\\' ∧ Printable byte) := by
  unfold escape
  split
  · next letter isLetter => exact Or.inl ⟨_, rfl, letterFor_spec isLetter⟩
  · split
    · exact Or.inr (Or.inl rfl)
    · next notQuoted =>
      simp only [mustQuote, Bool.or_eq_true, decide_eq_true_eq, not_or, not_lt, not_le] at notQuoted
      exact Or.inr (Or.inr ⟨rfl, notQuoted.2, notQuoted.1.1⟩)

theorem printable_of_mem_escape {byte escaped : UInt8} (member : escaped ∈ escape byte) :
    Printable escaped := by
  have octal : ∀ place, Printable (octalDigit byte place) := by
    intro place
    rw [Printable, toNat_octalDigit]
    omega
  obtain ⟨letter, isEscape, _, _, isPrintable⟩ | isEscape | ⟨isEscape, _, isPrintable⟩ :=
    escape_cases byte <;> rw [isEscape] at member
  · obtain rfl | rfl := List.mem_pair.mp member
    · decide
    · exact isPrintable
  · simp only [List.mem_cons, List.not_mem_nil, or_false] at member
    obtain rfl | rfl | rfl | rfl := member
    · decide
    · exact octal 64
    · exact octal 8
    · exact octal 1
  · rw [List.mem_singleton.mp member]
    exact isPrintable

/-- The escape of a byte reads back. -/
theorem unescape_escape_append (byte : UInt8) (rest : List UInt8) :
    unescape (escape byte ++ rest) = (unescape rest).map (byte :: ·) := by
  obtain ⟨letter, isEscape, notOctal, isByte, _⟩ | isEscape | ⟨isEscape, notSlash, _⟩ :=
    escape_cases byte <;> rw [isEscape]
  · show unescape (0x5c :: letter :: rest) = _
    rw [unescape.eq_def]
    dsimp only
    rw [if_neg (by decide), notOctal, isByte]
    rfl
  · show unescape (0x5c :: octalDigit byte 64 :: octalDigit byte 8 :: octalDigit byte 1 :: rest) = _
    rw [unescape.eq_def]
    dsimp only
    rw [if_neg (by decide), isOctal_octalDigit, if_pos rfl, octalByte_octalDigit, Option.bind_some]
  · show unescape (byte :: rest) = _
    rw [unescape.eq_def]
    dsimp only
    rw [if_pos notSlash]

theorem unescape_escapes (name : List UInt8) : unescape (name.flatMap escape) = some name := by
  induction name with
  | nil => rfl
  | cons byte name inductionHypothesis =>
    rw [List.flatMap_cons, unescape_escape_append, inductionHypothesis]
    rfl

/-! ### Printed names -/

theorem dropPrefix?_append (lead rest : List Char) : (lead ++ rest).dropPrefix? lead = some rest :=
  List.dropPrefix?_append_of_beq rest BEq.rfl

theorem dropSuffix?_append (rest tail : List Char) : (rest ++ tail).dropSuffix? tail = some rest :=
  List.dropSuffix?_eq_some_iff.mpr ⟨tail, rfl, BEq.rfl⟩

theorem lossy_ascii_append (text : String) (rest : List UInt8) :
    lossy (ascii text ++ rest) = text.toList ++ lossy rest :=
  lossy_bytesOf_append text.toList rest

/-- The text of printable bytes. -/
theorem lossy_of_printable {bytes : List UInt8} (printable : ∀ byte ∈ bytes, Printable byte) :
    lossy bytes = bytes.map charOf :=
  lossy_of_ascii fun byte member => by
    have high := (printable byte member).2
    omega

theorem bytesOf_lossy_of_printable {bytes : List UInt8}
    (printable : ∀ byte ∈ bytes, Printable byte) : bytesOf (lossy bytes) = bytes := by
  rw [lossy_of_printable printable, bytesOf_map_charOf]
  intro byte member
  have high := (printable byte member).2
  omega

theorem printable_escapes (name : List UInt8) : ∀ byte ∈ name.flatMap escape, Printable byte := by
  intro byte member
  obtain ⟨escaped, _, isEscape⟩ := List.mem_flatMap.mp member
  exact printable_of_mem_escape isEscape

theorem lossy_quote (name : List UInt8) :
    lossy (quote name) = ['"'] ++ (lossy (name.flatMap escape) ++ ['"']) := by
  rw [← lossy_bytesOf (['"'] ++ _), bytesOf_append, bytesOf_append,
    bytesOf_lossy_of_printable (printable_escapes name), ← List.append_assoc]
  rfl

/-- Decoding a quoted name undoes its quoting. -/
theorem unquote_quote (name : List UInt8) : unquote (lossy (quote name)) = some name := by
  simp only [unquote, lossy_quote, dropPrefix?_append, dropSuffix?_append, Option.bind_eq_bind,
    Option.bind_some, bytesOf_lossy_of_printable (printable_escapes name), unescape_escapes]

theorem printable_of_not_mustQuote {byte : UInt8} (plain : mustQuote byte = false) :
    Printable byte := by
  simp only [mustQuote, Bool.or_eq_false_iff, decide_eq_false_iff_not, not_or, not_lt, not_le]
    at plain
  exact plain.1.1

/-- A name is printed in printable bytes. -/
theorem printable_label (name : List UInt8) : ∀ byte ∈ label name, Printable byte := by
  intro byte member
  rw [label] at member
  split at member
  · rcases List.mem_append.mp member with member | isQuote
    · rcases List.mem_append.mp member with isQuote | isEscape
      · rw [List.mem_singleton.mp isQuote]
        decide
      · exact printable_escapes name byte isEscape
    · rw [List.mem_singleton.mp isQuote]
      decide
  · next plain =>
    rw [Bool.not_eq_true, List.any_eq_false] at plain
    exact printable_of_not_mustQuote (Bool.eq_false_iff.mpr (plain byte member))

/-- The characters of printable bytes are those between the blank and the last. -/
theorem toNat_of_mem_lossy {bytes : List UInt8} (printable : ∀ byte ∈ bytes, Printable byte)
    {char : Char} (member : char ∈ lossy bytes) : 0x20 ≤ char.toNat ∧ char.toNat < 0x7f := by
  rw [lossy_of_printable printable] at member
  obtain ⟨byte, isByte, rfl⟩ := List.mem_map.mp member
  rw [toNat_charOf]
  exact printable byte isByte

/-- The tab that ends a name with a space in it is taken off. -/
theorem dropTab_labelled (name : List UInt8) :
    ((lossy (labelled name)).dropSuffix? ['\t']).getD (lossy (labelled name)) =
      lossy (label name) := by
  have printable := printable_label name
  rw [labelled]
  split
  · have isText : label name ++ ascii "\t" = bytesOf (lossy (label name) ++ ['\t']) := by
      rw [bytesOf_append, bytesOf_lossy_of_printable printable]
      rfl
    rw [isText, lossy_bytesOf, dropSuffix?_append, Option.getD_some]
  · rw [List.append_nil]
    cases drops : (lossy (label name)).dropSuffix? ['\t'] with
    | none => rfl
    | some rest =>
      obtain ⟨tab, isText, isTab⟩ := List.dropSuffix?_eq_some_iff.mp drops
      have low := (@toNat_of_mem_lossy (label name) printable '\t'
        (by rw [isText, eq_of_beq isTab]; simp)).1
      exact absurd low (by decide)

/-- The name of a file decodes, exactly where it is in UTF-8. -/
theorem decodeName_label (name : List UInt8) :
    decodeName (lossy (label (ascii "b/" ++ name))) =
      ("b/".toList ++ lossy name, (textOf? name).isSome) := by
  rw [label]
  split
  · have unquotes := unquote_quote (ascii "b/" ++ name)
    have reads : textOf? (ascii "b/" ++ name) = (textOf? name).map ("b/".toList ++ ·) :=
      textOf?_bytesOf_append "b/".toList name
    rw [lossy_quote] at unquotes ⊢
    have isQuoted :
        (['"'] ++ (lossy ((ascii "b/" ++ name).flatMap escape) ++ ['"'])).head? = some '"' := rfl
    rw [decodeName, if_pos isQuoted, unquotes]
    dsimp only
    rw [reads]
    cases isName : textOf? name with
    | none =>
      rw [Option.map_none, lossy_ascii_append]
      rfl
    | some text =>
      rw [lossy_of_textOf? isName]
      rfl
  · next plain =>
    rw [Bool.not_eq_true, List.any_eq_false] at plain
    have printable : ∀ byte ∈ name, Printable byte := fun byte member =>
      printable_of_not_mustQuote
        (Bool.eq_false_iff.mpr (plain byte (List.mem_append_right _ member)))
    have reads : textOf? name = some (lossy name) :=
      textOf?_eq_some_iff.mpr (bytesOf_lossy_of_printable printable)
    have isExact : '\uFFFD' ∉ "b/".toList ++ lossy name := by
      intro member
      rcases List.mem_append.mp member with isLead | isName
      · revert isLead
        decide
      · have high := (toNat_of_mem_lossy printable isName).2
        exact absurd high (by decide)
    have isPlain : ("b/".toList ++ lossy name).head? = some 'b' := rfl
    rw [lossy_ascii_append, decodeName, isPlain, if_neg (by decide), reads, decide_eq_true isExact]
    rfl

/-- The header of a file's hunks names it. -/
theorem newName_labelled (name : List UInt8) :
    newName (lossy (labelled (ascii "b/" ++ name))) =
      some (lossy name, (textOf? name).isSome) := by
  have isFile : lossy (label (ascii "b/" ++ name)) ≠ "/dev/null".toList := by
    intro same
    have decodes := decodeName_label name
    rw [same] at decodes
    exact absurd (congrArg (·.1.head?) decodes) (by simp [decodeName])
  rw [newName, dropTab_labelled]
  dsimp only
  rw [if_neg isFile, decodeName_label]
  dsimp only
  rw [dropPrefix?_append, Option.getD_some]

end Dagq.Secrets
