/-
This file says what one round of a command's scan comes to. It is past the character
it began at and within the text, but past a quote that nothing closes, which leaves it
one past the end. What it reads as a whole it reads to its close, or to the end of the
text, and then the command was not read whole.
-/

import Dagq.Shape.Advance
import Dagq.Shape.Part

namespace Dagq.Shape

open Lib

namespace Lexer

variable {chars : List Char} {i : Nat} {lexer : Lexer}

/-! ### What is read as a whole -/

theorem redirect_advances (lexer : Lexer) (inside : i < chars.length) :
    i < (lexer.redirect chars i).2 ∧ (lexer.redirect chars i).2 ≤ chars.length := by
  have follows {at_ : Nat} {c : Char} (isChar : chars[at_]? = some c) : at_ + 1 ≤ chars.length :=
    lt_of_getElem? isChar
  unfold redirect
  dsimp only
  split
  · rename_i isHeredoc
    have second := follows isHeredoc.2
    split
    · rename_i hereString
      have third := follows hereString
      exact ⟨by dsimp only; omega, third⟩
    · dsimp only
      split
      · rename_i isStrip
        have third := follows (eq_of_beq isStrip)
        exact ⟨by omega, third⟩
      · exact ⟨by omega, second⟩
  · generalize isTarget : (if chars[i + 1]? = some '>' ∨ chars[i + 1]? = some '|' ∨
        (chars[i]? = some '<' ∧ chars[i + 1]? = some '>') then i + 1 + 1 else i + 1) = target
    have ofTarget : i < target ∧ target ≤ chars.length := by
      rw [← isTarget]
      split
      · rename_i another
        rcases another with isChar | isChar | ⟨_, isChar⟩ <;>
          exact ⟨by omega, follows isChar⟩
      · exact ⟨by omega, inside⟩
    split
    · rename_i isDescriptor
      have next := follows isDescriptor
      split
      · exact ⟨by dsimp only; omega, next⟩
      · have digits := run_le (fun c => !descriptorChar c) next
        exact ⟨by dsimp only; omega, digits⟩
    · exact ofTarget

/-- Every round of an ANSI-C quoted text reads a character, an escape as a whole. -/
theorem ansiQuotedStep_advances : Advances (ansiQuotedStep chars) Copied.i chars.length where
  round := by
    intro before after steps
    unfold ansiQuotedStep at steps
    split at steps
    · cases steps
    · split at steps
      · cases steps
      · rename_i c isChar
        have inside := lt_of_getElem? isChar
        split at steps
        · obtain rfl := Option.some.inj steps
          exact ⟨Nat.lt_succ_self _, inside⟩
        · split at steps
          · obtain rfl := Option.some.inj steps
            obtain ⟨past, within, _⟩ := ansiEscape_advances before.text
              (show before.i + 1 ≤ chars.length from inside)
            exact ⟨past, within⟩
          · obtain rfl := Option.some.inj steps
            exact ⟨Nat.lt_succ_self _, inside⟩

/-- Every round of a double-quoted text reads a character, an escape or a substitution as a
whole. -/
theorem doubleQuotedStep_advances :
    Advances (doubleQuotedStep chars) (·.copied.i) chars.length where
  round := by
    intro before after steps
    unfold doubleQuotedStep at steps
    dsimp only at steps
    split at steps
    · cases steps
    · split at steps
      · cases steps
      · rename_i c isChar
        have inside := lt_of_getElem? isChar
        split at steps
        · obtain rfl := Option.some.inj steps
          exact ⟨Nat.lt_succ_self _, inside⟩
        · split at steps
          · rename_i escape
            obtain rfl := Option.some.inj steps
            obtain ⟨next, isNext, _⟩ := (Option.any_eq_true _ _).mp escape.2
            have := lt_of_getElem? isNext
            dsimp only
            omega
          · split at steps
            · obtain rfl := Option.some.inj steps
              exact copyGroup_advances before.copied.text inside
            · split at steps
              · obtain rfl := Option.some.inj steps
                exact copyBackticks_advances before.copied.text inside
              · obtain rfl := Option.some.inj steps
                exact ⟨Nat.lt_succ_self _, inside⟩

/-- What `ansiQuoted` reads into `text`. -/
def ansiText (chars : List Char) (i : Nat) (text : String) : Copied :=
  loop (ansiQuotedStep chars) chars.length ⟨text, i, false⟩

theorem ansiQuoted_eq (lexer : Lexer) (chars : List Char) (i : Nat) :
    lexer.ansiQuoted chars i = (lexer.onWord (·.quote)).copies (ansiText chars i) := rfl

/-- What `doubleQuoted` reads into `text`. -/
def doubleText (chars : List Char) (i : Nat) (text : String) : Copied :=
  let scan := loop (doubleQuotedStep chars) chars.length ⟨⟨text, i, false⟩, false⟩
  { scan.copied with closed := scan.copied.closed && !scan.open_ }

theorem doubleQuoted_eq (lexer : Lexer) (chars : List Char) (i : Nat) :
    lexer.doubleQuoted chars i = (lexer.onWord (·.quote)).copies (doubleText chars i) := rfl

theorem ansiText_advances (text : String) (inside : i ≤ chars.length) :
    i ≤ (ansiText chars i text).i ∧ (ansiText chars i text).i ≤ chars.length ∧
      (i < chars.length → i < (ansiText chars i text).i) := by
  obtain ⟨past, within⟩ := ansiQuotedStep_advances.le chars.length ⟨text, i, false⟩ inside
  refine ⟨past, within, fun before => ansiQuotedStep_advances.lt ⟨text, i, false⟩ ?_
    (Nat.zero_lt_of_lt before)⟩
  unfold ansiQuotedStep
  rw [if_neg Bool.false_ne_true, List.getElem?_eq_getElem before]
  dsimp only
  split_ifs <;> exact Option.some_ne_none _

theorem doubleText_advances (text : String) (inside : i ≤ chars.length) :
    i ≤ (doubleText chars i text).i ∧ (doubleText chars i text).i ≤ chars.length ∧
      (i < chars.length → i < (doubleText chars i text).i) := by
  obtain ⟨past, within⟩ :=
    doubleQuotedStep_advances.le chars.length ⟨⟨text, i, false⟩, false⟩ inside
  refine ⟨past, within, fun before => doubleQuotedStep_advances.lt ⟨⟨text, i, false⟩, false⟩ ?_
    (Nat.zero_lt_of_lt before)⟩
  unfold doubleQuotedStep
  dsimp only
  rw [if_neg Bool.false_ne_true, List.getElem?_eq_getElem before]
  dsimp only
  split_ifs <;> exact Option.some_ne_none _

theorem skipHeredocs_advances (lexer : Lexer) (inside : i ≤ chars.length) :
    i ≤ (lexer.skipHeredocs chars i).2 ∧ (lexer.skipHeredocs chars i).2 ≤ chars.length := by
  have each (heredocs : List Heredoc) (start : Nat) (within : start ≤ chars.length) :
      start ≤ heredocs.foldl (heredocEnd chars) start ∧
        heredocs.foldl (heredocEnd chars) start ≤ chars.length := by
    induction heredocs generalizing start with
    | nil => exact ⟨le_rfl, within⟩
    | cons heredoc rest inductionHypothesis =>
      obtain ⟨past, stays, _⟩ := heredocEnd_advances heredoc within
      obtain ⟨further, ends⟩ := inductionHypothesis _ stays
      exact ⟨past.trans further, ends⟩
  exact each lexer.heredocs i inside

/-! ### Whether the command was read whole -/

theorem copies_broken (lexer : Lexer) (copy : String → Copied) :
    (lexer.copies copy).1.broken =
      (lexer.broken || !(copy (lexer.word.getD {}).text).closed) := rfl

theorem ansiText_closes (chars : List Char) (i : Nat) (text : String) :
    (ansiText chars i text).ClosesWith chars i '\'' := by
  refine @closesWith_of_advances chars Copied (ansiQuotedStep chars) id ⟨text, i, false⟩ '\''
    ansiQuotedStep_advances rfl ?_ ?_
  · intro before after steps closed
    unfold ansiQuotedStep at steps
    split at steps
    · cases steps
    · split at steps
      · cases steps
      · rename_i c isChar
        split at steps
        · rename_i isQuote
          obtain rfl := Option.some.inj steps
          exact isChar.trans (congrArg some isQuote)
        · split at steps <;> (obtain rfl := Option.some.inj steps; cases closed)
  · intro copied ended unclosed
    unfold ansiQuotedStep at ended
    rw [if_neg (by rw [show copied.closed = false from unclosed]; exact Bool.false_ne_true)] at ended
    split at ended
    · assumption
    · split_ifs at ended

theorem doubleQuotedStep_closes {before after : DoubleQuoted}
    (steps : doubleQuotedStep chars before = some after) (closed : after.copied.closed = true) :
    chars[after.copied.i - 1]? = some '"' := by
  unfold doubleQuotedStep at steps
  dsimp only at steps
  split at steps
  · cases steps
  · split at steps
    · cases steps
    · rename_i c isChar
      split at steps
      · rename_i isQuote
        obtain rfl := Option.some.inj steps
        exact isChar.trans (congrArg some isQuote)
      · split_ifs at steps <;> (obtain rfl := Option.some.inj steps; cases closed)

/-- A substitution in a double-quoted text that does not close comes to the end of the text. -/
theorem doubleQuotedStep_opens {before after : DoubleQuoted}
    (steps : doubleQuotedStep chars before = some after)
    (opened : before.open_ = true → chars.length ≤ before.copied.i)
    (isOpen : after.open_ = true) : chars.length ≤ after.copied.i := by
  unfold doubleQuotedStep at steps
  dsimp only at steps
  split at steps
  · cases steps
  · split at steps
    · cases steps
    · rename_i c isChar
      have inside := lt_of_getElem? isChar
      have unopened : before.open_ ≠ true := fun isOpen => absurd (opened isOpen) (not_le.mpr inside)
      have inner {copied : Copied} {start : Nat} {close : Char}
          (closes : copied.ClosesWith chars start close)
          (isOpen : (before.open_ || !copied.closed) = true) : chars.length ≤ copied.i := by
        refine closes.2 ?_
        simpa [unopened] using isOpen
      split at steps
      · obtain rfl := Option.some.inj steps
        exact absurd isOpen unopened
      · split at steps
        · obtain rfl := Option.some.inj steps
          exact absurd isOpen unopened
        · split at steps
          · obtain rfl := Option.some.inj steps
            have reached := inner (copyGroup_closes before.copied.text inside) isOpen
            exact reached
          · split at steps
            · obtain rfl := Option.some.inj steps
              have reached := inner (copyBackticks_closes chars _ before.copied.text) isOpen
              exact reached
            · obtain rfl := Option.some.inj steps
              exact absurd isOpen unopened

theorem doubleText_closes (chars : List Char) (i : Nat) (text : String) :
    (doubleText chars i text).ClosesWith chars i '"' := by
  have closes := @closesWith_of_advances chars DoubleQuoted (doubleQuotedStep chars)
    DoubleQuoted.copied ⟨⟨text, i, false⟩, false⟩ '"' doubleQuotedStep_advances rfl
    (fun _ _ => doubleQuotedStep_closes) (by
      intro scan ended unclosed
      unfold doubleQuotedStep at ended
      dsimp only at ended
      rw [unclosed, if_neg Bool.false_ne_true] at ended
      split at ended
      · assumption
      · split_ifs at ended)
  have opens := @loop_keeps DoubleQuoted (doubleQuotedStep chars) chars.length
    ⟨⟨text, i, false⟩, false⟩ (fun scan => scan.open_ = true → chars.length ≤ scan.copied.i)
    (fun _ _ opened steps => doubleQuotedStep_opens steps opened) nofun
  unfold doubleText
  generalize loop (doubleQuotedStep chars) chars.length ⟨⟨text, i, false⟩, false⟩ = scan
    at closes opens ⊢
  refine ⟨fun closed => closes.1 (Bool.and_eq_true_iff.mp closed).1, fun unclosed => ?_⟩
  cases isOpen : scan.open_ with
  | true => exact opens isOpen
  | false => exact closes.2 (by simpa [isOpen] using unclosed)

/-- What `singleQuoted` reads into `text`. -/
def singleText (chars : List Char) (i : Nat) (text : String) : Copied :=
  let inside := run chars (i + 1) (· == '\'')
  ⟨text ++ String.ofList inside, i + 1 + inside.length + 1,
    !decide (chars.length ≤ i + 1 + inside.length)⟩

theorem singleQuoted_eq (lexer : Lexer) (chars : List Char) (i : Nat) :
    lexer.singleQuoted chars i = (lexer.onWord (·.quote)).copies (singleText chars i) := by
  unfold singleQuoted copies singleText
  dsimp only
  rw [Bool.not_not]
  rfl

/-- A single-quoted text ends after its close, or one past the end of the text. -/
theorem singleText_advances (text : String) (inside : i < chars.length) :
    (singleText chars i text).ClosesWith chars (i + 1) '\'' ∧
      i < (singleText chars i text).i ∧
      ((singleText chars i text).i ≤ chars.length ∨
        (singleText chars i text).i = chars.length + 1 ∧
          (singleText chars i text).closed = false) := by
  have within := run_le (· == '\'') (show i + 1 ≤ chars.length from inside)
  unfold singleText
  dsimp only
  rcases run_stops chars (i + 1) (· == '\'') with atEnd | ⟨c, isChar, stops⟩
  · rw [decide_eq_true atEnd]
    exact ⟨⟨nofun, fun _ => by dsimp only; omega⟩, by omega, Or.inr ⟨by omega, rfl⟩⟩
  · have before := lt_of_getElem? isChar
    rw [decide_eq_false (not_le.mpr before)]
    refine ⟨⟨fun _ => ⟨by dsimp only; omega, ?_⟩, nofun⟩, by omega, Or.inl before⟩
    rw [Nat.add_sub_cancel, isChar, eq_of_beq stops]

/-! ### What does not read -/

@[simp] theorem pushWord_broken (lexer : Lexer) (word : Word) :
    (lexer.pushWord word).broken = lexer.broken := rfl

@[simp] theorem setCase_broken (lexer : Lexer) (at_ : CaseAt) :
    (lexer.setCase at_).broken = lexer.broken := rfl

@[simp] theorem onWord_broken (lexer : Lexer) (change : Word → Word) :
    (lexer.onWord change).broken = lexer.broken := rfl

@[simp] theorem push_broken (lexer : Lexer) (c : Char) : (lexer.push c).broken = lexer.broken := rfl

@[simp] theorem keepWord_broken (lexer : Lexer) (word : Word) :
    (lexer.keepWord word).broken = lexer.broken := by
  unfold keepWord
  dsimp only
  split
  · rfl
  · generalize isGlued : (if word.plain "[[" && lexer.commandPosition &&
        lexer.caseAt != some .pattern then { lexer with cond := true } else lexer) = conditional
    have same : conditional.broken = lexer.broken := by
      rw [← isGlued]
      split <;> rfl
    split
    · exact same
    · split <;> exact same
    · exact same
    · split <;> exact same

@[simp] theorem endWord_broken (lexer : Lexer) : lexer.endWord.broken = lexer.broken := by
  unfold endWord
  split
  · rfl
  · dsimp only
    split
    · rfl
    · rfl
    · exact keepWord_broken _ _

@[simp] theorem closesCase_broken (lexer : Lexer) :
    lexer.closesCase.2.broken = lexer.broken := by
  unfold closesCase
  dsimp only
  split_ifs
  · exact endWord_broken lexer
  · exact endWord_broken lexer

@[simp] theorem endPart_broken (lexer : Lexer) : lexer.endPart.broken = lexer.broken := by
  unfold endPart
  dsimp only
  split
  · exact endWord_broken lexer
  · exact endWord_broken lexer

theorem readClose_broken {lexer : Lexer} (isBroken : lexer.broken = true) :
    lexer.readClose.broken = true := by
  have still : lexer.closesCase.2.broken = true := (closesCase_broken lexer).trans isBroken
  unfold readClose
  dsimp only
  split
  · exact (endPart_broken _).trans still
  · refine (endPart_broken _).trans ?_
    dsimp only
    rw [still, Bool.true_or]

@[simp] theorem redirect_broken (lexer : Lexer) (chars : List Char) (i : Nat) :
    (lexer.redirect chars i).1.broken = lexer.broken := by
  unfold redirect
  dsimp only
  split_ifs <;> rfl

@[simp] theorem readSeparator_broken (lexer : Lexer) (c : Char) (next : Option Char) (i : Nat) :
    (lexer.readSeparator c next i).1.broken = lexer.broken := by
  unfold readSeparator
  dsimp only
  split
  · rw [setCase_broken]
    exact (endPart_broken _).trans (closesCase_broken lexer)
  · exact (endPart_broken _).trans (closesCase_broken lexer)

/-! ### A round of the scan -/

/-- The lexer as `c` finds it: a `]]` glued to an operator has closed its conditional
expression. -/
def glued (lexer : Lexer) (c : Char) : Lexer :=
  if lexer.cond && isOperator c && lexer.word.any (·.plain "]]") then lexer.endWord else lexer

theorem glued_broken (lexer : Lexer) (c : Char) : (lexer.glued c).broken = lexer.broken := by
  unfold glued
  split
  · exact endWord_broken lexer
  · rfl

/-- What closes the quote or the substitution that `c` begins at `i`, if it begins one, and what is
read of it. -/
def begins (lexer : Lexer) (chars : List Char) (i : Nat) (c : Char) : Option (Char × Copied) :=
  let next := chars[i + 1]?
  let lexer := lexer.glued c
  let text := (lexer.word.getD {}).text
  if c = '\'' then some ('\'', singleText chars i text)
  else if c = '"' then some ('"', doubleText chars (i + 1) text)
  else if c = '`' then some ('`', copyBackticks chars i text)
  else if c = '$' ∧ next.any (· ∈ ['(', '{', '[']) then
    some ((groupKind chars i).close, copyGroup chars i text)
  else if c = '$' ∧ next = some '\'' then some ('\'', ansiText chars (i + 2) text)
  else if (c = '>' ∨ c = '<') ∧ next = some '(' ∧ lexer.cond = false then
    some (')', copyParens chars (i + 1) (lexer.endWord.word.getD {}).text)
  else none

/-- What the round at `c` comes to. It is past `c` and within the text, but past a `'` that nothing
closes. A command not read whole is not read whole after it either. And it is past the close of
the quote or the substitution that `c` begins, or at the end of a text not read whole. -/
structure Reads (lexer : Lexer) (chars : List Char) (i : Nat) (c : Char) (after : Lexer × Nat) :
    Prop where
  past : i < after.2
  within : after.2 ≤ chars.length ∨
    c = '\'' ∧ after.2 = chars.length + 1 ∧ after.1.broken = true
  stays : lexer.broken = true → after.1.broken = true
  closes : ∀ close copied, lexer.begins chars i c = some (close, copied) →
    after.2 = copied.i ∧ copied.ClosesWith chars (i + 1) close ∧
      (copied.closed = false → after.1.broken = true)

variable {c close : Char} {after : Lexer × Nat} {quiet : Lexer}

/-- A round that begins no quote and no substitution. -/
theorem Reads.plain (unbegun : lexer.begins chars i c = none)
    (stays : lexer.broken = true → after.1.broken = true)
    (advances : i < after.2 ∧ after.2 ≤ chars.length) : Reads lexer chars i c after where
  past := advances.1
  within := Or.inl advances.2
  stays := stays
  closes close copied isBegun := by
    rw [unbegun] at isBegun
    cases isBegun

theorem copies_stays (copy : String → Copied) (isBroken : quiet.broken = true) :
    (quiet.copies copy).1.broken = true := by
  rw [copies_broken, isBroken, Bool.true_or]

/-- A round that reads a quote or a substitution as a whole. -/
theorem Reads.whole {copy : String → Copied}
    (begun : lexer.begins chars i c = some (close, copy (quiet.word.getD {}).text))
    (asQuiet : lexer.broken = true → quiet.broken = true)
    (past : i < (copy (quiet.word.getD {}).text).i)
    (within : (copy (quiet.word.getD {}).text).i ≤ chars.length ∨ c = '\'' ∧
      (copy (quiet.word.getD {}).text).i = chars.length + 1 ∧
        (copy (quiet.word.getD {}).text).closed = false)
    (closes : (copy (quiet.word.getD {}).text).ClosesWith chars (i + 1) close) :
    Reads lexer chars i c (quiet.copies copy) := by
  have unclosed (isOpen : (copy (quiet.word.getD {}).text).closed = false) :
      (quiet.copies copy).1.broken = true := by
    rw [copies_broken, isOpen, Bool.not_false, Bool.or_true]
  refine ⟨past, ?_, copies_stays copy ∘ asQuiet, fun other copied isBegun => ?_⟩
  · exact within.imp_right fun ⟨isSingle, atEnd, isOpen⟩ => ⟨isSingle, atEnd, unclosed isOpen⟩
  · obtain ⟨rfl, rfl⟩ := Prod.mk.inj (Option.some.inj (begun.symm.trans isBegun))
    exact ⟨rfl, closes, unclosed⟩

theorem begins_none (notQuote : ¬(c = '\'' ∨ c = '"' ∨ c = '`'))
    (notGroup : ¬(c = '$' ∧ chars[i + 1]?.any (· ∈ ['(', '{', '['])))
    (notAnsi : ¬(c = '$' ∧ chars[i + 1]? = some '\''))
    (notProcess : ¬((c = '>' ∨ c = '<') ∧ chars[i + 1]? = some '(' ∧
      (lexer.glued c).cond = false)) :
    lexer.begins chars i c = none := by
  simp only [not_or] at notQuote
  unfold begins
  dsimp only
  rw [if_neg notQuote.1, if_neg notQuote.2.1, if_neg notQuote.2.2, if_neg notGroup,
    if_neg notAnsi, if_neg notProcess]

/-- Most characters begin no quote and no substitution. -/
theorem begins_none_of {char : Char} (isChar : c = char)
    (plain : char ∉ ['\'', '"', '`', '$', '>', '<']) : lexer.begins chars i c = none := by
  subst isChar
  simp only [List.mem_cons, List.not_mem_nil, or_false, not_or] at plain
  exact begins_none (by tauto) (by tauto) (by tauto) (by tauto)

/-- A separator is read with its double. -/
theorem readSeparator_advances (lexer : Lexer) (c : Char) (inside : i < chars.length) :
    i < (lexer.readSeparator c chars[i + 1]? i).2 ∧
      (lexer.readSeparator c chars[i + 1]? i).2 ≤ chars.length := by
  unfold readSeparator
  dsimp only
  split
  · rename_i isDouble
    have isNext : chars[i + 1]? ≠ none := by
      intro isEnd
      simp only [isEnd, Option.any_none, Bool.and_false, Bool.or_false, Bool.false_eq_true,
        beq_eq_false_iff_ne.mpr (Option.some_ne_none _).symm] at isDouble
    have := (List.getElem?_eq_none_iff.not.mp isNext)
    omega
  · exact ⟨Nat.lt_succ_self i, inside⟩

/-- A `(` begins no quote and no substitution, but may be a text read as a whole. -/
theorem readOpen_advances (lexer : Lexer) (inside : i < chars.length) :
    i < (lexer.readOpen chars chars[i + 1]? i).2 ∧
      (lexer.readOpen chars chars[i + 1]? i).2 ≤ chars.length ∧
      (lexer.broken = true → (lexer.readOpen chars chars[i + 1]? i).1.broken = true) := by
  unfold readOpen
  dsimp only
  split_ifs with isFunction isText isArithmetic isPattern
  · have := lt_of_getElem? isFunction
    exact ⟨by dsimp only; omega, this, (endPart_broken lexer).trans⟩
  · obtain ⟨past, within, _⟩ := copyParens_advances (lexer.word.getD {}).text inside
    exact ⟨past, within, fun isBroken => (endWord_broken _).trans (copies_stays _ isBroken)⟩
  · obtain ⟨past, within, _⟩ := copyParens_advances (lexer.word.getD {}).text inside
    exact ⟨past, within, copies_stays _⟩
  · exact ⟨Nat.lt_succ_self i, inside, id⟩
  · exact ⟨Nat.lt_succ_self i, inside, (endPart_broken lexer).trans⟩

/-- What the character at `i` does is read past it, and closes what it begins or is not whole. -/
theorem scan_reads (lexer : Lexer) (isChar : chars[i]? = some c) :
    Reads lexer chars i c (lexer.scan chars i c) := by
  have inside := lt_of_getElem? isChar
  have same := glued_broken lexer c
  unfold scan
  dsimp only
  rw [← glued]
  generalize isQuiet : lexer.glued c = quiet at same
  have asQuiet (isBroken : lexer.broken = true) : quiet.broken = true := same.trans isBroken
  have stays {after : Lexer} (alike : after.broken = quiet.broken)
      (isBroken : lexer.broken = true) : after.broken = true := alike.trans (asQuiet isBroken)
  have one : i < i + 1 ∧ i + 1 ≤ chars.length := ⟨Nat.lt_succ_self i, inside⟩
  have two {char : Char} (isNext : chars[i + 1]? = some char) :
      i < i + 2 ∧ i + 2 ≤ chars.length := ⟨by omega, lt_of_getElem? isNext⟩
  refine iteInduction (fun isLine => ?_) fun notLine => ?_
  · have unbegun : lexer.begins chars i c = none := begins_none_of isLine (by decide)
    refine iteInduction (fun _ => ?_) fun _ => ?_
    · exact .plain unbegun (stays (endWord_broken _)) one
    · refine .plain unbegun (stays ?_) ?_
      · exact (endPart_broken _).trans (closesCase_broken _)
      · exact skipHeredocs_advances { quiet.closesCase.2.endPart with pattern := false }
          (show i + 1 ≤ chars.length from inside)
  refine iteInduction (fun isBlank => ?_) fun notBlank => ?_
  · refine .plain ?_ (stays (endWord_broken _)) one
    rcases isBlank with isC | isC | isC <;> exact begins_none_of isC (by decide)
  refine iteInduction (fun isComment => ?_) fun notComment => ?_
  · have within := run_le (· == '\n') (show i + 1 ≤ chars.length from inside)
    exact .plain (begins_none_of isComment.1 (by decide)) (stays rfl)
      ⟨by dsimp only; omega, within⟩
  refine iteInduction (fun isSingle => ?_) fun notSingle => ?_
  · obtain ⟨closes, past, within⟩ := singleText_advances (quiet.word.getD {}).text inside
    have begun : lexer.begins chars i c =
        some ('\'', singleText chars i (quiet.word.getD {}).text) := by
      rw [begins, if_pos isSingle, isQuiet]
    rw [singleQuoted_eq]
    exact .whole begun asQuiet past
      (within.imp_right fun ⟨atEnd, isOpen⟩ => ⟨isSingle, atEnd, isOpen⟩) closes
  refine iteInduction (fun isDouble => ?_) fun notDouble => ?_
  · obtain ⟨past, within, _⟩ := doubleText_advances (quiet.word.getD {}).text
      (show i + 1 ≤ chars.length from inside)
    have begun : lexer.begins chars i c =
        some ('"', doubleText chars (i + 1) (quiet.word.getD {}).text) := by
      rw [begins, if_neg notSingle, if_pos isDouble, isQuiet]
    rw [doubleQuoted_eq]
    exact .whole begun asQuiet past (Or.inl within) (doubleText_closes chars (i + 1) _)
  refine iteInduction (fun isEscape => ?_) fun notEscape => ?_
  · have unbegun : lexer.begins chars i c = none := begins_none_of isEscape (by decide)
    split
    · exact .plain unbegun (stays rfl) one
    · rename_i escaped isNext
      refine .plain unbegun (stays ?_) (two isNext)
      dsimp only
      split <;> rfl
  refine iteInduction (fun isGroup => ?_) fun notGroup => ?_
  · have notBacktick : c ≠ '`' := by
      rw [isGroup.1]
      decide
    have begun : lexer.begins chars i c =
        some ((groupKind chars i).close, copyGroup chars i (quiet.word.getD {}).text) := by
      rw [begins, if_neg notSingle, if_neg notDouble, if_neg notBacktick, if_pos isGroup, isQuiet]
    obtain ⟨past, within⟩ := copyGroup_advances (quiet.word.getD {}).text inside
    exact .whole begun asQuiet past (Or.inl within) (copyGroup_closes _ inside)
  refine iteInduction (fun isDollars => ?_) fun notDollars => ?_
  · refine .plain (begins_none ?_ notGroup ?_ ?_) (stays rfl) (two isDollars.2)
    · rw [isDollars.1]
      decide
    · rintro ⟨_, isNext⟩
      exact absurd (isDollars.2.symm.trans isNext) (by decide)
    · rintro ⟨isAngle, _⟩
      rw [isDollars.1] at isAngle
      exact absurd isAngle (by decide)
  refine iteInduction (fun isAnsi => ?_) fun notAnsi => ?_
  · have notBacktick : c ≠ '`' := by
      rw [isAnsi.1]
      decide
    have begun : lexer.begins chars i c =
        some ('\'', ansiText chars (i + 2) (quiet.word.getD {}).text) := by
      rw [begins, if_neg notSingle, if_neg notDouble, if_neg notBacktick, if_neg notGroup,
        if_pos isAnsi, isQuiet]
    obtain ⟨past, within, _⟩ := ansiText_advances (quiet.word.getD {}).text (two isAnsi.2).2
    obtain ⟨closed, unclosed⟩ := ansiText_closes chars (i + 2) (quiet.word.getD {}).text
    rw [ansiQuoted_eq]
    refine .whole begun asQuiet ((two isAnsi.2).1.trans_le past) (Or.inl within)
      ⟨fun isClosed => ?_, unclosed⟩
    obtain ⟨further, isClose⟩ := closed isClosed
    exact ⟨(Nat.lt_succ_self _).trans further, isClose⟩
  refine iteInduction (fun isBacktick => ?_) fun notBacktick => ?_
  · have begun : lexer.begins chars i c =
        some ('`', copyBackticks chars i (quiet.word.getD {}).text) := by
      rw [begins, if_neg notSingle, if_neg notDouble, if_pos isBacktick, isQuiet]
    obtain ⟨past, within⟩ := copyBackticks_advances (quiet.word.getD {}).text inside
    exact .whole begun asQuiet past (Or.inl within) (copyBackticks_closes chars i _)
  have notQuote : ¬(c = '\'' ∨ c = '"' ∨ c = '`') := by tauto
  refine iteInduction (fun isWord => ?_) fun notWord => ?_
  · obtain ⟨_, isCond⟩ := Bool.and_eq_true_iff.mp isWord
    refine .plain (begins_none notQuote notGroup notAnsi ?_) (stays rfl) one
    rintro ⟨_, _, notCond⟩
    rw [isQuiet, isCond] at notCond
    cases notCond
  refine iteInduction (fun isBoth => ?_) fun notBoth => ?_
  · obtain ⟨past, within⟩ := redirect_advances quiet.endWord (lt_of_getElem? isBoth.2)
    exact .plain (begins_none_of isBoth.1 (by decide))
      (stays ((redirect_broken _ _ _).trans (endWord_broken _))) ⟨by omega, within⟩
  refine iteInduction (fun isPattern => ?_) fun notPattern => ?_
  · have unbegun : lexer.begins chars i c = none := begins_none_of isPattern.1 (by decide)
    refine iteInduction (fun _ => ?_) fun _ => ?_
    · exact .plain unbegun (stays ((readSeparator_broken _ _ _ _).trans (closesCase_broken _)))
        (readSeparator_advances _ _ inside)
    · exact .plain unbegun (stays ((endWord_broken _).trans (closesCase_broken _))) one
  refine iteInduction (fun isSeparator => ?_) fun notSeparator => ?_
  · refine .plain ?_ (stays (readSeparator_broken _ _ _ _)) (readSeparator_advances _ _ inside)
    rcases isSeparator with isC | isC | isC <;> exact begins_none_of isC (by decide)
  refine iteInduction (fun isOpen => ?_) fun notOpen => ?_
  · obtain ⟨past, within, keeps⟩ := readOpen_advances quiet inside
    exact .plain (begins_none_of isOpen (by decide)) (keeps ∘ asQuiet) ⟨past, within⟩
  refine iteInduction (fun isClose => ?_) fun notClose => ?_
  · exact .plain (begins_none_of isClose (by decide)) (readClose_broken ∘ asQuiet) one
  refine iteInduction (fun isProcess => ?_) fun notProcess => ?_
  · have notCond : quiet.cond = false := by
      rcases isProcess.1 with isC | isC <;> simpa [isC, isOperator] using notWord
    have begun : lexer.begins chars i c =
        some (')', copyParens chars (i + 1) (quiet.endWord.word.getD {}).text) := by
      rw [begins, if_neg notSingle, if_neg notDouble, if_neg notBacktick, if_neg notGroup,
        if_neg notAnsi, isQuiet, if_pos ⟨isProcess.1, isProcess.2, notCond⟩]
    obtain ⟨past, within, closes⟩ := copyParens_advances (quiet.endWord.word.getD {}).text
      (lt_of_getElem? isProcess.2)
    exact .whole begun (stays (endWord_broken _)) ((Nat.lt_succ_self i).trans past)
      (Or.inl within) (closes isProcess.2)
  have unbegun : lexer.begins chars i c = none :=
    begins_none notQuote notGroup notAnsi fun isProcess => notProcess ⟨isProcess.1, isProcess.2.1⟩
  refine iteInduction (fun isRedirect => ?_) fun notRedirect => ?_
  · refine .plain unbegun (stays ?_) (redirect_advances _ inside)
    refine (redirect_broken _ _ _).trans ?_
    split
    · rfl
    · exact endWord_broken _
  · exact .plain unbegun (stays rfl) one

end Lexer

end Dagq.Shape
