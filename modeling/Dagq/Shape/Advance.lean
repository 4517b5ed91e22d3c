/-
This file proves that what copies a text it does not read advances over it: a reader
called within the text comes to an index past where it began and within the text, each
of its rounds does so too, and it ends by itself, whatever its fuel. It came to its
close, the character before that index, or to the end of the text.
-/

import Mathlib.Tactic
import Dagq.Shape.Group

namespace Dagq.Shape

open Lib

variable {chars : List Char} {i : Nat}

/-! ### Runs of characters -/

theorem lt_of_getElem? {c : Char} (isChar : chars[i]? = some c) : i < chars.length :=
  (List.getElem?_eq_some_iff.mp isChar).1

theorem run_le (stop : Char → Bool) (inside : i ≤ chars.length) :
    i + (run chars i stop).length ≤ chars.length := by
  have := (List.takeWhile_sublist (l := chars.drop i) fun char => !stop char).length_le
  rw [List.length_drop] at this
  unfold run
  omega

theorem drop_take_le (count : Nat) (inside : i ≤ chars.length) :
    i + ((chars.drop i).take count).length ≤ chars.length := by
  rw [List.length_take, List.length_drop]
  omega

theorem takeWhile_stops (goesOn : Char → Bool) (text : List Char) :
    text.length ≤ (text.takeWhile goesOn).length ∨
      ∃ c, text[(text.takeWhile goesOn).length]? = some c ∧ goesOn c = false := by
  induction text with
  | nil => exact Or.inl le_rfl
  | cons first rest inductionHypothesis =>
    by_cases more : goesOn first = true
    · rw [List.takeWhile_cons_of_pos more, List.length_cons, List.length_cons,
        List.getElem?_cons_succ]
      exact inductionHypothesis.imp_left Nat.succ_le_succ
    · rw [List.takeWhile_cons_of_neg more]
      exact Or.inr ⟨first, rfl, by simpa using more⟩

/-- A run ends at the end of the text or at a character that stops it. -/
theorem run_stops (chars : List Char) (i : Nat) (stop : Char → Bool) :
    chars.length ≤ i + (run chars i stop).length ∨
      ∃ c, chars[i + (run chars i stop).length]? = some c ∧ stop c = true := by
  unfold run
  rcases takeWhile_stops (fun char => !stop char) (chars.drop i) with all | ⟨c, isChar, stops⟩
  · rw [List.length_drop] at all
    exact Or.inl (by omega)
  · rw [List.getElem?_drop] at isChar
    exact Or.inr ⟨c, isChar, by simpa using stops⟩

/-! ### Heredocs -/

section Heredocs

variable {heredoc : Heredoc}

/-- A physical line advances the body, unless it is at the end of the text. -/
theorem bodyLineStep_advances {before after : BodyLine}
    (steps : bodyLineStep chars heredoc before = some after) (inside : before.i ≤ chars.length) :
    before.i ≤ after.i ∧ after.i ≤ chars.length ∧
      (before.i < chars.length → before.i < after.i) ∧ before.read = false ∧
      (after.read = false → before.i < chars.length) := by
  have bound := run_le (· == '\n') inside
  have next : after.i = min (before.i + (run chars before.i (· == '\n')).length + 1) chars.length ∧
      before.read = false ∧ (after.read = false →
        before.i + (run chars before.i (· == '\n')).length < chars.length) := by
    unfold bodyLineStep at steps
    dsimp only at steps
    generalize (if heredoc.strip && before.first then
      (run chars before.i (· == '\n')).dropWhile (· == '\t')
        else run chars before.i (· == '\n')) = physical at steps
    split at steps
    · cases steps
    · rename_i unread
      split at steps
      · rename_i more
        obtain rfl := Option.some.inj steps
        exact ⟨rfl, by simpa using unread,
          fun _ => of_decide_eq_true (Bool.and_eq_true_iff.mp more).2⟩
      · obtain rfl := Option.some.inj steps
        exact ⟨rfl, by simpa using unread, nofun⟩
  obtain ⟨isNext, unread, goesOn⟩ := next
  refine ⟨by omega, by omega, fun _ => by omega, unread, fun more => ?_⟩
  have := goesOn more
  omega

/-- A line of a heredoc's body is read within the text, and past where it began but at its
end. -/
theorem bodyLine_advances (fuel : Nat) {start : BodyLine} (unread : start.read = false)
    (inside : start.i ≤ chars.length) :
    start.i ≤ (loop (bodyLineStep chars heredoc) (fuel + 1) start).i ∧
      (loop (bodyLineStep chars heredoc) (fuel + 1) start).i ≤ chars.length ∧
      (start.i < chars.length →
        start.i < (loop (bodyLineStep chars heredoc) (fuel + 1) start).i) := by
  have keeps (from_ : Nat) {first : BodyLine} (holds : from_ ≤ first.i ∧ first.i ≤ chars.length) :
      from_ ≤ (loop (bodyLineStep chars heredoc) fuel first).i ∧
        (loop (bodyLineStep chars heredoc) fuel first).i ≤ chars.length := by
    refine @loop_keeps _ _ fuel first
      (fun body : BodyLine => from_ ≤ body.i ∧ body.i ≤ chars.length) ?_ holds
    rintro before after ⟨past, within⟩ steps
    obtain ⟨further, stays, _⟩ := bodyLineStep_advances steps within
    exact ⟨past.trans further, stays⟩
  rw [loop]
  cases steps : bodyLineStep chars heredoc start with
  | none =>
    unfold bodyLineStep at steps
    rw [unread, if_neg Bool.false_ne_true] at steps
    dsimp only at steps
    split at steps <;> split at steps <;> cases steps
  | some next =>
    obtain ⟨further, within, past, _⟩ := bodyLineStep_advances steps inside
    obtain ⟨more, stays⟩ := keeps next.i ⟨le_rfl, within⟩
    exact ⟨further.trans more, stays, fun before => (past before).trans_le more⟩

/-- The body of a heredoc is read within the text, each line of it past where it began. -/
theorem heredocStep_advances (heredoc : Heredoc) :
    Advances (heredocStep chars heredoc) (·.1) chars.length where
  round := by
    rintro ⟨before, done⟩ after steps
    unfold heredocStep at steps
    split at steps
    · cases steps
    · rename_i more
      have inside : before < chars.length := by
        simp only [Bool.or_eq_true, decide_eq_true_eq, not_or, not_le] at more
        exact more.2
      obtain rfl := Option.some.inj steps
      obtain ⟨_, within, past⟩ := @bodyLine_advances chars heredoc chars.length
        ⟨[], true, before, false⟩ rfl inside.le
      exact ⟨past inside, within⟩

theorem heredocEnd_advances (heredoc : Heredoc) (inside : i ≤ chars.length) :
    i ≤ heredocEnd chars i heredoc ∧ heredocEnd chars i heredoc ≤ chars.length ∧
      (i < chars.length → i < heredocEnd chars i heredoc) := by
  have advances := @heredocStep_advances chars heredoc
  obtain ⟨past, within⟩ := advances.le chars.length (i, false) inside
  refine ⟨past, within, fun before => ?_⟩
  refine advances.lt (i, false) ?_ (Nat.zero_lt_of_lt before)
  unfold heredocStep
  rw [if_neg (by simpa using before)]
  exact Option.some_ne_none _

end Heredocs

/-! ### Backticks -/

/-- Every round of the copy between backticks reads a character, and another after a `\`. -/
theorem backticksStep_advances : Advances (backticksStep chars) Copied.i chars.length where
  round := by
    intro before after steps
    unfold backticksStep at steps
    split at steps
    · cases steps
    · split at steps
      · cases steps
      · rename_i c isChar
        have inside := lt_of_getElem? isChar
        dsimp only at steps
        split at steps
        · split at steps
          · rename_i escaped isEscaped
            obtain rfl := Option.some.inj steps
            have := lt_of_getElem? isEscaped
            dsimp only
            omega
          · obtain rfl := Option.some.inj steps
            exact ⟨Nat.lt_succ_self _, inside⟩
        · obtain rfl := Option.some.inj steps
          exact ⟨Nat.lt_succ_self _, inside⟩

/-- A copy from `start` on came to its close, copied last, or to the end of the text. -/
def Copied.ClosesWith (chars : List Char) (start : Nat) (close : Char) (copied : Copied) : Prop :=
  (copied.closed = true → start < copied.i ∧ chars[copied.i - 1]? = some close) ∧
    (copied.closed = false → chars.length ≤ copied.i)

/-- A copy that closes at `close` only, and ends there or where the text does, came to one of the
two. -/
theorem closesWith_of_advances {State : Type} {step : State → Option State}
    {copied : State → Copied} {start : State} {close : Char}
    (advances : Advances step (fun state => (copied state).i) chars.length)
    (unclosed : (copied start).closed = false)
    (closes : ∀ before after, step before = some after → (copied after).closed = true →
      chars[(copied after).i - 1]? = some close)
    (ends : ∀ state, step state = none → (copied state).closed = false →
      chars[(copied state).i]? = none) :
    (copied (loop step chars.length start)).ClosesWith chars (copied start).i close := by
  constructor
  · refine (@loop_keeps State step chars.length start
      (fun state => (copied start).i ≤ (copied state).i ∧ ((copied state).closed = true →
        (copied start).i < (copied state).i ∧ chars[(copied state).i - 1]? = some close)) ?_
      ⟨le_rfl, fun closed => absurd (unclosed.symm.trans closed) Bool.false_ne_true⟩).2
    rintro before after ⟨past, _⟩ steps
    have further := (advances.round before after steps).1
    exact ⟨past.trans further.le,
      fun closed => ⟨past.trans_lt further, closes before after steps closed⟩⟩
  · intro stillOpen
    exact List.getElem?_eq_none_iff.mp (ends _ (advances.ends start le_rfl) stillOpen)

theorem copyBackticks_advances (text : String) (inside : i < chars.length) :
    i < (copyBackticks chars i text).i ∧ (copyBackticks chars i text).i ≤ chars.length :=
  backticksStep_advances.le chars.length ⟨text.push '`', i + 1, false⟩ inside

theorem copyBackticks_closes (chars : List Char) (i : Nat) (text : String) :
    (copyBackticks chars i text).ClosesWith chars (i + 1) '`' := by
  refine @closesWith_of_advances chars Copied (backticksStep chars) id
    ⟨text.push '`', i + 1, false⟩ '`' backticksStep_advances rfl ?_ ?_
  · intro before after steps closed
    unfold backticksStep at steps
    split at steps
    · cases steps
    · split at steps
      · cases steps
      · rename_i c isChar
        dsimp only at steps
        split at steps
        · split at steps <;> (obtain rfl := Option.some.inj steps; cases closed)
        · obtain rfl := Option.some.inj steps
          exact isChar.trans (congrArg some (by simpa using closed))
  · intro copied ended unclosed
    unfold backticksStep at ended
    rw [if_neg (by rw [show copied.closed = false from unclosed]; exact Bool.false_ne_true)] at ended
    split at ended
    · assumption
    · dsimp only at ended
      split at ended
      · split at ended <;> cases ended
      · cases ended

/-! ### Groups -/

/-- Every round of a delimiter reads a character, or a quoted text as a whole. -/
theorem delimiterStep_advances :
    Advances (delimiterStep chars) DelimiterScan.i chars.length where
  round := by
    intro before after steps
    unfold delimiterStep at steps
    split at steps
    · cases steps
    · rename_i c isChar
      have inside := lt_of_getElem? isChar
      split at steps
      · cases steps
      · dsimp only at steps
        split at steps
        · obtain rfl := Option.some.inj steps
          have := drop_take_le ((run chars (before.i + 1) (· == c)).length + 1)
            (show before.i + 1 ≤ chars.length from inside)
          dsimp only
          omega
        · split at steps
          · split at steps
            · rename_i escaped isEscaped
              obtain rfl := Option.some.inj steps
              have := lt_of_getElem? isEscaped
              dsimp only
              omega
            · obtain rfl := Option.some.inj steps
              exact ⟨Nat.lt_succ_self _, inside⟩
          · obtain rfl := Option.some.inj steps
            exact ⟨Nat.lt_succ_self _, inside⟩

namespace GroupScan

variable {scan : GroupScan}

theorem copyNext_advances (inside : scan.i ≤ chars.length) :
    scan.i ≤ (scan.copyNext chars).i ∧ (scan.copyNext chars).i ≤ chars.length := by
  unfold copyNext
  split
  · rename_i next isNext
    have := lt_of_getElem? isNext
    dsimp only
    omega
  · exact ⟨le_rfl, inside⟩

theorem copyAll_i (copied : List Char) : (scan.copyAll copied).i = scan.i + copied.length := rfl

theorem readHeredoc_advances (isNext : scan.i < chars.length) :
    scan.i ≤ (scan.readHeredoc chars).i ∧ (scan.readHeredoc chars).i ≤ chars.length := by
  let opened : GroupScan := { scan with text := scan.text.push '<', i := scan.i + 1 }
  let stripped : GroupScan :=
    if chars[opened.i]? == some '-' then
      { opened with text := opened.text.push '-', i := opened.i + 1 }
    else opened
  have strips : scan.i ≤ stripped.i ∧ stripped.i ≤ chars.length := by
    by_cases isStrip : (chars[opened.i]? == some '-') = true
    · have inside := lt_of_getElem? (eq_of_beq isStrip)
      have same : stripped.i = opened.i + 1 := congrArg GroupScan.i (if_pos isStrip)
      have : opened.i = scan.i + 1 := rfl
      omega
    · have same : stripped.i = opened.i := congrArg GroupScan.i (if_neg isStrip)
      have : opened.i = scan.i + 1 := rfl
      omega
  let blanks := run chars stripped.i fun char => !(char == ' ' || char == '\t')
  have within : stripped.i + blanks.length ≤ chars.length := run_le _ strips.2
  have delimiter := delimiterStep_advances.le chars.length
    { text := (stripped.copyAll blanks).text, i := (stripped.copyAll blanks).i } within
  exact ⟨(strips.1.trans (Nat.le_add_right _ _)).trans delimiter.1, delimiter.2⟩

theorem copyHeredocs_advances (inside : scan.i ≤ chars.length) :
    scan.i ≤ (scan.copyHeredocs chars).i ∧ (scan.copyHeredocs chars).i ≤ chars.length := by
  unfold copyHeredocs
  have each (heredocs : List Heredoc) (start : GroupScan) (within : start.i ≤ chars.length) :
      start.i ≤ (heredocs.foldl (fun scan heredoc => scan.copyAll
        ((chars.drop scan.i).take (heredocEnd chars scan.i heredoc - scan.i))) start).i ∧
      (heredocs.foldl (fun scan heredoc => scan.copyAll
        ((chars.drop scan.i).take (heredocEnd chars scan.i heredoc - scan.i))) start).i ≤
          chars.length := by
    induction heredocs generalizing start with
    | nil => exact ⟨le_rfl, within⟩
    | cons heredoc rest inductionHypothesis =>
      have body := drop_take_le (heredocEnd chars start.i heredoc - start.i) within
      obtain ⟨further, stays⟩ := inductionHypothesis _ (by rw [copyAll_i]; exact body)
      rw [copyAll_i] at further
      exact ⟨(Nat.le_add_right _ _).trans further, stays⟩
  exact each scan.heredocs { scan with heredocs := [] } inside

/-- What a round of a group's copy comes to is past `i` and within the text; where it closes the
group, the group's close was copied last. -/
def Passes (chars : List Char) (kind : GroupKind) (i : Nat) : GroupMove → Prop
  | .goesOn next => i ≤ next.i ∧ next.i ≤ chars.length
  | .nests => True
  | .closes copied => i ≤ copied.i ∧ copied.i ≤ chars.length ∧ copied.closed = true ∧
      chars[copied.i - 1]? = some kind.close

variable {kind : GroupKind} {c : Char}

theorem readQuote_passes (isChar : chars[scan.i - 1]? = some c) (inside : scan.i ≤ chars.length) :
    Passes chars kind scan.i (scan.readQuote chars kind c) := by
  have copies := copyNext_advances inside
  have stays : Passes chars kind scan.i (.goesOn scan) := ⟨le_rfl, inside⟩
  have onto {other : Char} (isNext : chars[scan.i]? = some other) (next : GroupScan)
      (isSucc : next.i = scan.i + 1) : Passes chars kind scan.i (.goesOn next) := by
    have := lt_of_getElem? isNext
    exact ⟨by omega, by omega⟩
  unfold readQuote
  split
  · split
    · split
      · exact copies
      · split
        · exact stays
        · exact stays
    · split
      · exact stays
      · split
        · exact copies
        · exact stays
  · split
    · exact copies
    · split
      · rename_i dollars
        exact onto dollars.2 _ rfl
      · split
        · rename_i quoted
          exact onto quoted.2 _ rfl
        · split
          · exact stays
          · split
            · have comment := run_le (· == '\n') inside
              exact ⟨Nat.le_add_right _ _, comment⟩
            · split
              · exact stays
              · split
                · rename_i isClose
                  split
                  · exact ⟨le_rfl, inside, rfl, isChar.trans (congrArg some isClose)⟩
                  · exact stays
                · exact stays

theorem read_passes (isChar : chars[scan.i - 1]? = some c) (inside : scan.i ≤ chars.length) :
    Passes chars kind scan.i (scan.read chars kind c) := by
  unfold read
  dsimp only
  split
  · rename_i shift
    have := lt_of_getElem? shift.2.2.1
    exact ⟨Nat.le_succ _, this⟩
  · split
    · rename_i hereString
      have isNext := lt_of_getElem? hereString.2.2.1
      have copies := @copyNext_advances chars
        { scan with text := scan.text.push '<', i := scan.i + 1 } isNext
      exact ⟨(Nat.le_succ _).trans copies.1, copies.2⟩
    · split
      · rename_i isHeredoc
        exact readHeredoc_advances (lt_of_getElem? isHeredoc.2.2)
      · split
        · exact copyHeredocs_advances inside
        · split
          · exact trivial
          · exact readQuote_passes isChar inside

/-- What the character at a group's copy comes to, with that character copied. -/
theorem round_passes {scan : GroupScan} (isChar : chars[scan.i]? = some c) :
    Passes chars kind (scan.i + 1)
      (({ scan with text := scan.text.push c, i := scan.i + 1 } : GroupScan).read chars kind c) :=
  @read_passes chars { scan with text := scan.text.push c, i := scan.i + 1 } kind c isChar
    (lt_of_getElem? isChar)

end GroupScan

/-- A group is copied within the text and past where its copy stands, up to its close or the end
of the text. -/
theorem groupLoop_advances (fuel : Nat) (kind : GroupKind) (scan : GroupScan)
    (inside : scan.i ≤ chars.length) :
    scan.i ≤ (groupLoop chars fuel kind scan).i ∧
      (groupLoop chars fuel kind scan).i ≤ chars.length ∧
      (scan.i < chars.length → 0 < fuel → scan.i < (groupLoop chars fuel kind scan).i) ∧
      (chars.length - scan.i ≤ fuel →
        (groupLoop chars fuel kind scan).ClosesWith chars scan.i kind.close) := by
  induction fuel generalizing kind scan with
  | zero =>
    refine ⟨le_rfl, inside, fun _ => nofun, fun enough => ⟨nofun, fun _ => ?_⟩⟩
    show chars.length ≤ scan.i
    omega
  | succ fuel inductionHypothesis =>
    rw [groupLoop]
    split
    · rename_i isEnd
      have atEnd := List.getElem?_eq_none_iff.mp isEnd
      exact ⟨le_rfl, inside, fun before => absurd before (not_lt.mpr atEnd),
        fun _ => ⟨nofun, fun _ => atEnd⟩⟩
    · rename_i c isChar
      have before := lt_of_getElem? isChar
      have passes := @GroupScan.round_passes chars kind c scan isChar
      split
      · rename_i next isNext
        rw [isNext] at passes
        obtain ⟨further, within, _, closes⟩ := inductionHypothesis kind next passes.2
        have past := (Nat.lt_of_succ_le passes.1).trans_le further
        refine ⟨past.le, within, fun _ _ => past, fun enough => ?_⟩
        obtain ⟨isClose, isEnd⟩ := closes (by have := passes.1; omega)
        exact ⟨fun closed => ⟨past, (isClose closed).2⟩, isEnd⟩
      · rename_i copied isClosed
        rw [isClosed] at passes
        obtain ⟨past, within, closed, last⟩ := passes
        refine ⟨(Nat.le_succ _).trans past, within, fun _ _ => past, fun _ =>
          ⟨fun _ => ⟨past, last⟩, fun unclosed => ?_⟩⟩
        rw [closed] at unclosed
        cases unclosed
      · -- The group inside comes past its first character, closed or at the end of the text.
        dsimp only
        have inner : ∃ (start : Nat) (close : Char),
            scan.i < (if c = '`' then copyBackticks chars scan.i scan.text
              else groupLoop chars fuel (groupKind chars scan.i)
                { text := scan.text.push '$', i := scan.i + 1 }).i ∧
            (if c = '`' then copyBackticks chars scan.i scan.text
              else groupLoop chars fuel (groupKind chars scan.i)
                { text := scan.text.push '$', i := scan.i + 1 }).i ≤ chars.length ∧
            (chars.length - scan.i ≤ fuel + 1 →
              (if c = '`' then copyBackticks chars scan.i scan.text
                else groupLoop chars fuel (groupKind chars scan.i)
                  { text := scan.text.push '$', i := scan.i + 1 }).ClosesWith
                    chars start close) := by
          split
          · obtain ⟨past, within⟩ := copyBackticks_advances scan.text before
            exact ⟨_, '`', past, within, fun _ => copyBackticks_closes chars scan.i scan.text⟩
          · obtain ⟨further, within, _, closes⟩ := inductionHypothesis (groupKind chars scan.i)
              { text := scan.text.push '$', i := scan.i + 1 } before
            exact ⟨_, _, further, within, fun enough => closes (by dsimp only; omega)⟩
        generalize (if c = '`' then copyBackticks chars scan.i scan.text
          else groupLoop chars fuel (groupKind chars scan.i)
            { text := scan.text.push '$', i := scan.i + 1 }) = copied at inner ⊢
        obtain ⟨start, close, past, within, ends⟩ := inner
        split
        · obtain ⟨further, stays, _, closes⟩ := inductionHypothesis kind
            { scan with text := copied.text, i := copied.i } within
          have all := past.trans_le further
          refine ⟨all.le, stays, fun _ _ => all, fun enough => ?_⟩
          obtain ⟨isClose, isEnd⟩ := closes (by dsimp only; omega)
          exact ⟨fun closed => ⟨all, (isClose closed).2⟩, isEnd⟩
        · rename_i unclosed
          rw [Bool.not_eq_true] at unclosed
          refine ⟨past.le, within, fun _ _ => past, fun enough => ⟨fun closed => ?_, fun _ => ?_⟩⟩
          · rw [unclosed] at closed
            cases closed
          · exact (ends enough).2 unclosed

theorem copyGroup_advances (text : String) (inside : i < chars.length) :
    i < (copyGroup chars i text).i ∧ (copyGroup chars i text).i ≤ chars.length := by
  obtain ⟨further, within, _⟩ := groupLoop_advances chars.length (groupKind chars i)
    { text := text.push '$', i := i + 1 } inside
  exact ⟨further, within⟩

theorem copyGroup_closes (text : String) (inside : i < chars.length) :
    (copyGroup chars i text).ClosesWith chars (i + 1) (groupKind chars i).close :=
  (groupLoop_advances chars.length (groupKind chars i)
    { text := text.push '$', i := i + 1 } inside).2.2.2 (Nat.sub_le _ _)

/-- The parentheses are a group of the text from them on, with a `$` before it. -/
theorem copyParens_advances (text : String) (inside : i < chars.length) :
    i < (copyParens chars i text).i ∧ (copyParens chars i text).i ≤ chars.length ∧
      (chars[i]? = some '(' → (copyParens chars i text).ClosesWith chars i ')') := by
  have length : ('$' :: chars.drop i).length = chars.length - i + 1 := by
    rw [List.length_cons, List.length_drop]
  obtain ⟨further, within, past, closes⟩ := @groupLoop_advances ('$' :: chars.drop i)
    ('$' :: chars.drop i).length (groupKind ('$' :: chars.drop i) 0)
      { text := text.push '$', i := 0 + 1 } (by dsimp only; omega)
  have past := past (by dsimp only; omega) (by omega)
  have isI : (copyParens chars i text).i = i + (copyGroup ('$' :: chars.drop i) 0 text).i - 1 := rfl
  unfold copyGroup at isI
  dsimp only at past further
  refine ⟨by omega, by omega, fun isOpen => ⟨fun closed => ?_, fun unclosed => ?_⟩⟩
  · have isFirst : ('$' :: chars.drop i)[0 + 1]? = some '(' := by
      rw [List.getElem?_cons_succ, List.getElem?_drop]
      exact isOpen
    have isClose : (groupKind ('$' :: chars.drop i) 0).close = ')' := by
      unfold groupKind
      rw [isFirst, if_neg (by decide), if_neg (by decide)]
    obtain ⟨_, last⟩ := (closes (Nat.sub_le _ _)).1 closed
    obtain ⟨end_, isEnd⟩ := Nat.exists_eq_add_of_le' (show 2 ≤ _ from past)
    rw [isClose, isEnd, Nat.add_succ_sub_one, List.getElem?_cons_succ, List.getElem?_drop] at last
    rw [isI, isEnd]
    refine ⟨by omega, ?_⟩
    rw [show i + (end_ + 2) - 1 - 1 = i + end_ by omega]
    exact last
  · have atEnd := (closes (Nat.sub_le _ _)).2 unclosed
    omega

/-! ### Escapes of an ANSI-C quoted text -/

theorem number_advances (radix max : Nat) (inside : i ≤ chars.length) :
    i ≤ (number chars i radix max).1 ∧ (number chars i radix max).1 ≤ chars.length := by
  have digits : (((chars.drop i).take max).takeWhile fun c =>
      (digitValue c).any (· < radix)).length ≤ chars.length - i := by
    refine (List.takeWhile_sublist _).length_le.trans ?_
    rw [List.length_take, List.length_drop]
    omega
  unfold number
  dsimp only
  omega

/-- What an escape decodes to stands at its character, or after digits or a control's character. -/
theorem decodeEscape_cases {known : Nat × Option Char → Prop} (c : Char)
    (stays : ∀ decoded, known (i, decoded))
    (numbers : ∀ radix max, known (number chars i radix max))
    (octal : '0' ≤ c ∧ c ≤ '7' → known (number chars (i - 1) 8 3))
    (control : ∀ decoded, i < chars.length → known (i + 1, decoded)) :
    known (decodeEscape chars i c) := by
  unfold decodeEscape
  refine iteInduction (fun _ => stays _) fun _ => iteInduction (fun _ => stays _) fun _ =>
    iteInduction (fun _ => stays _) fun _ => iteInduction (fun _ => stays _) fun _ =>
    iteInduction (fun _ => stays _) fun _ => iteInduction (fun _ => stays _) fun _ =>
    iteInduction (fun _ => stays _) fun _ => iteInduction (fun _ => stays _) fun _ =>
    iteInduction (fun _ => stays _) fun _ => iteInduction (fun _ => numbers _ _) fun _ =>
    iteInduction (fun _ => numbers _ _) fun _ => iteInduction (fun _ => numbers _ _) fun _ =>
    iteInduction octal fun _ => iteInduction (fun _ => ?_) fun _ => stays _
  split
  · rename_i char isChar
    exact iteInduction (fun _ => stays _) fun _ => control _ (lt_of_getElem? isChar)
  · exact stays _

theorem octal_digit {c : Char} (isOctal : '0' ≤ c ∧ c ≤ '7') :
    ((digitValue c).any (· < 8)) = true := by
  have least : 48 ≤ c.toNat := UInt32.le_iff_toNat_le.mp (Char.le_def.mp isOctal.1)
  have most : c.toNat ≤ 55 := UInt32.le_iff_toNat_le.mp (Char.le_def.mp isOctal.2)
  have isDigit : c.isDigit = true := by
    rw [Char.isDigit, Bool.and_eq_true, decide_eq_true_eq, decide_eq_true_eq]
    exact ⟨UInt32.le_iff_toNat_le.mpr least,
      UInt32.le_iff_toNat_le.mpr (most.trans (by decide))⟩
  have zero : '0'.toNat = 48 := rfl
  unfold digitValue
  rw [if_pos isDigit, Option.any_some, decide_eq_true_eq, zero]
  omega

theorem decodeEscape_advances {c : Char} (isChar : chars[i]? = some c) :
    i < (decodeEscape chars (i + 1) c).1 ∧ (decodeEscape chars (i + 1) c).1 ≤ chars.length := by
  have inside := lt_of_getElem? isChar
  refine @decodeEscape_cases chars (i + 1)
    (fun decoded => i < decoded.1 ∧ decoded.1 ≤ chars.length) c ?_ ?_ ?_ ?_
  · exact fun _ => ⟨Nat.lt_succ_self i, inside⟩
  · exact fun radix max => number_advances radix max inside
  · intro isOctal
    obtain ⟨_, within⟩ := @number_advances chars i 8 3 inside.le
    refine ⟨?_, within⟩
    have isFirst : chars.drop i = c :: chars.drop (i + 1) := by
      rw [List.drop_eq_getElem_cons inside]
      rw [List.getElem?_eq_getElem inside] at isChar
      rw [Option.some.inj isChar]
    show i < i + (((chars.drop i).take 3).takeWhile _).length
    rw [isFirst, List.take_succ_cons, List.takeWhile_cons, if_pos (octal_digit isOctal),
      List.length_cons]
    omega
  · exact fun _ more => ⟨by dsimp only; omega, more⟩

theorem ansiEscape_advances (text : String) (inside : i ≤ chars.length) :
    i ≤ (ansiEscape chars i text).2 ∧ (ansiEscape chars i text).2 ≤ chars.length ∧
      (i < chars.length → i < (ansiEscape chars i text).2) := by
  unfold ansiEscape
  split
  · rename_i isEnd
    have atEnd := List.getElem?_eq_none_iff.mp isEnd
    exact ⟨le_rfl, inside, fun before => absurd before (not_lt.mpr atEnd)⟩
  · rename_i c isChar
    obtain ⟨past, within⟩ := decodeEscape_advances isChar
    split
    · rename_i after decoded isDecoded
      rw [isDecoded] at past within
      exact ⟨past.le, within, fun _ => past⟩
    · rename_i after isDecoded
      rw [isDecoded] at past within
      exact ⟨past.le, within, fun _ => past⟩

end Dagq.Shape
