/-
This file proves when a question shows only the latest finding of its recheck. A note
without a blank line is one paragraph, so it is found again and taken out whole; a log
that does not hold the marker in front of it is read whole. What is kept of a question
never starts as a note does.
-/

import Mathlib.Tactic.IntervalCases
import Dagq.Recheck.Note

namespace Dagq.Recheck

open Lib Runs

/-! ### Blank lines in a note -/

theorem hasBlankLine_cons {char : Char} {text : List Char} :
    HasBlankLine (char :: text) ↔ ['\n', '\n'] <+: char :: text ∨ HasBlankLine text :=
  List.infix_cons_iff

/-- A blank line does not go over a character that ends no line. -/
theorem hasBlankLine_append_cons {char : Char} (visible : char ≠ '\n') (first second : List Char) :
    HasBlankLine (first ++ char :: second) ↔ HasBlankLine first ∨ HasBlankLine second := by
  induction first with
  | nil =>
    have notHere : ¬['\n', '\n'] <+: char :: second := fun isPrefix =>
      visible (List.cons_prefix_cons.mp isPrefix).1.symm
    have noneInNothing : ¬HasBlankLine [] := fun ⟨before, after, isNothing⟩ => by simp at isNothing
    rw [List.nil_append, hasBlankLine_cons]
    simp [notHere, noneInNothing]
  | cons other first inductionHypothesis =>
    have samePrefix : ['\n', '\n'] <+: other :: (first ++ char :: second) ↔
        ['\n', '\n'] <+: other :: first := by
      cases first with
      | nil => simp [List.cons_prefix_cons, Ne.symm visible]
      | cons third first => simp [List.cons_prefix_cons]
    rw [List.cons_append, hasBlankLine_cons, hasBlankLine_cons, inductionHypothesis, or_assoc,
      samePrefix]

theorem noBlankLine_of_noLine {text : List Char} (noLine : '\n' ∉ text) : ¬HasBlankLine text :=
  fun ⟨before, after, isText⟩ => noLine (by rw [← isText]; simp)

/-- A blank line of a text between two of one line is the text's. -/
theorem hasBlankLine_between (left right : List Char) (last first : Char) (noLine : '\n' ∉ left)
    (noLineRight : '\n' ∉ right) (ends : left.getLast? = some last)
    (starts : right.head? = some first) (text : List Char) :
    HasBlankLine (left ++ text ++ right) ↔ HasBlankLine text := by
  obtain ⟨before, rfl⟩ := List.getLast?_eq_some_iff.mp ends
  obtain ⟨after, rfl⟩ := List.head?_eq_some_iff.mp starts
  have lastVisible : last ≠ '\n' := fun same => noLine (by simp [same])
  have firstVisible : first ≠ '\n' := fun same => noLineRight (by simp [same])
  rw [hasBlankLine_append_cons firstVisible, List.append_assoc, List.singleton_append,
    hasBlankLine_append_cons lastVisible]
  have notBefore : ¬HasBlankLine before := noBlankLine_of_noLine fun among => noLine (by simp [among])
  have notAfter : ¬HasBlankLine after :=
    noBlankLine_of_noLine fun among => noLineRight (by simp [among])
  simp [notBefore, notAfter]

section

variable (printable : Char → Bool)

theorem digitChar_ne_line {digit : Nat} (small : digit < 16) : Nat.digitChar digit ≠ '\n' := by
  interval_cases digit <;> decide

theorem noLine_toDigits {base : Nat} (large : 1 < base) (small : base ≤ 16) (number : Nat) :
    '\n' ∉ Nat.toDigits base number := by
  induction number using Nat.strong_induction_on with
  | _ number inductionHypothesis =>
    rw [Nat.toDigits_eq_if large]
    split
    · next isDigit => simp [(digitChar_ne_line (isDigit.trans_le small)).symm]
    · next more =>
      have smaller := inductionHypothesis (number / base)
        (Nat.div_lt_self (by omega) large)
      have last := Nat.mod_lt number (by omega : 0 < base)
      simp [smaller, (digitChar_ne_line (last.trans_le small)).symm]

/-- Debug output is on one line. -/
theorem noLine_debugText (text : List Char) : '\n' ∉ debugText printable text := by
  intro among
  simp only [debugText, List.mem_cons, List.mem_append, List.mem_flatMap, List.not_mem_nil,
    or_false] at among
  rcases among with isQuote | ⟨char, _, isEscape⟩ | isQuote
  · exact absurd isQuote (by decide)
  · unfold escapeDebug at isEscape
    split_ifs at isEscape with isNull isTab isReturn isLine isMark isPrintable
    · exact absurd isEscape (by decide)
    · exact absurd isEscape (by decide)
    · exact absurd isEscape (by decide)
    · exact absurd isEscape (by decide)
    · rcases isMark with rfl | rfl <;> exact absurd isEscape (by decide)
    · exact isLine (List.mem_singleton.mp isEscape).symm
    · simp only [List.mem_cons, List.mem_append, List.not_mem_nil, or_false] at isEscape
      rcases isEscape with isMark | isMark | isMark | isDigit | isMark
      · exact absurd isMark (by decide)
      · exact absurd isMark (by decide)
      · exact absurd isMark (by decide)
      · exact noLine_toDigits (by decide) (by decide) _ isDigit
      · exact absurd isMark (by decide)
  · exact absurd isQuote (by decide)

theorem noLine_toString (number : Int) : '\n' ∉ (toString number).toList := by
  cases number with
  | ofNat number =>
    show '\n' ∉ (toString number).toList
    rw [Nat.toString_eq_ofList_toDigits, String.toList_ofList]
    exact noLine_toDigits (by decide) (by decide) number
  | negSucc number =>
    show '\n' ∉ ("-" ++ toString (number + 1)).toList
    rw [Nat.toString_eq_ofList_toDigits, String.toList_append]
    intro among
    rcases List.mem_append.mp among with isSign | isDigit
    · exact absurd isSign (by decide)
    · rw [String.toList_ofList] at isDigit
      exact noLine_toDigits (by decide) (by decide) _ isDigit

theorem noLine_commit (main : CommitSha) : '\n' ∉ main.text.toList.take 12 := by
  intro among
  have full := main.full
  simp only [isObjectId, Bool.and_eq_true, List.all_eq_true] at full
  exact absurd (full.2 '\n' (List.mem_of_mem_take among)) (by decide)

theorem regroup (first second third fourth fifth sixth last : List Char) :
    first ++ (second ++ third ++ fourth ++ fifth ++ sixth) ++ last =
      first ++ (second ++ third ++ fourth) ++ fifth ++ (sixth ++ last) := by
  simp only [List.append_assoc]

set_option maxRecDepth 2000 in
theorem hasBlankLine_clean (landed : Option Landed) (main : CommitSha)
    (command : Option (List Char)) :
    HasBlankLine (cleanAskNote printable landed main command) ↔
      ∃ by_, landed = some by_ ∧ HasBlankLine by_.runId.text.toList := by
  have commit := noLine_commit main
  -- What follows the landing is on one line.
  have rest : ∃ tail, cleanAskNote printable landed main command =
      askNotePrefix ++ after landed ++ tail ∧ '\n' ∉ tail := by
    cases command with
    | none =>
      refine ⟨_, by simp only [cleanAskNote, List.append_assoc]; rfl, ?_⟩
      simp only [List.mem_append, commit]
      decide
    | some command =>
      have debug := noLine_debugText printable command
      refine ⟨_, by simp only [cleanAskNote, List.append_assoc]; rfl, ?_⟩
      simp only [List.mem_append, commit, debug]
      decide
  obtain ⟨tail, isText, noLine⟩ := rest
  rw [isText]
  cases landed with
  | none =>
    have notBlank : ¬HasBlankLine (askNotePrefix ++ after none ++ tail) := by
      refine noBlankLine_of_noLine fun among => ?_
      rcases List.mem_append.mp among with inFront | inTail
      · exact absurd inFront (by decide)
      · exact noLine inTail
    exact iff_of_false notBlank fun ⟨_, isLanded, _⟩ => nomatch isLanded
  | some by_ =>
    have number := noLine_toString by_.taskId
    have between := hasBlankLine_between
      (askNotePrefix ++ ("after task ".toList ++ (toString by_.taskId).toList ++
        " (run ".toList))
      (") landed, the landing recheck found".toList ++ tail) ' ' ')'
      (by
        simp only [List.mem_append, number]
        decide)
      (by
        simp only [List.mem_append, noLine]
        decide)
      (by rw [List.getLast?_append, List.getLast?_append]; rfl) rfl by_.runId.text.toList
    have isText : askNotePrefix ++ after (some by_) ++ tail =
        askNotePrefix ++ ("after task ".toList ++ (toString by_.taskId).toList ++
          " (run ".toList) ++ by_.runId.text.toList ++
          (") landed, the landing recheck found".toList ++ tail) :=
      regroup _ _ _ _ _ _ _
    rw [isText, between]
    exact ⟨fun blank => ⟨by_, rfl, blank⟩, fun ⟨_, same, blank⟩ => Option.some.inj same ▸ blank⟩

theorem hasBlankLine_mainFailed (reason mainLog : List Char) :
    HasBlankLine (mainFailedAskNote reason mainLog) ↔
      HasBlankLine reason ∨ HasBlankLine mainLog := by
  have isText : mainFailedAskNote reason mainLog =
      (askNotePrefix ++ reason) ++ '.' :: (mainFailedSee ++ mainLog ++ mainFailedEnd) := by
    simp [mainFailedAskNote]
  have front := hasBlankLine_between askNotePrefix ['.'] ' ' '.' (by decide) (by decide) (by decide)
    (by decide) reason
  have back := hasBlankLine_between mainFailedSee mainFailedEnd ' ' ')' (by decide) (by decide)
    (by decide) (by decide) mainLog
  have noneInNothing : ¬HasBlankLine [] := noBlankLine_of_noLine List.not_mem_nil
  rw [hasBlankLine_append_cons (by decide)] at front
  rw [isText, hasBlankLine_append_cons (by decide), back, ← front]
  simp [noneInNothing]

/-- A note is clean: no text in it holds a blank line, and no log the marker in front of it, whose
last character is the first again. -/
def Note.Clean : Note → Prop
  | .ask reason _ => ¬HasBlankLine reason
  | .skipped reason => ¬HasBlankLine reason
  | .refused reason => ¬HasBlankLine reason
  | .clean landed _ _ => ¬∃ by_, landed = some by_ ∧ HasBlankLine by_.runId.text.toList
  | .mainFailed reason mainLog =>
    ¬(HasBlankLine reason ∨ HasBlankLine mainLog) ∧ ¬mainFailedSee <:+: ' ' :: mainLog

/-- The log of a note holds the marker in front of it. -/
def Note.Marked : Note → Prop
  | .mainFailed _ mainLog => mainFailedSee <:+: ' ' :: mainLog
  | _ => False

set_option maxRecDepth 2000 in
/-- A note is clean when it holds no blank line and its log no marker. -/
theorem Note.clean_iff (note : Note) :
    note.Clean ↔ ¬HasBlankLine (note.text printable) ∧ ¬note.Marked := by
  cases note with
  | ask reason resumed =>
    have isText : HasBlankLine (askNote reason resumed) ↔ HasBlankLine reason := by
      unfold askNote
      rw [List.append_assoc]
      cases resumed
      · exact hasBlankLine_between _ _ ' ' '.' (by decide) (by decide) (by decide) (by decide)
          reason
      · exact hasBlankLine_between _ _ ' ' '.' (by decide) (by decide) (by decide) (by decide)
          reason
    simp only [Clean, text, Marked, isText, not_false_eq_true, and_true]
  | skipped reason =>
    have isText : HasBlankLine (skippedAskNote reason) ↔ HasBlankLine reason :=
      hasBlankLine_between _ _ ' ' '.' (by decide) (by decide) (by decide) (by decide) reason
    simp only [Clean, text, Marked, isText, not_false_eq_true, and_true]
  | refused reason =>
    have isText : HasBlankLine (refusedAskNote reason) ↔ HasBlankLine reason :=
      hasBlankLine_between _ _ ' ' '.' (by decide) (by decide) (by decide) (by decide) reason
    simp only [Clean, text, Marked, isText, not_false_eq_true, and_true]
  | clean landed main command =>
    simp only [Clean, text, Marked, hasBlankLine_clean, not_false_eq_true, and_true]
  | mainFailed reason mainLog => simp only [Clean, text, Marked, hasBlankLine_mainFailed]

theorem Note.starts (note : Note) : askNotePrefix <+: note.text printable := by
  cases note with
  | ask reason resumed =>
    exact (List.prefix_append _ _).trans ((List.prefix_append _ _).trans (List.prefix_append _ _))
  | skipped reason => exact (List.prefix_append _ _).trans (List.prefix_append _ _)
  | refused reason => exact (List.prefix_append _ _).trans (List.prefix_append _ _)
  | clean landed main command =>
    exact (List.prefix_append _ _).trans ((List.prefix_append _ _).trans ((List.prefix_append _ _).trans
      ((List.prefix_append _ _).trans ((List.prefix_append _ _).trans (List.prefix_append _ _)))))
  | mainFailed reason mainLog =>
    exact (List.prefix_append _ _).trans ((List.prefix_append _ _).trans
      ((List.prefix_append _ _).trans ((List.prefix_append _ _).trans (List.prefix_append _ _))))

set_option maxRecDepth 2000 in
theorem Note.ends (note : Note) : (note.text printable).getLast? = some '.' := by
  cases note with
  | ask reason resumed => cases resumed <;> exact List.getLast?_append.trans rfl
  | skipped reason => exact List.getLast?_append.trans rfl
  | refused reason => exact List.getLast?_append.trans rfl
  | clean landed main command => exact List.getLast?_append.trans rfl
  | mainFailed reason mainLog => exact List.getLast?_append.trans rfl

theorem Note.isRecheck_text (note : Note) : isRecheck (note.text printable) = true := by
  obtain ⟨body, isText⟩ := note.starts printable
  have trimmed : trimStart (note.text printable) = note.text printable := by
    rw [← isText]
    exact List.dropWhile_cons_of_neg (by decide)
  rw [isRecheck, trimmed, List.isPrefixOf_iff_prefix]
  exact note.starts printable

end

/-! ### What is kept of a question -/

/-- The question without its recheck's paragraphs and the white space at its end. -/
def keptQuestion (question : List Char) : List Char :=
  trimEnd (joined ((paragraphs question).filter fun paragraph => !isRecheck paragraph))

theorem notedQuestion_eq (question note : List Char) :
    notedQuestion question note = keptQuestion question ++ '\n' :: '\n' :: note := by
  rw [notedQuestion, keptQuestion, List.append_assoc]
  rfl

theorem isRecheck_append {paragraph : List Char} (recheck : isRecheck paragraph = true)
    (more : List Char) : isRecheck (paragraph ++ more) = true := by
  rw [isRecheck, List.isPrefixOf_iff_prefix] at recheck ⊢
  have visible : trimStart paragraph ≠ [] := by
    intro isEmpty
    rw [isEmpty] at recheck
    exact absurd (List.prefix_nil.mp recheck) (by decide)
  have longer : trimStart (paragraph ++ more) = trimStart paragraph ++ more := by
    rw [trimStart, List.dropWhile_append, if_neg (by simpa [trimStart] using visible), trimStart]
  rw [longer]
  exact recheck.trans (List.prefix_append _ _)

theorem keptQuestion_ends (question : List Char) : (keptQuestion question).getLast? ≠ some '\n' :=
  fun isLast => absurd (trimEnd_ends _ isLast) (by decide)

/-- The paragraphs kept of a question are those of what is kept, but for white space at the end. -/
theorem keptQuestion_notRecheck {question paragraph : List Char}
    (among : paragraph ∈ paragraphs (keptQuestion question)) : isRecheck paragraph = false := by
  obtain ⟨blank, isJoined, _⟩ := trimEnd_prefix
    (joined ((paragraphs question).filter fun paragraph => !isRecheck paragraph))
  obtain ⟨front, last, isKept, appended⟩ := paragraphs_append (keptQuestion_ends question)
  by_cases noneKept : ((paragraphs question).filter fun paragraph => !isRecheck paragraph) = []
  · have isEmpty : keptQuestion question = [] := by
      rw [keptQuestion, noneKept]
      rfl
    rw [isEmpty] at among
    rw [List.mem_singleton.mp among]
    decide
  · obtain ⟨first, rest, isBlank⟩ := List.exists_cons_of_ne_nil (paragraphs_ne_nil blank)
    have whole := appended blank first rest isBlank
    rw [keptQuestion, ← isJoined,
      ((parted_paragraphs question).filter _ noneKept).paragraphs_joined] at whole
    have notRecheck : ∀ kept ∈ front ++ (last ++ first) :: rest, isRecheck kept = false := by
      intro kept isIn
      rw [← whole] at isIn
      simpa using (List.mem_filter.mp isIn).2
    rw [isKept] at among
    rcases List.mem_append.mp among with inFront | isLast
    · exact notRecheck paragraph (List.mem_append_left _ inFront)
    · rw [List.mem_singleton.mp isLast]
      by_contra recheck
      have longer := notRecheck (last ++ first) (by simp)
      rw [isRecheck_append (by simpa using recheck) first] at longer
      cases longer

theorem paragraphs_notedQuestion (question note : List Char) :
    paragraphs (notedQuestion question note) =
      paragraphs (keptQuestion question) ++ paragraphs note := by
  rw [notedQuestion_eq, paragraphs_append_blank (keptQuestion_ends question)]

theorem askedMainLog_notedQuestion {question note : List Char} (noBlankLine : ¬HasBlankLine note)
    (recheck : isRecheck note = true) (starts : note.head? ≠ some '\n')
    (ends : (note.getLast?.all fun char => !isWhiteSpace char) = true) :
    askedMainLog (notedQuestion question note) =
      (stripSuffix mainFailedEnd note).bind fun body => (splitAtLast mainFailedSee body).map Prod.snd := by
  have reversed : ¬HasBlankLine note.reverse := fun blank =>
    noBlankLine ( List.reverse_infix.mp (by simpa [HasBlankLine] using blank))
  have last : paragraphsFromEnd (notedQuestion question note) =
      note :: (paragraphs (keptQuestion question).reverse).map List.reverse := by
    rw [paragraphsFromEnd, notedQuestion_eq]
    have isReversed : (keptQuestion question ++ '\n' :: '\n' :: note).reverse =
        note.reverse ++ '\n' :: '\n' :: (keptQuestion question).reverse := by simp
    rw [isReversed, paragraphs_append_blank (by rwa [List.getLast?_reverse]),
      paragraphs_of_noBlankLine reversed, List.singleton_append, List.map_cons, List.reverse_reverse]
  unfold askedMainLog
  rw [last, List.find?_cons_of_pos recheck]
  dsimp only [bind, Option.bind]
  rw [trimEnd_of_visible ends]
  cases stripSuffix mainFailedEnd note with
  | none => rfl
  | some body =>
    dsimp only
    cases splitAtLast mainFailedSee body <;> rfl

theorem stripSuffix_append (ending text : List Char) :
    stripSuffix ending (text ++ ending) = some text := by
  rw [stripSuffix, if_pos (List.isSuffixOf_iff_suffix.mpr (List.suffix_append _ _)),
    List.length_append, Nat.add_sub_cancel, List.take_left]

/-- A text has not an ending that its own neither ends with nor is the end of. -/
theorem stripSuffix_of_not {ending text : List Char} (tail : List Char) (isTail : tail <:+ text)
    (notLonger : ¬ending <:+ tail) (notShorter : ¬tail <:+ ending) : stripSuffix ending text = none := by
  refine if_neg fun isEnding => ?_
  rcases List.suffix_or_suffix_of_suffix (List.isSuffixOf_iff_suffix.mp isEnding) isTail with
    inTail | inEnding
  · exact notLonger inTail
  · exact notShorter inEnding

set_option maxRecDepth 4000 in
theorem stripSuffix_other (printable : Char → Bool) {note : Note} (other : note.mainLog = none) :
    stripSuffix mainFailedEnd (note.text printable) = none := by
  cases note with
  | ask reason resumed =>
    cases resumed
    · exact stripSuffix_of_not _ (List.suffix_append _ _) (by decide) (by decide)
    · exact stripSuffix_of_not _ (List.suffix_append _ _) (by decide) (by decide)
  | skipped reason => exact stripSuffix_of_not _ (List.suffix_append _ _) (by decide) (by decide)
  | refused reason => exact stripSuffix_of_not _ (List.suffix_append _ _) (by decide) (by decide)
  | clean landed main command =>
    cases command with
    | none =>
      exact stripSuffix_of_not
        ("git merges it without a conflict (no command was run)".toList ++ ".".toList)
        ⟨_, (List.append_assoc _ _ _).symm⟩ (by decide) (by decide)
    | some command =>
      refine stripSuffix_of_not
        (" passes on main with the run merged in".toList ++ ".".toList) ⟨?_, ?_⟩ (by decide)
        (by decide)
      · exact askNotePrefix ++ after landed ++ " that the run still lands cleanly on main ".toList ++
          main.text.toList.take 12 ++ ": ".toList ++
          ("git merges it without a conflict and ".toList ++ debugText printable command)
      · simp only [Note.text, cleanAskNote, List.append_assoc]
  | mainFailed reason mainLog => cases other

/-- A marker that does not start in a text is found where the text after it starts, or later. -/
theorem infix_append_of_apart {first second next : Char} {rest text after : List Char}
    (apart : ¬[first, second] <:+: text ++ [next]) :
    first :: second :: rest <:+: text ++ next :: after ↔ first :: second :: rest <:+: next :: after := by
  induction text with
  | nil => rfl
  | cons char text inductionHypothesis =>
    rw [List.cons_append, List.infix_cons_iff] at apart
    obtain ⟨notHere, notLater⟩ := not_or.mp apart
    rw [List.cons_append, List.infix_cons_iff, inductionHypothesis notLater]
    refine or_iff_right fun isPrefix => notHere ?_
    cases text with
    | nil =>
      obtain ⟨rfl, isRest⟩ := List.cons_prefix_cons.mp isPrefix
      obtain ⟨rfl, _⟩ := List.cons_prefix_cons.mp isRest
      exact List.prefix_refl _
    | cons other text =>
      obtain ⟨rfl, isRest⟩ := List.cons_prefix_cons.mp isPrefix
      obtain ⟨rfl, _⟩ := List.cons_prefix_cons.mp isRest
      exact ⟨text ++ [next], rfl⟩

/-- The marker in front of a log is found again after its start only from its last character on. -/
theorem seeAgain_iff (mainLog : List Char) :
    mainFailedSee <:+: mainFailedSee.tail ++ mainLog ↔ mainFailedSee <:+: ' ' :: mainLog := by
  have apart : ¬[' ', 'T'] <:+: mainFailedSee.tail.dropLast ++ [' '] := by decide
  have isSee : mainFailedSee = ' ' :: 'T' :: mainFailedSee.tail.tail := by decide
  have isTail : mainFailedSee.tail ++ mainLog = mainFailedSee.tail.dropLast ++ ' ' :: mainLog := by
    rw [List.append_cons, show mainFailedSee.tail.dropLast ++ [' '] = mainFailedSee.tail by decide]
  rw [isTail, isSee]
  exact infix_append_of_apart (by rwa [← isSee])

/-- The log is read whole exactly when it does not hold the marker in front of it. -/
theorem splitAtLast_see (front mainLog : List Char) :
    (splitAtLast mainFailedSee (front ++ (mainFailedSee ++ mainLog))).map Prod.snd = some mainLog ↔
      ¬mainFailedSee <:+: ' ' :: mainLog := by
  have isSee : mainFailedSee = ' ' :: mainFailedSee.tail := by decide
  rw [← seeAgain_iff]
  constructor
  · intro isWhole again
    obtain ⟨⟨before, later⟩, found⟩ : ∃ parts,
        splitAtLast mainFailedSee (mainFailedSee.tail ++ mainLog) = some parts := by
      rw [← Option.ne_none_iff_exists', Ne, splitAtLast_eq_none (by decide), not_not]
      exact again
    have isText := eq_of_splitAtLast found
    have inWhole := splitAtLast_append found (front ++ [' '])
    rw [List.append_assoc, List.singleton_append, ← List.cons_append, ← isSee] at inWhole
    rw [inWhole, Option.map_some, Option.some.injEq] at isWhole
    have lengths := congrArg List.length isText
    rw [← isWhole] at lengths
    simp only [List.length_append] at lengths
    have longer : mainFailedSee.tail.length < mainFailedSee.length := by decide
    omega
  · intro notAgain
    rw [splitAtLast_of_last isSee notAgain, Option.map_some]

/-! ### The latest finding -/

section

variable (printable : Char → Bool)

/-- A question shows a note as its one recheck's paragraph, at its end, after what is kept of its
other paragraphs, and points at the note's log. -/
structure Shows (question : List Char) (note : Note) : Prop where
  paragraphs : ∃ kept, paragraphs (notedQuestion question (note.text printable)) =
      kept ++ [note.text printable] ∧ (∀ paragraph ∈ kept, isRecheck paragraph = false) ∧
    ∃ blank, joined ((Lib.paragraphs question).filter fun paragraph => !isRecheck paragraph) =
      joined kept ++ blank ∧ ∀ char ∈ blank, isWhiteSpace char = true
  recheck : isRecheck (note.text printable) = true
  log : askedMainLog (notedQuestion question (note.text printable)) = note.mainLog

theorem log_of_noBlankLine {question : List Char} {note : Note}
    (noBlankLine : ¬HasBlankLine (note.text printable)) :
    askedMainLog (notedQuestion question (note.text printable)) = note.mainLog ↔ ¬note.Marked := by
  have starts : (note.text printable).head? ≠ some '\n' := by
    obtain ⟨body, isText⟩ := note.starts printable
    rw [← isText]
    exact fun isLine => absurd (Option.some.inj isLine) (by decide)
  have ends : ((note.text printable).getLast?.all fun char => !isWhiteSpace char) = true := by
    rw [note.ends]
    rfl
  rw [askedMainLog_notedQuestion noBlankLine (note.isRecheck_text printable) starts ends]
  cases isLog : note.mainLog with
  | none =>
    have notMarked : ¬note.Marked := by
      cases note <;> first | exact id | cases isLog
    rw [stripSuffix_other printable isLog]
    simp [notMarked]
  | some mainLog =>
    cases note with
    | mainFailed reason log =>
      obtain rfl := Option.some.inj isLog
      have isText : (Note.mainFailed reason log).text printable =
          (askNotePrefix ++ reason ++ ".".toList ++ (mainFailedSee ++ log)) ++ mainFailedEnd := by
        simp only [Note.text, mainFailedAskNote, List.append_assoc]
      rw [isText, stripSuffix_append, Option.bind_some]
      exact splitAtLast_see _ _
    | _ => cases isLog

theorem shows_iff (question : List Char) (note : Note) :
    Shows printable question note ↔ note.Clean := by
  rw [note.clean_iff printable]
  constructor
  · intro shows
    have noBlankLine : ¬HasBlankLine (note.text printable) := by
      obtain ⟨kept, isKept, _⟩ := shows.paragraphs
      refine @noBlankLine_of_mem (notedQuestion question (note.text printable)) _ ?_
      rw [isKept]
      exact List.mem_append_right _ List.mem_cons_self
    exact ⟨noBlankLine, (log_of_noBlankLine printable noBlankLine).mp shows.log⟩
  · rintro ⟨noBlankLine, notMarked⟩
    refine ⟨⟨Lib.paragraphs (keptQuestion question), ?_, fun _ => keptQuestion_notRecheck, ?_⟩,
      note.isRecheck_text printable, (log_of_noBlankLine printable noBlankLine).mpr notMarked⟩
    · rw [paragraphs_notedQuestion, paragraphs_of_noBlankLine noBlankLine]
    · rw [joined_paragraphs]
      exact trimEnd_prefix _

end

end Dagq.Recheck
