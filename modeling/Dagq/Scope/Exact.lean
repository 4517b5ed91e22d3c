/-
This file says exactly when the matcher of globs agrees with what a glob means. It
never refuses a path the glob means; it accepts another one where two `?`s or more
share a character of three or four bytes, after a `*` that stopped inside it. A glob
some of whose segments has two `?`s after a `*`, with nothing but wildcards between,
has such a path, and no other glob has.
-/

import Dagq.Scope.Sharing

namespace Dagq.Scope

open Lib

/-! ### Wildcards that may share a character -/

/-- How many `?`s stand among the wildcards a segment begins with. -/
def questions : List Char → Nat
  | [] => 0
  | c :: rest =>
    if c = '*' then questions rest
    else if c = '?' then questions rest + 1
    else 0

/-- A `*` of the segment is followed by two `?`s at least, with nothing but wildcards between. -/
def mayShare : List Char → Bool
  | [] => false
  | c :: rest => (c == '*' && decide (2 ≤ questions rest)) || mayShare rest

section

variable {c : Char} {rest : List Char}

theorem questions_literal (notStar : c ≠ '*') (notQuestion : c ≠ '?') :
    questions (c :: rest) = 0 := by
  rw [questions, if_neg notStar, if_neg notQuestion]

theorem mayShare_tail (alone : mayShare (c :: rest) = false) : mayShare rest = false :=
  (Bool.or_eq_false_iff.mp alone).2

theorem questions_le_one (alone : mayShare ('*' :: rest) = false) : questions rest ≤ 1 := by
  have few := (Bool.or_eq_false_iff.mp alone).1
  rw [beq_self_eq_true, Bool.true_and, decide_eq_false_iff_not] at few
  omega

theorem segmentMatches_item {pattern : Char} (isOne : pattern ≠ '*')
    (allowed : pattern = '?' ∨ pattern = c) {text : List Char}
    (matches_ : SegmentMatches rest text) : SegmentMatches (pattern :: rest) (c :: text) :=
  .item isOne allowed matches_

/-- A `*` takes what it skips, a character it stopped inside of too, as long as one `?` at most
is to share it. -/
theorem segmentMatches_run {remaining : Nat} {text : List Char}
    (aligned : remaining = 0 → SegmentMatches rest text)
    (inside : 0 < remaining → ∀ c, SegmentMatches rest (c :: text)) (front : List Char) :
    SegmentMatches ('*' :: rest) (front ++ c :: text) := by
  rcases Nat.eq_zero_or_pos remaining with none_ | some_
  · rw [List.append_cons]
    exact .run _ rfl (aligned none_)
  · exact .run front rfl (inside some_ c)

end

/-! ### Where none may share -/

/-- What it is for a segment to share no character: at a character's start it matches by the
characters, and inside one, whose left bytes at most one `?` takes, as it would with that
character before the text. -/
structure Alone (glob : List Char) : Prop where
  aligned : ∀ text, Sharing glob 0 text → SegmentMatches glob text
  untouched : questions glob = 0 → ∀ left text, 0 < left → Sharing glob left text →
    SegmentMatches glob text
  inside : questions glob ≤ 1 → ∀ left text, 0 < left → Sharing glob left text →
    ∀ c, SegmentMatches glob (c :: text)

theorem Alone.star {rest : List Char} (alone : Alone rest) (few : questions rest ≤ 1) :
    Alone ('*' :: rest) where
  aligned := fun text sharing => by
    rcases sharing_star.mp sharing with
      ⟨remaining, fewer, after⟩ | ⟨front, d, more, remaining, rfl, -, after⟩
    · obtain rfl := Nat.le_zero.mp fewer
      exact .run [] rfl (alone.aligned text after)
    · exact segmentMatches_run (fun none_ => alone.aligned more (none_ ▸ after))
        (fun some_ => alone.inside few remaining more some_ after) front
  untouched := fun none_ left text some_ sharing => by
    rcases sharing_star.mp sharing with
      ⟨remaining, fewer, after⟩ | ⟨front, d, more, remaining, rfl, -, after⟩
    · rcases Nat.eq_zero_or_pos remaining with rfl | isLeft
      · exact .run [] rfl (alone.aligned text after)
      · exact .run [] rfl (alone.untouched none_ remaining text isLeft after)
    · exact segmentMatches_run (fun aligned => alone.aligned more (aligned ▸ after))
        (fun isLeft => alone.inside few remaining more isLeft after) front
  inside := fun _ left text some_ sharing c => by
    rcases sharing_star.mp sharing with
      ⟨remaining, fewer, after⟩ | ⟨front, d, more, remaining, rfl, -, after⟩
    · exact segmentMatches_run (fun aligned => alone.aligned text (aligned ▸ after))
        (fun isLeft => alone.inside few remaining text isLeft after) []
    · exact segmentMatches_run (fun aligned => alone.aligned more (aligned ▸ after))
        (fun isLeft => alone.inside few remaining more isLeft after) (c :: front)

theorem Alone.question {rest : List Char} (alone : Alone rest) : Alone ('?' :: rest) where
  aligned := fun text sharing => by
    obtain ⟨c, more, rfl, after⟩ := sharing_takes.mp sharing
    exact segmentMatches_item (by decide) (Or.inl rfl) (alone.aligned more after)
  untouched := fun none_ => absurd none_ (Nat.succ_ne_zero _)
  inside := fun one left text some_ sharing c => by
    obtain ⟨left, rfl⟩ := Nat.exists_eq_succ_of_ne_zero (Nat.ne_of_gt some_)
    have after := sharing_shares.mp sharing
    refine segmentMatches_item (by decide) (Or.inl rfl) ?_
    rcases Nat.eq_zero_or_pos left with rfl | isLeft
    · exact alone.aligned text after
    · exact alone.untouched (Nat.le_zero.mp (Nat.le_of_succ_le_succ one)) left text isLeft after

theorem Alone.literal {rest : List Char} (alone : Alone rest) {c : Char} (notStar : c ≠ '*')
    (notQuestion : c ≠ '?') : Alone (c :: rest) where
  aligned := fun text sharing => by
    obtain ⟨-, more, rfl, after⟩ := (sharing_literal notStar notQuestion).mp sharing
    exact segmentMatches_item notStar (Or.inr rfl) (alone.aligned more after)
  untouched := fun _ left text some_ sharing =>
    absurd ((sharing_literal notStar notQuestion).mp sharing).1 (Nat.ne_of_gt some_)
  inside := fun _ left text some_ sharing =>
    absurd ((sharing_literal notStar notQuestion).mp sharing).1 (Nat.ne_of_gt some_)

/-- A segment none of whose wildcards may share a character shares none. -/
theorem alone_of_mayShare (glob : List Char) (alone : mayShare glob = false) : Alone glob := by
  induction glob with
  | nil =>
    have atEnd {left : Nat} {text : List Char} (sharing : Sharing [] left text) :
        left = 0 ∧ text = [] := sharing_nil.mp sharing
    exact ⟨fun text sharing => (atEnd sharing).2 ▸ .nil,
      fun _ left text some_ sharing => absurd (atEnd sharing).1 (Nat.ne_of_gt some_),
      fun _ left text some_ sharing => absurd (atEnd sharing).1 (Nat.ne_of_gt some_)⟩
  | cons c rest inductionHypothesis =>
    have after := inductionHypothesis (mayShare_tail alone)
    by_cases isStar : c = '*'
    · obtain rfl := isStar
      exact after.star (questions_le_one alone)
    · by_cases isQuestion : c = '?'
      · exact isQuestion ▸ after.question
      · exact after.literal isStar isQuestion

/-- The matcher accepts what a segment means. -/
theorem SegmentMatches.sharing {glob text : List Char} (matches_ : SegmentMatches glob text) :
    Sharing glob 0 text := by
  unfold SegmentMatches at matches_
  induction matches_ with
  | nil => exact .nil
  | @run pattern patterns skipped items isStar _ inductionHypothesis =>
    obtain rfl : pattern = '*' := isStar
    rcases List.eq_nil_or_concat skipped with rfl | ⟨front, c, rfl⟩
    · exact .within le_rfl inductionHypothesis
    · rw [List.concat_eq_append, List.append_assoc]
      exact .into 0 front c c.utf8Size_pos inductionHypothesis
  | @item pattern patterns char items isOne allowed _ inductionHypothesis =>
    by_cases isQuestion : pattern = '?'
    · exact isQuestion ▸ .takes char inductionHypothesis
    · obtain rfl := allowed.resolve_left isQuestion
      exact .literal pattern isOne isQuestion inductionHypothesis

/-! ### Where some may -/

/-- A text of a segment with as few characters as can be. -/
def least (glob : List Char) : List Char :=
  (ones IsStar glob).map fun c => if c = '?' then 'a' else c

theorem segmentMatches_least (glob : List Char) : SegmentMatches glob (least glob) := by
  refine (matching_ones _).mpr fun pattern _ _ => ?_
  by_cases isQuestion : pattern = '?'
  · exact Or.inl isQuestion
  · exact Or.inr (if_neg isQuestion).symm

theorem questions_le (glob : List Char) : questions glob ≤ (ones IsStar glob).length := by
  induction glob with
  | nil => exact le_rfl
  | cons c rest inductionHypothesis =>
    rw [questions]
    by_cases isStar : IsStar c
    · rw [if_pos isStar, ones_run isStar]
      exact inductionHypothesis
    · rw [if_neg isStar, ones_item isStar, List.length_cons]
      split
      · exact Nat.succ_le_succ inductionHypothesis
      · exact Nat.zero_le _

/-- The `?`s a segment begins with take the bytes left of a character, and the least text is
shorter by as many. -/
theorem sharing_least (glob : List Char) (left : Nat) (enough : left ≤ questions glob) :
    Sharing glob left ((least glob).drop left) := by
  induction glob generalizing left with
  | nil =>
    obtain rfl := Nat.le_zero.mp enough
    exact .nil
  | cons c rest inductionHypothesis =>
    by_cases isStar : IsStar c
    · have same : least (c :: rest) = least rest := by rw [least, ones_run isStar, least]
      obtain rfl : c = '*' := isStar
      rw [same]
      exact .within le_rfl (inductionHypothesis left enough)
    · have more : least (c :: rest) = (if c = '?' then 'a' else c) :: least rest := by
        rw [least, ones_item isStar, List.map_cons, least]
      rw [more]
      by_cases isQuestion : c = '?'
      · obtain rfl := isQuestion
        cases left with
        | zero => exact .takes 'a' (inductionHypothesis 0 (Nat.zero_le _))
        | succ left =>
          exact .shares (inductionHypothesis left (Nat.le_of_succ_le_succ enough))
      · rw [questions_literal isStar isQuestion] at enough
        obtain rfl := Nat.le_zero.mp enough
        rw [if_neg isQuestion]
        exact .literal c isStar isQuestion (inductionHypothesis 0 (Nat.zero_le _))

/-- A character of three bytes. -/
def wide : Char := '\u4e16'

/-- A segment that may share a character accepts a text too short for it. -/
theorem exists_shared (glob : List Char) (may : mayShare glob = true) :
    ∃ text, Sharing glob 0 text ∧ text.length < (ones IsStar glob).length ∧
      ('/' ∉ glob → '/' ∉ text) := by
  induction glob with
  | nil => cases may
  | cons c rest inductionHypothesis =>
    rcases (Bool.or_eq_true _ _).mp may with here | later
    · obtain ⟨isStar, two⟩ := (Bool.and_eq_true _ _).mp here
      have isStar : IsStar c := beq_iff_eq.mp isStar
      have two : 2 ≤ questions rest := of_decide_eq_true two
      have many := questions_le rest
      refine ⟨wide :: (least rest).drop 2, ?_, ?_, ?_⟩
      · obtain rfl : c = '*' := isStar
        exact .into 0 [] wide (by decide) (sharing_least rest 2 two)
      · rw [ones_run isStar, List.length_cons, List.length_drop, least, List.length_map]
        omega
      · intro noSlash slash
        rcases List.mem_cons.mp slash with isWide | inLeast
        · exact absurd isWide (by decide)
        · obtain ⟨pattern, member, isSlash⟩ := List.mem_map.mp (List.mem_of_mem_drop inLeast)
          have among := List.mem_of_mem_filter member
          split at isSlash
          · exact absurd isSlash (by decide)
          · exact noSlash (isSlash ▸ List.mem_cons_of_mem _ among)
    · obtain ⟨text, sharing, fewer, noSlash⟩ := inductionHypothesis later
      by_cases isStar : IsStar c
      · refine ⟨text, ?_, ?_, fun none_ => noSlash fun member =>
          none_ (List.mem_cons_of_mem _ member)⟩
        · obtain rfl : c = '*' := isStar
          exact .within le_rfl sharing
        · rw [ones_run isStar]
          exact fewer
      · have longer (d : Char) : (d :: text).length < (ones IsStar (c :: rest)).length := by
          rw [ones_item isStar]
          exact Nat.succ_lt_succ fewer
        by_cases isQuestion : c = '?'
        · obtain rfl := isQuestion
          refine ⟨'a' :: text, .takes 'a' sharing, longer 'a', fun none_ slash => ?_⟩
          rcases List.mem_cons.mp slash with isSlash | inText
          · exact absurd isSlash (by decide)
          · exact noSlash (fun member => none_ (List.mem_cons_of_mem _ member)) inText
        · refine ⟨c :: text, .literal c isStar isQuestion sharing, longer c,
            fun none_ slash => ?_⟩
          rcases List.mem_cons.mp slash with isSlash | inText
          · exact none_ (isSlash ▸ List.mem_cons_self)
          · exact noSlash (fun member => none_ (List.mem_cons_of_mem _ member)) inText

/-- Every segment accepts a text, and one too short for it where it may share a character. -/
theorem exists_accepted (glob : List Char) :
    ∃ text, Sharing glob 0 text ∧ ('/' ∉ glob → '/' ∉ text) ∧
      (mayShare glob = true → text.length < (ones IsStar glob).length) := by
  by_cases may : mayShare glob = true
  · obtain ⟨text, sharing, fewer, noSlash⟩ := exists_shared glob may
    exact ⟨text, sharing, noSlash, fun _ => fewer⟩
  · refine ⟨least glob, (segmentMatches_least glob).sharing, fun none_ slash => ?_,
      fun isMay => absurd isMay may⟩
    obtain ⟨pattern, member, isSlash⟩ := List.mem_map.mp slash
    split at isSlash
    · exact absurd isSlash (by decide)
    · exact none_ (isSlash ▸ List.mem_of_mem_filter member)

/-! ### A glob and a path -/

/-- A path matches a glob when the wildcards of its segments may share characters. -/
def GlobShares (glob path : String) : Prop :=
  Matching IsDoubleStar (fun first segment => Sharing first 0 segment) (segments glob)
    (segments path)

theorem globMatches_iff (glob path : String) :
    globMatches glob path = true ↔ GlobShares glob path :=
  segmentsMatch_iff (fun first segment => (matched first).aligned segment) _ _

theorem GlobMatches.shares {glob path : String} (matches_ : GlobMatches glob path) :
    GlobShares glob path :=
  matches_.mono fun _ _ segment => segment.sharing

theorem not_mem_segment {text : String} {segment : List Char} (member : segment ∈ segments text) :
    '/' ∉ segment := by
  unfold segments at member
  generalize text.toList = chars at member
  induction chars generalizing segment with
  | nil =>
    rw [List.splitOn_nil, List.mem_singleton] at member
    exact member ▸ List.not_mem_nil
  | cons c chars inductionHypothesis =>
    rw [List.splitOn_cons_eq_if_modifyHead] at member
    split at member
    · rcases List.mem_cons.mp member with rfl | later
      · exact List.not_mem_nil
      · exact inductionHypothesis later
    next notSlash =>
      obtain ⟨first, others, split⟩ :=
        List.exists_cons_of_ne_nil (List.splitOn_ne_nil '/' chars)
      rw [split, List.modifyHead_cons] at member
      rcases List.mem_cons.mp member with rfl | later
      · intro slash
        rcases List.mem_cons.mp slash with rfl | inFirst
        · exact notSlash (beq_self_eq_true _)
        · exact inductionHypothesis (split ▸ List.mem_cons_self) inFirst
      · exact inductionHypothesis (split ▸ List.mem_cons_of_mem _ later)

/-- A path of any segments at all without a `/`. -/
theorem exists_path (parts : List (List Char)) (some_ : parts ≠ [])
    (noSlash : ∀ part ∈ parts, '/' ∉ part) : ∃ path, segments path = parts := by
  refine ⟨String.ofList (List.intercalate ['/'] parts), ?_⟩
  rw [segments, String.toList_ofList, List.splitOn_intercalate '/' noSlash some_]

/-- A glob with a segment that may share a character has a path that shares one and does not
match it. -/
theorem exists_sharing_path {glob : String} {segment : List Char}
    (member : segment ∈ segments glob) (may : mayShare segment = true) :
    ∃ path, GlobShares glob path ∧ ¬ GlobMatches glob path := by
  choose fill accepted noSlash fewer using exists_accepted
  have isOne : ¬ IsDoubleStar segment := by
    rintro rfl
    exact absurd may (by decide)
  have among : segment ∈ ones IsDoubleStar (segments glob) :=
    List.mem_filter.mpr ⟨member, decide_eq_true isOne⟩
  -- Of each segment that is no `**` the text it accepts.
  obtain ⟨path, isPath⟩ := exists_path ((ones IsDoubleStar (segments glob)).map fill)
    (List.ne_nil_of_mem (List.mem_map_of_mem among)) (fun part isPart => by
      obtain ⟨first, isFirst, rfl⟩ := List.mem_map.mp isPart
      exact noSlash first (not_mem_segment (List.mem_of_mem_filter isFirst)))
  refine ⟨path, ?_, fun means => ?_⟩
  · rw [GlobShares, isPath]
    exact (matching_ones fill).mpr fun first _ _ => accepted first
  · rw [GlobMatches, isPath] at means
    have own := Matching.length_le ((matching_ones fill).mp means segment member isOne)
    exact absurd (fewer segment may) (Nat.not_lt.mpr own)

/-- Where no segment may share a character, a path matches as it should. -/
theorem GlobShares.matches {glob path : String}
    (alone : ∀ segment ∈ segments glob, mayShare segment = false)
    (shares : GlobShares glob path) : GlobMatches glob path := by
  unfold GlobShares at shares
  unfold GlobMatches
  generalize segments glob = patterns at shares alone
  generalize segments path = items at shares
  induction shares with
  | nil => exact .nil
  | run skipped isMany _ inductionHypothesis =>
    exact .run skipped isMany (inductionHypothesis fun segment member =>
      alone segment (List.mem_cons_of_mem _ member))
  | item isOne allowed _ inductionHypothesis =>
    refine .item isOne ?_ (inductionHypothesis fun segment member =>
      alone segment (List.mem_cons_of_mem _ member))
    exact (alone_of_mayShare _ (alone _ List.mem_cons_self)).aligned _ allowed

/-- The matcher agrees on a path with what the glob means unless it matches only by wildcards
that share a character; and on every path exactly for the globs none of whose segments has two
`?`s after a `*` with nothing but wildcards between. -/
theorem globMatches_exact (glob : String) :
    (∀ path, (globMatches glob path = true ↔ GlobMatches glob path) ↔
        ¬ (GlobShares glob path ∧ ¬ GlobMatches glob path)) ∧
      ((∀ path, globMatches glob path = true ↔ GlobMatches glob path) ↔
        ∀ segment ∈ segments glob, mayShare segment = false) := by
  have agrees (path : String) : (globMatches glob path = true ↔ GlobMatches glob path) ↔
      ¬ (GlobShares glob path ∧ ¬ GlobMatches glob path) := by
    rw [globMatches_iff, not_and_not_right]
    exact ⟨Iff.mp, fun means => ⟨means, GlobMatches.shares⟩⟩
  refine ⟨agrees, fun all segment member => ?_, fun alone path => (agrees path).mpr ?_⟩
  · by_contra may
    obtain ⟨path, sharing⟩ := exists_sharing_path member ((Bool.not_eq_false _).mp may)
    exact (agrees path).mp (all path) sharing
  · rintro ⟨shares, notMatches⟩
    exact notMatches (shares.matches alone)

/-- Two `?`s share the one character of a text. -/
theorem two_questions_one_char :
    globMatches "*??" "\u4e16" = true ∧ ¬ GlobMatches "*??" "\u4e16" := by
  refine ⟨by decide, fun matches_ => ?_⟩
  have one : SegmentMatches ['*', '?', '?'] ['\u4e16'] :=
    ((matching_item (by decide)).mp matches_).1
  exact absurd one.length_le (by decide)

end Dagq.Scope
