/-
This file shows that a printed change is read line by line: no line has a newline in it, the
lines in front of a file's hunks begin with words of their own, and the number after the plus
sign of a hunk's header is the one of its first new line.
-/

import Dagq.Secrets.Quoted

namespace Dagq.Secrets

open Lib

/-! ### Newlines -/

theorem noNewline_bytesOf {text : List Char} (apart : '\n' ∉ text) : (10 : UInt8) ∉ bytesOf text := by
  intro member
  refine apart ?_
  rw [← lossy_bytesOf text]
  exact (mem_lossy_iff (by decide)).mpr member

theorem noNewline_label (name : List UInt8) : (10 : UInt8) ∉ label name := by
  intro member
  exact absurd (printable_label name 10 member).1 (by decide)

theorem noNewline_labelled (name : List UInt8) : (10 : UInt8) ∉ labelled name := by
  rw [labelled, List.mem_append, not_or]
  refine ⟨noNewline_label name, ?_⟩
  split <;> decide

theorem isDigit_of_mem_number {n : Nat} {char : Char} (member : char ∈ Nat.toDigits 10 n) :
    char.isDigit :=
  Nat.isDigit_of_mem_toDigits (by decide) (by decide) member

theorem noNewline_number (n : Nat) : (10 : UInt8) ∉ number n :=
  noNewline_bytesOf fun member => absurd (isDigit_of_mem_number member) (by decide)

theorem noNewline_range (lines first : Nat) : (10 : UInt8) ∉ range lines first := by
  rw [range, List.mem_append, not_or]
  refine ⟨noNewline_number _, ?_⟩
  split
  · exact List.not_mem_nil
  · rw [List.mem_append, not_or]
    exact ⟨by decide, noNewline_number _⟩

theorem noNewline_hex (side : Side) : (10 : UInt8) ∉ side.hex := by
  refine noNewline_bytesOf fun member => ?_
  obtain ⟨digit, _, isDigit⟩ := List.mem_map.mp member
  have apart : ∀ digit : Fin 16, digit.val.digitChar ≠ '\n' := by decide
  exact apart digit isDigit

theorem noNewline_mode (mode : Mode) : (10 : UInt8) ∉ ascii mode.text := by
  cases mode <;> decide

/-! ### The lines in front of the hunks -/

/-- What a line that says what happened to a file begins with. -/
def leads : List String :=
  ["old mode ", "new mode ", "similarity index ", "rename from ", "rename to ", "index ",
    "index 0000000..", "new file mode ", "deleted file mode ", "--- "]

/-- A line that says what happened to a file. -/
def IsAbout (line : List UInt8) : Prop :=
  ∃ lead ∈ leads, ∃ rest, line = ascii lead ++ rest ∧ (10 : UInt8) ∉ rest

theorem isAbout_lead {lead : String} (isLead : lead ∈ leads) {rest : List UInt8}
    (apart : (10 : UInt8) ∉ rest) : IsAbout (ascii lead ++ rest) :=
  ⟨lead, isLead, rest, rfl, apart⟩

theorem noNewline_of_isAbout {line : List UInt8} (isAbout : IsAbout line) :
    (10 : UInt8) ∉ line := by
  obtain ⟨lead, isLead, rest, rfl, apart⟩ := isAbout
  have apartLead : ∀ lead ∈ leads, (10 : UInt8) ∉ ascii lead := by decide
  rw [List.mem_append, not_or]
  exact ⟨apartLead lead isLead, apart⟩

theorem isAbout_mode {lead : String} (isLead : lead ∈ leads) (mode : Mode) :
    IsAbout (ascii lead ++ ascii mode.text) :=
  isAbout_lead isLead (noNewline_mode mode)

theorem isAbout_name {lead : String} (isLead : lead ∈ leads) (name : List UInt8) :
    IsAbout (ascii lead ++ label name) :=
  isAbout_lead isLead (noNewline_label name)

theorem isAbout_extended (file : FileChange) : ∀ line ∈ file.extended, IsAbout line := by
  rw [FileChange.extended]
  rcases file.before with _ | before <;> rcases file.after with _ | after <;> dsimp only
  · exact fun _ => False.elim ∘ List.not_mem_nil
  · rw [List.forall_mem_cons, List.forall_mem_singleton]
    exact ⟨isAbout_mode (by decide) after.mode, isAbout_lead (by decide) (noNewline_hex after)⟩
  · rw [List.forall_mem_cons, List.forall_mem_singleton, List.append_assoc (ascii "index ")]
    refine ⟨isAbout_mode (by decide) before.mode, isAbout_lead (by decide) ?_⟩
    rw [List.mem_append, not_or]
    exact ⟨noNewline_hex before, by decide⟩
  · rw [List.forall_mem_append, List.forall_mem_append]
    refine ⟨⟨?_, ?_⟩, ?_⟩
    · split
      · exact fun _ => False.elim ∘ List.not_mem_nil
      · rw [List.forall_mem_cons, List.forall_mem_singleton]
        exact ⟨isAbout_mode (by decide) before.mode, isAbout_mode (by decide) after.mode⟩
    · split
      · exact fun _ => False.elim ∘ List.not_mem_nil
      · rw [List.forall_mem_cons, List.forall_mem_cons, List.forall_mem_singleton,
          List.append_assoc]
        refine ⟨isAbout_lead (by decide) ?_, isAbout_name (by decide) before.name,
          isAbout_name (by decide) after.name⟩
        rw [List.mem_append, not_or]
        exact ⟨noNewline_number _, by decide⟩
    · split
      · exact fun _ => False.elim ∘ List.not_mem_nil
      · rw [List.forall_mem_singleton, List.append_assoc, List.append_assoc, List.append_assoc]
        refine isAbout_lead (by decide) ?_
        simp only [List.mem_append, not_or]
        refine ⟨noNewline_hex before, by decide, noNewline_hex after, ?_⟩
        split
        · rw [List.mem_append, not_or]
          exact ⟨by decide, noNewline_mode _⟩
        · exact List.not_mem_nil

/-! ### Lines apart -/

theorem noNewline_header (hunk : Hunk) (first firstNew : Nat) :
    (10 : UInt8) ∉ hunk.header first firstNew := by
  simp only [Hunk.header, List.mem_append, not_or]
  refine ⟨⟨⟨⟨⟨by decide, noNewline_range _ _⟩, by decide⟩, noNewline_range _ _⟩, by decide⟩, ?_⟩
  cases hunk.section_ with
  | none => exact List.not_mem_nil
  | some line =>
    rw [Option.elim_some, List.mem_append, not_or]
    exact ⟨by decide, line.2⟩

theorem noNewline_signed {sign : String} (apart : (10 : UInt8) ∉ ascii sign) (lines : List Line) :
    ∀ printed ∈ lines.map fun line => ascii sign ++ line.1, (10 : UInt8) ∉ printed := by
  rw [List.forall_mem_map]
  intro line _
  rw [List.mem_append, not_or]
  exact ⟨apart, line.2⟩

theorem noNewline_unended (isUnended : Bool) : ∀ line ∈ unended isUnended, (10 : UInt8) ∉ line := by
  cases isUnended <;> decide

theorem noNewline_hunkLines (past pastNew : Nat) (hunks : List Hunk) :
    ∀ line ∈ hunkLines past pastNew hunks, (10 : UInt8) ∉ line := by
  induction hunks generalizing past pastNew with
  | nil => exact fun _ => False.elim ∘ List.not_mem_nil
  | cons hunk rest inductionHypothesis =>
    rw [hunkLines, List.cons_append, List.forall_mem_cons, List.forall_mem_append, Hunk.content,
      List.forall_mem_append, List.forall_mem_append, List.forall_mem_append]
    exact ⟨noNewline_header hunk _ _,
      ⟨⟨noNewline_signed (by decide) _, noNewline_unended _⟩,
        noNewline_signed (by decide) _, noNewline_unended _⟩,
      inductionHypothesis _ _⟩

theorem noNewline_sideLabel {lead : String} (side : Option Side) :
    (10 : UInt8) ∉ FileChange.sideLabel lead side := by
  cases side with
  | none =>
    have apart : (10 : UInt8) ∉ ascii "/dev/null" := by decide
    exact apart
  | some side => exact noNewline_labelled _

/-- No line that is printed has a newline in it. -/
theorem noNewline_lines (file : FileChange) : ∀ line ∈ file.lines, (10 : UInt8) ∉ line := by
  rw [FileChange.lines, List.cons_append, List.forall_mem_cons, List.forall_mem_append]
  refine ⟨?_, fun line member => noNewline_of_isAbout (isAbout_extended file line member), ?_⟩
  · simp only [List.mem_append, not_or]
    exact ⟨⟨⟨by decide, noNewline_label _⟩, by decide⟩, noNewline_label _⟩
  · split
    · exact fun _ => False.elim ∘ List.not_mem_nil
    · rw [List.forall_mem_append, List.forall_mem_cons, List.forall_mem_singleton]
      simp only [List.mem_append, not_or]
      exact ⟨⟨⟨by decide, noNewline_sideLabel _⟩, by decide, noNewline_sideLabel _⟩,
        noNewline_hunkLines _ _ _⟩

/-- Lines without a newline are read one by one. -/
theorem splitOn_lossy {lines : List (List UInt8)} (apart : ∀ line ∈ lines, (10 : UInt8) ∉ line) :
    (lossy (lines.flatMap fun line => line ++ [10])).splitOn '\n' = lines.map lossy ++ [[]] := by
  induction lines with
  | nil => exact List.splitOn_nil _
  | cons line rest inductionHypothesis =>
    obtain ⟨here, later⟩ := List.forall_mem_cons.mp apart
    have apartText : '\n' ∉ lossy line := (mem_lossy_iff (by decide)).not.mpr here
    have isText : lossy (line ++ 10 :: rest.flatMap fun line => line ++ [10]) =
        lossy line ++ '\n' :: lossy (rest.flatMap fun line => line ++ [10]) :=
      @lossy_append_ascii '\n' (by decide) line _
    rw [List.flatMap_cons, List.append_assoc, List.singleton_append, isText,
      List.splitOn_append_cons_self_of_not_mem apartText, inductionHypothesis later]
    rfl

/-! ### The first new line -/

theorem parseU64_number {n : Nat} (fits : n ≤ u64Max) : parseU64 (Nat.toDigits 10 n) = some n := by
  have noSign : (Nat.toDigits 10 n).dropPrefix? ['+'] = none := by
    cases drops : (Nat.toDigits 10 n).dropPrefix? ['+'] with
    | none => rfl
    | some rest =>
      obtain ⟨sign, isText, isSign⟩ := List.dropPrefix?_eq_some_iff.mp drops
      have isDigit := @isDigit_of_mem_number n '+' (by rw [isText, eq_of_beq isSign]; simp)
      exact absurd isDigit (by decide)
  have all : (Nat.toDigits 10 n).all Char.isDigit :=
    List.all_eq_true.mpr fun _ member => isDigit_of_mem_number member
  rw [parseU64, noSign, Option.getD_none, Nat.ofDigitChars_ten_toDigits, if_pos ⟨Nat.toDigits_ne_nil, all, fits⟩]

theorem notMem_number {n : Nat} {char : Char} (noDigit : char.isDigit = false) :
    char ∉ Nat.toDigits 10 n := by
  intro member
  rw [isDigit_of_mem_number member] at noDigit
  cases noDigit

/-- A range is its first line, and its length after a comma. -/
theorem range_eq_bytesOf (lines first : Nat) :
    ∃ length, range lines first =
        bytesOf (Nat.toDigits 10 (if lines = 0 then first - 1 else first) ++ length) ∧
      ' ' ∉ length ∧ (length = [] ∨ ∃ digits, length = ',' :: digits) := by
  rw [range, number]
  by_cases isOne : lines = 1
  · rw [if_pos isOne, List.append_nil]
    exact ⟨[], by rw [List.append_nil], List.not_mem_nil, Or.inl rfl⟩
  · rw [if_neg isOne]
    refine ⟨',' :: Nat.toDigits 10 lines, ?_, ?_, Or.inr ⟨_, rfl⟩⟩
    · rw [bytesOf_append]
      rfl
    · rw [List.mem_cons, not_or]
      exact ⟨by decide, notMem_number (by decide)⟩

/-- The number of the first new line is the one after the plus sign. -/
theorem firstNewLine_ranges {n : Nat} (fits : n ≤ u64Max) {old length : List Char}
    (oldApart : ' ' ∉ old) (lengthApart : ' ' ∉ length)
    (isLength : length = [] ∨ ∃ digits, length = ',' :: digits) (rest : List Char) :
    firstNewLine ('-' :: old ++ ' ' :: ('+' :: (Nat.toDigits 10 n ++ length) ++ ' ' :: rest)) =
      n := by
  have isOld : ' ' ∉ '-' :: old := by
    rw [List.mem_cons, not_or]
    exact ⟨by decide, oldApart⟩
  have isNew : ' ' ∉ '+' :: (Nat.toDigits 10 n ++ length) := by
    simp only [List.mem_cons, List.mem_append, not_or]
    exact ⟨by decide, notMem_number (by decide), lengthApart⟩
  have noSign : ('-' :: old).dropPrefix? ['+'] = none := by
    rw [List.dropPrefix?]
    rfl
  have isFirst : ((Nat.toDigits 10 n ++ length).splitOn ',').head? = some (Nat.toDigits 10 n) := by
    have apart : ',' ∉ Nat.toDigits 10 n := notMem_number (by decide)
    rcases isLength with rfl | ⟨digits, rfl⟩
    · rw [List.append_nil, List.splitOn_eq_singleton apart]
      rfl
    · rw [List.splitOn_append_cons_self_of_not_mem apart]
      rfl
  have isRange : ('+' :: (Nat.toDigits 10 n ++ length)).dropPrefix? ['+'] =
      some (Nat.toDigits 10 n ++ length) := dropPrefix?_append ['+'] _
  rw [firstNewLine, List.splitOn_append_cons_self_of_not_mem isOld,
    List.splitOn_append_cons_self_of_not_mem isNew, List.findSome?_cons, noSign]
  dsimp only
  rw [List.findSome?_cons, isRange]
  dsimp only
  rw [Option.bind_some, isFirst, Option.bind_some, parseU64_number fits, Option.getD_some]

/-- A hunk's header says the number of its first new line. -/
theorem firstNewLine_header (hunk : Hunk) (first firstNew : Nat) (fits : firstNew ≤ u64Max) :
    ∃ header, lossy (hunk.header first firstNew) = "@@ ".toList ++ header ∧
      firstNewLine header = if hunk.added.length = 0 then firstNew - 1 else firstNew := by
  obtain ⟨oldLength, isOld, oldApart, _⟩ := range_eq_bytesOf hunk.removed.length first
  obtain ⟨length, isNew, apart, isLength⟩ := range_eq_bytesOf hunk.added.length firstNew
  have fitsFirst : (if hunk.added.length = 0 then firstNew - 1 else firstNew) ≤ u64Max := by
    split <;> omega
  have apartOld :
      ' ' ∉ Nat.toDigits 10 (if hunk.removed.length = 0 then first - 1 else first) ++ oldLength := by
    rw [List.mem_append, not_or]
    exact ⟨notMem_number (by decide), oldApart⟩
  refine ⟨_, ?_, firstNewLine_ranges fitsFirst apartOld apart isLength
    ("@@".toList ++ lossy (hunk.section_.elim [] fun line => ascii " " ++ line.1))⟩
  rw [Hunk.header, isOld, isNew]
  simp only [List.append_assoc, List.cons_append, lossy_ascii_append, lossy_bytesOf_append]
  rfl

end Dagq.Secrets
