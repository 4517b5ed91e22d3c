/-
This file reads bytes as text in UTF-8: each character of them, and nothing for each longest
stretch that begins one and does not go on. The readings of the bytes before and after one in
ASCII are apart, so bytes put together with such separators are read piece by piece.
-/

import Dagq.Lib.Utf8

namespace Dagq.Lib

/-- The bytes of a text. -/
def bytesOf (text : List Char) : List UInt8 := text.flatMap String.utf8EncodeChar

/-- The character of a byte in ASCII. -/
def charOf (byte : UInt8) : Char := Char.ofNat byte.toNat

/-- The character that bytes begin with. -/
def firstChar (bytes : List UInt8) : Option Char := bytes.toByteArray.utf8DecodeChar? 0

/-- Whether a first byte of three or four can be followed by a second. -/
def begins (first second : UInt8) : Bool :=
  let (first, second) := (first.toNat, second.toNat)
  (first = 0xe0 && decide (0xa0 ≤ second ∧ second < 0xc0)) ||
    (decide (0xe1 ≤ first ∧ first < 0xed) && decide (0x80 ≤ second ∧ second < 0xc0)) ||
    (first = 0xed && decide (0x80 ≤ second ∧ second < 0xa0)) ||
    (decide (0xee ≤ first ∧ first < 0xf0) && decide (0x80 ≤ second ∧ second < 0xc0)) ||
    (first = 0xf0 && decide (0x90 ≤ second ∧ second < 0xc0)) ||
    (decide (0xf1 ≤ first ∧ first < 0xf4) && decide (0x80 ≤ second ∧ second < 0xc0)) ||
    (first = 0xf4 && decide (0x80 ≤ second ∧ second < 0x90))

/-- The length of the stretch that is no character: its first byte and those that go on it. -/
def brokenLength (bytes : List UInt8) : Nat :=
  if begins (bytes.getD 0 0) (bytes.getD 1 0) then
    if 0x80 ≤ (bytes.getD 2 0).toNat ∧ (bytes.getD 2 0).toNat < 0xc0 then 3 else 2
  else 1

/-- The length of the first character, or of the stretch that is none. -/
def pieceLength (bytes : List UInt8) : Nat :=
  (firstChar bytes).elim (brokenLength bytes) Char.utf8Size

/-- Read bytes after the next ones, which were read. -/
def readFrom : Nat → List UInt8 → List (Option Char)
  | _, [] => []
  | skipped + 1, _ :: rest => readFrom skipped rest
  | 0, byte :: rest =>
    firstChar (byte :: rest) :: readFrom (pieceLength (byte :: rest) - 1) rest

/-- The characters of bytes, and nothing for each stretch that is none. -/
def readUtf8 (bytes : List UInt8) : List (Option Char) := readFrom 0 bytes

/-- The text of bytes, the replacement character for each stretch that is no character. -/
def lossy (bytes : List UInt8) : List Char := (readUtf8 bytes).map (·.getD '\uFFFD')

/-- The text of bytes that are one. -/
def textOf? (bytes : List UInt8) : Option (List Char) :=
  if (readUtf8 bytes).all (·.isSome) then some ((readUtf8 bytes).filterMap id) else none

/-! ### The first character -/

theorem bytesOf_cons (char : Char) (text : List Char) :
    bytesOf (char :: text) = String.utf8EncodeChar char ++ bytesOf text := rfl

@[simp] theorem bytesOf_append (first second : List Char) :
    bytesOf (first ++ second) = bytesOf first ++ bytesOf second := List.flatMap_append

theorem firstChar_append (char : Char) (rest : List UInt8) :
    firstChar (String.utf8EncodeChar char ++ rest) = some char := by
  rw [firstChar, List.toByteArray_append]
  exact ByteArray.utf8DecodeChar?_utf8EncodeChar_append

theorem firstChar_eq_some_iff {bytes : List UInt8} {char : Char} :
    firstChar bytes = some char ↔ ∃ rest, bytes = String.utf8EncodeChar char ++ rest := by
  constructor
  · intro reads
    obtain ⟨rest, isBytes⟩ := ByteArray.exists_of_utf8DecodeChar?_eq_some reads
    refine ⟨rest.data.toList, ?_⟩
    simpa using congrArg (·.data.toList) isBytes
  · rintro ⟨rest, rfl⟩
    exact firstChar_append char rest

@[simp] theorem firstChar_nil : firstChar [] = none := by
  cases reads : firstChar [] with
  | none => rfl
  | some char =>
    obtain ⟨rest, isNil⟩ := firstChar_eq_some_iff.mp reads
    obtain ⟨first, more, isFirst, _⟩ := utf8EncodeChar_spec char
    rw [isFirst] at isNil
    cases isNil

/-! ### The pieces -/

theorem pieceLength_pos (bytes : List UInt8) : 0 < pieceLength bytes := by
  unfold pieceLength
  cases firstChar bytes with
  | none =>
    rw [Option.elim_none, brokenLength]
    split_ifs <;> decide
  | some char => exact char.utf8Size_pos

theorem readFrom_eq (skipped : Nat) (bytes : List UInt8) :
    readFrom skipped bytes = readUtf8 (bytes.drop skipped) := by
  induction skipped generalizing bytes with
  | zero => rfl
  | succ skipped inductionHypothesis =>
    cases bytes with
    | nil => rfl
    | cons byte rest => exact inductionHypothesis rest

@[simp] theorem readUtf8_nil : readUtf8 [] = [] := rfl

/-- Bytes are read a piece at a time. -/
theorem readUtf8_eq {bytes : List UInt8} (isMore : bytes ≠ []) :
    readUtf8 bytes = firstChar bytes :: readUtf8 (bytes.drop (pieceLength bytes)) := by
  cases bytes with
  | nil => exact absurd rfl isMore
  | cons byte rest =>
    have positive := pieceLength_pos (byte :: rest)
    obtain ⟨length, isLength⟩ : ∃ length, pieceLength (byte :: rest) = length + 1 :=
      ⟨_, (Nat.succ_pred_eq_of_pos positive).symm⟩
    rw [readUtf8, readFrom, readFrom_eq, isLength]
    rfl

/-- The characters of a text are read from its bytes. -/
theorem readUtf8_bytesOf_append (text : List Char) (rest : List UInt8) :
    readUtf8 (bytesOf text ++ rest) = text.map some ++ readUtf8 rest := by
  induction text with
  | nil => rfl
  | cons char text inductionHypothesis =>
    have isMore : String.utf8EncodeChar char ++ (bytesOf text ++ rest) ≠ [] := by
      simp [String.utf8EncodeChar_ne_nil]
    have isPiece : pieceLength (String.utf8EncodeChar char ++ (bytesOf text ++ rest)) =
        (String.utf8EncodeChar char).length := by
      rw [pieceLength, firstChar_append, Option.elim_some, String.length_utf8EncodeChar]
    rw [bytesOf_cons, List.append_assoc, readUtf8_eq isMore, firstChar_append, isPiece,
      List.drop_left, inductionHypothesis]
    rfl

theorem readUtf8_bytesOf (text : List Char) : readUtf8 (bytesOf text) = text.map some := by
  simpa using readUtf8_bytesOf_append text []

/-- Bytes all of whose pieces are characters are those of the text. -/
theorem bytesOf_of_readUtf8 {bytes : List UInt8} {text : List Char}
    (reads : readUtf8 bytes = text.map some) : bytesOf text = bytes := by
  induction text generalizing bytes with
  | nil =>
    by_contra isMore
    rw [readUtf8_eq (Ne.symm isMore)] at reads
    cases reads
  | cons char text inductionHypothesis =>
    have isMore : bytes ≠ [] := by
      rintro rfl
      cases reads
    rw [readUtf8_eq isMore, List.map_cons, List.cons.injEq] at reads
    obtain ⟨isChar, isRest⟩ := reads
    obtain ⟨rest, rfl⟩ := firstChar_eq_some_iff.mp isChar
    rw [pieceLength, isChar, Option.elim_some, ← String.length_utf8EncodeChar, List.drop_left]
      at isRest
    rw [bytesOf_cons, inductionHypothesis isRest]

/-- Bytes are read as a text just when they are its bytes. -/
theorem textOf?_eq_some_iff {bytes : List UInt8} {text : List Char} :
    textOf? bytes = some text ↔ bytesOf text = bytes := by
  rw [textOf?]
  constructor
  · intro reads
    split at reads
    · next all =>
      obtain rfl := Option.some.inj reads
      refine bytesOf_of_readUtf8 ?_
      generalize readUtf8 bytes = pieces at all
      induction pieces with
      | nil => rfl
      | cons piece rest inductionHypothesis =>
        rw [List.all_cons, Bool.and_eq_true] at all
        obtain ⟨char, rfl⟩ := Option.isSome_iff_exists.mp all.1
        rw [List.filterMap_cons, id, List.map_cons, ← inductionHypothesis all.2]
    · cases reads
  · rintro rfl
    rw [readUtf8_bytesOf, if_pos (by simp), List.filterMap_map]
    simp

theorem textOf?_bytesOf_append (text : List Char) (rest : List UInt8) :
    textOf? (bytesOf text ++ rest) = (textOf? rest).map (text ++ ·) := by
  have all : (text.map some).all (·.isSome) = true := by simp
  rw [textOf?, textOf?, readUtf8_bytesOf_append, List.all_append, all, Bool.true_and]
  split
  · simp
  · rfl

/-! ### Pieces apart -/

section Apart

variable {separator : Char}

theorem utf8EncodeChar_ascii (ascii : separator.toNat < 0x80) :
    String.utf8EncodeChar separator = [UInt8.ofNat separator.toNat] := by
  have isOne : separator.utf8Size = 1 :=
    Char.utf8Size_eq_one_iff.mpr (UInt32.le_iff_toNat_le.mpr (Nat.le_of_lt_succ ascii))
  rw [String.utf8EncodeChar_eq_singleton isOne]
  rfl

theorem toNat_ascii (ascii : separator.toNat < 0x80) :
    (UInt8.ofNat separator.toNat).toNat = separator.toNat := by
  rw [UInt8.toNat_ofNat']
  exact Nat.mod_eq_of_lt (by omega)

/-- A byte in ASCII is no part of the character that bytes before it begin with. -/
theorem firstChar_append_ascii (ascii : separator.toNat < 0x80) {before : List UInt8}
    (isMore : before ≠ []) (rest : List UInt8) :
    firstChar (before ++ UInt8.ofNat separator.toNat :: rest) = firstChar before := by
  cases reads : firstChar before with
  | some char =>
    obtain ⟨more, rfl⟩ := firstChar_eq_some_iff.mp reads
    rw [List.append_assoc, firstChar_append]
  | none =>
    by_contra isSome
    obtain ⟨char, isChar⟩ := Option.ne_none_iff_exists'.mp isSome
    obtain ⟨other, same⟩ := firstChar_eq_some_iff.mp isChar
    rcases List.append_eq_append_iff.mp same with ⟨middle, isChar, isRest⟩ | ⟨middle, rfl, _⟩
    · cases middle with
      | nil =>
        rw [List.append_nil] at isChar
        have reads' := firstChar_append char []
        rw [List.append_nil, isChar, reads] at reads'
        cases reads'
      | cons byte middle =>
        obtain ⟨rfl, _⟩ := List.cons.inj isRest
        obtain ⟨first, more, isFirst, _, _, goOn, _⟩ := utf8EncodeChar_spec char
        obtain ⟨start, before, rfl⟩ := List.exists_cons_of_ne_nil isMore
        rw [isFirst, List.cons_append, List.cons.injEq] at isChar
        have goesOn := goOn (UInt8.ofNat separator.toNat)
          (isChar.2 ▸ List.mem_append_right _ List.mem_cons_self)
        have low := goesOn.1
        rw [toNat_ascii ascii] at low
        omega
    · rw [firstChar_append] at reads
      cases reads

theorem begins_of_low {first second : UInt8} (low : second.toNat < 0x80) :
    begins first second = false := by
  simp only [begins, Bool.or_eq_false_iff, Bool.and_eq_false_iff, decide_eq_false_iff_not]
  omega

/-- A byte in ASCII is no part of the stretch before it. -/
theorem brokenLength_append_ascii (ascii : separator.toNat < 0x80) {before : List UInt8}
    (isMore : before ≠ []) (rest : List UInt8) :
    brokenLength (before ++ UInt8.ofNat separator.toNat :: rest) = brokenLength before ∧
      brokenLength before ≤ before.length := by
  have low := toNat_ascii ascii
  unfold brokenLength
  match before, isMore with
  | [first], _ =>
    have notBegins := @begins_of_low first (UInt8.ofNat separator.toNat) (by omega)
    have noneBegins := @begins_of_low first 0 (by decide)
    simp [notBegins, noneBegins]
  | [first, second], _ =>
    have notGoes : ¬ (0x80 ≤ (UInt8.ofNat separator.toNat).toNat ∧
        (UInt8.ofNat separator.toNat).toNat < 0xc0) := by omega
    simp only [List.cons_append, List.nil_append, List.getD_cons_zero, List.getD_cons_succ,
      if_neg notGoes]
    split <;> simp
  | first :: second :: third :: more, _ =>
    simp only [List.cons_append, List.getD_cons_zero, List.getD_cons_succ, List.length_cons, true_and]
    split_ifs <;> omega

theorem pieceLength_append_ascii (ascii : separator.toNat < 0x80) {before : List UInt8}
    (isMore : before ≠ []) (rest : List UInt8) :
    pieceLength (before ++ UInt8.ofNat separator.toNat :: rest) = pieceLength before ∧
      pieceLength before ≤ before.length := by
  obtain ⟨same, within⟩ := brokenLength_append_ascii ascii isMore rest
  rw [pieceLength, pieceLength, firstChar_append_ascii ascii isMore, same]
  refine ⟨rfl, ?_⟩
  cases reads : firstChar before with
  | none => exact within
  | some char =>
    obtain ⟨more, rfl⟩ := firstChar_eq_some_iff.mp reads
    rw [Option.elim_some, List.length_append, String.length_utf8EncodeChar]
    exact Nat.le_add_right _ _

/-- The bytes before and after one in ASCII are read apart. -/
theorem readUtf8_append_ascii (ascii : separator.toNat < 0x80) (before rest : List UInt8) :
    readUtf8 (before ++ UInt8.ofNat separator.toNat :: rest) =
      readUtf8 before ++ some separator :: readUtf8 rest := by
  induction length : before.length using Nat.strong_induction_on generalizing before with
  | _ length inductionHypothesis =>
    by_cases isMore : before = []
    · subst isMore
      have reads := readUtf8_bytesOf_append [separator] rest
      rw [bytesOf_cons, utf8EncodeChar_ascii ascii] at reads
      exact reads
    · obtain ⟨same, within⟩ := pieceLength_append_ascii ascii isMore rest
      have positive := pieceLength_pos before
      rw [readUtf8_eq (by simp), firstChar_append_ascii ascii isMore, same,
        List.drop_append_of_le_length within,
        inductionHypothesis _ (by rw [List.length_drop]; omega) _ rfl, ← List.cons_append,
        ← readUtf8_eq isMore]

/-- A character of ASCII that is read is one of the bytes. -/
theorem mem_of_mem_readUtf8 (ascii : separator.toNat < 0x80) {bytes : List UInt8}
    (member : some separator ∈ readUtf8 bytes) : UInt8.ofNat separator.toNat ∈ bytes := by
  induction isLength : bytes.length using Nat.strong_induction_on generalizing bytes with
  | _ length inductionHypothesis =>
    have isMore : bytes ≠ [] := by
      rintro rfl
      cases member
    have positive := pieceLength_pos bytes
    rw [readUtf8_eq isMore, List.mem_cons] at member
    rcases member with isFirst | isLater
    · obtain ⟨rest, rfl⟩ := firstChar_eq_some_iff.mp isFirst.symm
      rw [utf8EncodeChar_ascii ascii]
      exact List.mem_cons_self
    · have shorter : (bytes.drop (pieceLength bytes)).length < length := by
        have long := List.length_pos_iff.mpr isMore
        rw [List.length_drop]
        omega
      exact List.mem_of_mem_drop (inductionHypothesis _ shorter isLater rfl)

/-- The texts of the bytes before and after one in ASCII are apart. -/
theorem lossy_append_ascii (ascii : separator.toNat < 0x80) (before rest : List UInt8) :
    lossy (before ++ UInt8.ofNat separator.toNat :: rest) =
      lossy before ++ separator :: lossy rest := by
  rw [lossy, readUtf8_append_ascii ascii, List.map_append, List.map_cons]
  rfl

/-- A character of ASCII is in a text just when its byte is in the bytes. -/
theorem mem_lossy_iff (ascii : separator.toNat < 0x80) {bytes : List UInt8} :
    separator ∈ lossy bytes ↔ UInt8.ofNat separator.toNat ∈ bytes := by
  constructor
  · intro member
    obtain ⟨piece, isPiece, isChar⟩ := List.mem_map.mp member
    cases piece with
    | some char => exact mem_of_mem_readUtf8 ascii (by rw [← isChar]; exact isPiece)
    | none =>
      rw [← isChar] at ascii
      exact absurd ascii (by decide)
  · intro member
    obtain ⟨before, rest, rfl⟩ := List.append_of_mem member
    rw [lossy_append_ascii ascii]
    simp

end Apart

@[simp] theorem toNat_charOf (byte : UInt8) : (charOf byte).toNat = byte.toNat := by
  have isValid : byte.toNat.isValidChar := Or.inl (by have := byte.toNat_lt; omega)
  rw [charOf, Char.ofNat, dif_pos isValid]
  rfl

/-- The characters of bytes in ASCII are those of the bytes. -/
theorem bytesOf_map_charOf {bytes : List UInt8} (ascii : ∀ byte ∈ bytes, byte.toNat < 0x80) :
    bytesOf (bytes.map charOf) = bytes := by
  induction bytes with
  | nil => rfl
  | cons byte rest inductionHypothesis =>
    have low := ascii byte List.mem_cons_self
    have isNumber := toNat_charOf byte
    rw [List.map_cons, bytesOf_cons, utf8EncodeChar_ascii (by rw [isNumber]; exact low), isNumber,
      inductionHypothesis fun other member => ascii other (List.mem_cons_of_mem _ member)]
    simp

@[simp] theorem lossy_nil : lossy [] = [] := rfl

theorem lossy_bytesOf_append (text : List Char) (rest : List UInt8) :
    lossy (bytesOf text ++ rest) = text ++ lossy rest := by
  rw [lossy, readUtf8_bytesOf_append, List.map_append, List.map_map, lossy]
  simp

theorem lossy_bytesOf (text : List Char) : lossy (bytesOf text) = text := by
  simpa using lossy_bytesOf_append text []

theorem lossy_of_ascii {bytes : List UInt8} (ascii : ∀ byte ∈ bytes, byte.toNat < 0x80) :
    lossy bytes = bytes.map charOf := by
  rw [← lossy_bytesOf (bytes.map charOf), bytesOf_map_charOf ascii]

/-- Bytes that are a text are read as it. -/
theorem lossy_of_textOf? {bytes : List UInt8} {text : List Char} (reads : textOf? bytes = some text) :
    lossy bytes = text := by
  rw [← textOf?_eq_some_iff.mp reads, lossy_bytesOf]

end Dagq.Lib
