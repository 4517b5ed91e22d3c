/-
This file proves which cursors are the same when their text is read again: every event,
and the times of the years 0 to 9999, whose texts are in the order of the times.
-/

import Dagq.Stats.Cursor

namespace Dagq.Stats

open Lib Ledger

/-! ### The text of a time -/

theorem utf8Size_of_isDigit {char : Char} (isDigit : char.isDigit = true) : char.utf8Size = 1 := by
  rw [Char.utf8Size_eq_one_iff]
  simp only [Char.isDigit, Bool.and_eq_true, decide_eq_true_eq] at isDigit
  exact UInt32.le_trans isDigit.2 (by decide)

theorem mem_toDigits_isDigit {number : Nat} {char : Char} (among : char ∈ Nat.toDigits 10 number) :
    char.isDigit = true :=
  Nat.isDigit_of_mem_toDigits (by decide) (by decide) among

/-- The time of a year of four digits is read as it was written. -/
theorem rfc3339Millis_utcText {millis : Int} (inYears : InYears millis) :
    rfc3339Millis (utcText millis).toList = some millis := by
  have fits := Stamp.of_fits inYears
  have split : splitOffset (utcText millis).toList = some ((Stamp.of millis).text, 0) := by
    rw [splitOffset, utcText_eq inYears, List.getLast?_concat, List.dropLast_concat,
      if_pos (.inl rfl)]
  have year : startsWithYear (Stamp.of millis).text = true := by
    have isText : (Stamp.of millis).text = (digits 4 (Stamp.of millis).year ++ ['-']) ++
        (digits 2 (Stamp.of millis).month ++ '-' :: (digits 2 (Stamp.of millis).day ++
          'T' :: (Stamp.of millis).time)) := by
      simp [Stamp.text, Stamp.date]
    have bytes : byteLength (digits 4 (Stamp.of millis).year ++ ['-']) = 5 := by
      rw [byteLength_eq_length, List.length_append, length_digits]
      · rfl
      · intro char among
        rcases List.mem_append.mp among with isDigit | isDash
        · exact utf8Size_of_isDigit (isDigit_of_mem_digits isDigit)
        · rw [List.mem_singleton.mp isDash]
          rfl
    have isCut := splitAtByte_append (digits 4 (Stamp.of millis).year ++ ['-'])
      (digits 2 (Stamp.of millis).month ++ '-' :: (digits 2 (Stamp.of millis).day ++
        'T' :: (Stamp.of millis).time))
    rw [bytes, ← isText] at isCut
    rw [startsWithYear, isCut, Option.any_some, List.getLast?_concat, List.dropLast_concat]
    simpa using fun char => isDigit_of_mem_digits
  have isTime := Stamp.timestampMillis_text fits (.inl rfl)
  rw [List.append_nil, Stamp.at_of inYears] at isTime
  have small : wrapped (millis - 0) = millis := by
    obtain ⟨low, high⟩ := inYears
    unfold firstMillis lastMillis at *
    rw [Int.sub_zero]
    exact wrapped_of_fits (by unfold i64Min; omega) (by unfold i64Max; omega)
  unfold rfc3339Millis
  rw [split]
  dsimp only [bind, Option.bind]
  rw [if_pos year, isTime, Option.map_some, small]

/-- A year below 0 is written after a sign, in four characters at least. -/
theorem padded_of_neg {number : Int} (negative : number < 0) : ∃ rest : List Char,
    (padded 4 number).toList = '-' :: rest ∧ 3 ≤ rest.length ∧
      ∀ char ∈ rest, char.isDigit = true := by
  refine ⟨List.replicate (3 - (Nat.toDigits 10 number.natAbs).length) '0' ++
    Nat.toDigits 10 number.natAbs, ?_, ?_, ?_⟩
  · simp only [padded, if_pos negative, String.toList_append, String.toList_ofList,
      Nat.toString_eq_ofList_toDigits, String.length_ofList]
    rfl
  · rw [List.length_append, List.length_replicate]
    omega
  · intro char among
    rcases List.mem_append.mp among with isZero | isShown
    · rw [List.eq_of_mem_replicate isZero]
      rfl
    · exact mem_toDigits_isDigit isShown

/-- A year from 10000 is written in five digits at least. -/
theorem padded_of_large {number : Int} (large : 9999 < number) :
    5 ≤ (padded 4 number).toList.length ∧
      ∀ char ∈ (padded 4 number).toList, char.isDigit = true := by
  have long : ¬(Nat.toDigits 10 number.natAbs).length ≤ 4 := by
    rw [Nat.length_toDigits_le_iff (by decide) (by decide)]
    omega
  have isText : (padded 4 number).toList = Nat.toDigits 10 number.natAbs := by
    simp only [padded, if_neg (by omega : ¬number < 0), String.toList_append, String.toList_ofList,
      Nat.toString_eq_ofList_toDigits, String.length_ofList, String.length_empty]
    rw [show 4 - 0 - (Nat.toDigits 10 number.natAbs).length = 0 by omega]
    rfl
  rw [isText]
  exact ⟨by omega, fun char => mem_toDigits_isDigit⟩

/-- A text does not start with a year of four digits when its first five characters, of one byte
each, are not four digits and a dash. -/
theorem not_startsWithYear {text : List Char} (long : 5 ≤ text.length)
    (single : ∀ char ∈ text.take 5, char.utf8Size = 1)
    (other : (text.take 5).getLast? ≠ some '-' ∨ ∃ char ∈ (text.take 5).dropLast,
      char.isDigit = false) : startsWithYear text = false := by
  rw [startsWithYear, splitAtByte_eq_take long single, Option.any_some]
  rcases other with notDash | ⟨char, among, notDigit⟩
  · simp [notDash]
  · have notAll : (text.take 5).dropLast.all Char.isDigit = false :=
      List.all_eq_false.mpr ⟨char, among, by simp [notDigit]⟩
    rw [notAll, Bool.and_false]

theorem not_startsWithYear_of_neg {digits rest : List Char} (long : 3 ≤ digits.length)
    (areDigits : ∀ char ∈ digits, char.isDigit = true) :
    startsWithYear ('-' :: (digits ++ '-' :: rest)) = false := by
  have fourth : ∃ first second third char more, digits ++ '-' :: rest =
      first :: second :: third :: char :: more ∧
      ∀ other ∈ [first, second, third, char], other.utf8Size = 1 := by
    match digits, long with
    | [first, second, third], _ =>
      refine ⟨first, second, third, '-', rest, rfl, fun other among => ?_⟩
      rcases List.mem_append.mp (show other ∈ [first, second, third] ++ ['-'] from among) with
        isDigit | isDash
      · exact utf8Size_of_isDigit (areDigits other isDigit)
      · rw [List.mem_singleton.mp isDash]
        rfl
    | first :: second :: third :: char :: more, _ =>
      refine ⟨first, second, third, char, more ++ '-' :: rest, rfl, fun other among => ?_⟩
      exact utf8Size_of_isDigit (areDigits other
        (List.mem_append_left more (show other ∈ [first, second, third, char] from among)))
  obtain ⟨first, second, third, char, more, isText, single⟩ := fourth
  rw [isText]
  exact not_startsWithYear (by simp) (List.forall_mem_cons.mpr ⟨rfl, single⟩)
    (.inr ⟨'-', List.mem_cons_self, rfl⟩)

theorem not_startsWithYear_of_large {digits rest : List Char} (long : 5 ≤ digits.length)
    (areDigits : ∀ char ∈ digits, char.isDigit = true) :
    startsWithYear (digits ++ '-' :: rest) = false := by
  have digit : ∀ char ∈ (digits ++ '-' :: rest).take 5, char.isDigit = true := by
    rw [List.take_append_of_le_length long]
    exact fun char among => areDigits char (List.mem_of_mem_take among)
  refine not_startsWithYear (by rw [List.length_append]; omega)
    (fun char among => utf8Size_of_isDigit (digit char among)) (.inl fun isLast => ?_)
  exact absurd (digit '-' (List.mem_of_getLast? isLast)) (by decide)

/-- The text of a time is its year, then a dash, then the rest with a `Z` at its end. -/
theorem utcText_starts (millis : Int) : ∃ rest : List Char, (utcText millis).toList =
    (padded 4 (civilYear (millis / 86400000))).toList ++ '-' :: (rest ++ ['Z']) := by
  refine ⟨(padded 2 (civilMonth (millis / 86400000)) ++ "-" ++
    padded 2 (civilDay (millis / 86400000)) ++ "T" ++ padded 2 (millis % 86400000 / 3600000) ++
    ":" ++ padded 2 (millis % 86400000 / 60000 % 60) ++ ":" ++
    padded 2 (millis % 86400000 / 1000 % 60) ++ "." ++
    padded 3 (millis % 86400000 % 1000)).toList, ?_⟩
  have isText : utcText millis = padded 4 (civilYear (millis / 86400000)) ++ "-" ++
      padded 2 (civilMonth (millis / 86400000)) ++ "-" ++ padded 2 (civilDay (millis / 86400000)) ++
      "T" ++ padded 2 (millis % 86400000 / 3600000) ++ ":" ++
      padded 2 (millis % 86400000 / 60000 % 60) ++ ":" ++
      padded 2 (millis % 86400000 / 1000 % 60) ++ "." ++ padded 3 (millis % 86400000 % 1000) ++
      "Z" := rfl
  rw [isText]
  simp

/-- A time of another year is not read. -/
theorem rfc3339Millis_utcText_of_not {millis : Int} (outside : ¬InYears millis) :
    rfc3339Millis (utcText millis).toList = none := by
  obtain ⟨rest, isText⟩ := utcText_starts millis
  have split : splitOffset (utcText millis).toList =
      some ((padded 4 (civilYear (millis / 86400000))).toList ++ '-' :: rest, 0) := by
    have ends : (utcText millis).toList =
        ((padded 4 (civilYear (millis / 86400000))).toList ++ '-' :: rest) ++ ['Z'] := by
      rw [isText, List.append_assoc, List.cons_append]
    rw [splitOffset, ends, List.getLast?_concat, List.dropLast_concat, if_pos (.inl rfl)]
  have year : startsWithYear ((padded 4 (civilYear (millis / 86400000))).toList ++ '-' :: rest) =
      false := by
    rw [inYears_iff, not_and_or, not_le, not_le] at outside
    rcases outside with negative | large
    · obtain ⟨digits, isYear, long, areDigits⟩ := padded_of_neg negative
      rw [isYear]
      exact not_startsWithYear_of_neg long areDigits
    · obtain ⟨long, areDigits⟩ := padded_of_large large
      exact not_startsWithYear_of_large long areDigits
  unfold rfc3339Millis
  rw [split]
  dsimp only [bind, Option.bind]
  rw [year, if_neg Bool.false_ne_true]

/-! ### The text of a cursor -/

theorem isWhiteSpace_of_isDigit {char : Char} (shown : char.isDigit = true ∨ char = '-') :
    isWhiteSpace char = false := by
  rcases shown with isDigit | rfl
  · simp only [Char.isDigit, Bool.and_eq_true, decide_eq_true_eq, ge_iff_le,
      UInt32.le_iff_toNat_le] at isDigit
    have low : 48 ≤ char.toNat := isDigit.1
    have high : char.toNat ≤ 57 := isDigit.2
    simp only [isWhiteSpace, Bool.or_eq_false_iff, Bool.and_eq_false_imp, decide_eq_true_eq,
      decide_eq_false_iff_not, beq_eq_false_iff_ne]
    omega
  · rfl

/-- A year is digits, with a sign or not. -/
theorem padded_starts (number : Int) : ∃ first rest, (padded 4 number).toList = first :: rest ∧
    (first.isDigit = true ∨ first = '-') := by
  rcases lt_or_ge number 0 with negative | positive
  · obtain ⟨digits, isYear, _⟩ := padded_of_neg negative
    exact ⟨'-', digits, isYear, .inr rfl⟩
  · have allDigits : (padded 4 number).toList ≠ [] ∧
        ∀ char ∈ (padded 4 number).toList, char.isDigit = true := by
      rcases lt_or_ge number 10000 with fits | large
      · have isYear := @padded_eq_digits 4 number.toNat (by decide) (by omega)
        rw [Int.toNat_of_nonneg positive] at isYear
        rw [isYear]
        exact ⟨digits_ne_nil (by decide) _, fun char => isDigit_of_mem_digits⟩
      · obtain ⟨long, areDigits⟩ := padded_of_large (show 9999 < number by omega)
        exact ⟨List.length_pos_iff.mp (by omega), areDigits⟩
    obtain ⟨first, rest, isYear⟩ := List.exists_cons_of_ne_nil allDigits.1
    exact ⟨first, rest, isYear, .inl (allDigits.2 first (isYear ▸ List.mem_cons_self))⟩

section

variable (printable : Char → Bool)

theorem fromStr_event {id : Int} (positive : 0 ≤ id) (fits : id ≤ i64Max) :
    Cursor.fromStr printable (Cursor.event id).text = .ok (.event id) := by
  obtain ⟨number, rfl⟩ := Int.eq_ofNat_of_zero_le positive
  have isText : (Cursor.event number).text.toList = Nat.toDigits 10 number := by
    show (toString number).toList = _
    rw [Nat.toString_eq_ofList_toDigits, String.toList_ofList]
  have visible : ∀ char ∈ Nat.toDigits 10 number, (!isWhiteSpace char) = true := fun char among => by
    rw [isWhiteSpace_of_isDigit (.inl (mem_toDigits_isDigit among))]
    rfl
  have same : trimmed (Nat.toDigits 10 number) = Nat.toDigits 10 number := by
    refine trimmed_of_visible ((Option.all_eq_true _ _).mpr fun char isFirst => ?_)
      ((Option.all_eq_true _ _).mpr fun char isLast => ?_)
    · exact visible char (List.mem_of_head? isFirst)
    · exact visible char (List.mem_of_getLast? isLast)
  have digits : onlyDigits (Nat.toDigits 10 number) = true := by
    simp only [onlyDigits, Bool.and_eq_true, Bool.not_eq_true', List.isEmpty_eq_false_iff,
      List.all_eq_true]
    exact ⟨Nat.toDigits_ne_nil, fun char => mem_toDigits_isDigit⟩
  have isNumber : parseInt (Nat.toDigits 10 number) = some (number : Int) := by
    rw [parseInt_eq Nat.toDigits_ne_nil fun char => mem_toDigits_isDigit,
      Nat.ofDigitChars_ten_toDigits, checked, if_pos]
    unfold i64Min
    exact ⟨by omega, fits⟩
  unfold Cursor.fromStr
  simp only [isText, same, digits, if_true, isNumber, Option.map_some]

theorem fromStr_time {millis : Int} :
    Cursor.fromStr printable (Cursor.time millis).text = .ok (.time millis) ↔ InYears millis := by
  obtain ⟨rest, isText⟩ := utcText_starts millis
  obtain ⟨first, year, isYear, shown⟩ := padded_starts (civilYear (millis / 86400000))
  have notAt : first ≠ '@' := by
    rintro rfl
    exact absurd shown (by decide)
  have starts : (utcText millis).toList = first :: (year ++ '-' :: rest) ++ ['Z'] := by
    rw [isText, isYear]
    simp
  have same : trimmed (utcText millis).toList = (utcText millis).toList := by
    refine trimmed_of_visible ?_ ?_
    · rw [starts, List.cons_append, List.head?_cons, Option.all_some,
        isWhiteSpace_of_isDigit shown]
      rfl
    · rw [starts, List.getLast?_concat]
      rfl
  have notDigits : onlyDigits (utcText millis).toList = false := by
    rw [onlyDigits, starts, List.all_append]
    simp
  have notUnix : unixSeconds (utcText millis).toList = none := by
    rw [starts, List.cons_append]
    unfold unixSeconds
    split
    · next seconds isUnix => exact absurd (List.cons.inj isUnix).1 notAt
    · rfl
  unfold Cursor.fromStr Cursor.text
  simp only [same, notDigits, Bool.false_eq_true, if_false, notUnix]
  by_cases inYears : InYears millis
  · simp [rfc3339Millis_utcText inYears, inYears]
  · simp [rfc3339Millis_utcText_of_not inYears, inYears]

end

/-! ### The cursors that read back -/

/-- Whether a text is of an event, or of a time in the years 0 to 9999. -/
def InFourDigits (text : String) : Prop :=
  let text := trimmed text.toList
  if onlyDigits text then True
  else
    match unixSeconds text with
    | some seconds => Nat.ofDigitChars 10 seconds 0 ≤ 253402300799
    | none => ∀ millis, rfc3339Millis text = some millis → InYears millis

theorem parseInt_bounds {text : List Char} {number : Int} (isNumber : parseInt text = some number)
    (digits : onlyDigits text = true) :
    number = Nat.ofDigitChars 10 text 0 ∧ number ≤ i64Max := by
  simp only [onlyDigits, Bool.and_eq_true, Bool.not_eq_true', List.isEmpty_eq_false_iff,
    List.all_eq_true] at digits
  rw [parseInt_eq digits.1 digits.2, checked] at isNumber
  split at isNumber
  · next fits =>
    obtain rfl := Option.some.inj isNumber
    exact ⟨rfl, fits.2⟩
  · cases isNumber

theorem fromStr_text_iff {printable : Char → Bool} {text : String} {cursor : Cursor}
    (reads : Cursor.fromStr printable text = .ok cursor) :
    Cursor.fromStr printable cursor.text = .ok cursor ↔ InFourDigits text := by
  unfold Cursor.fromStr at reads
  unfold InFourDigits
  dsimp only at reads ⊢
  cases isEvent : onlyDigits (trimmed text.toList) with
  | true =>
    rw [isEvent, if_pos rfl] at reads
    rw [if_pos rfl, iff_true]
    cases isNumber : parseInt (trimmed text.toList) with
    | none =>
      rw [isNumber] at reads
      cases reads
    | some id =>
      rw [isNumber] at reads
      obtain rfl := Except.ok.inj reads
      obtain ⟨isValue, fits⟩ := parseInt_bounds isNumber isEvent
      exact fromStr_event printable (isValue ▸ Int.natCast_nonneg _) fits
  | false =>
    rw [isEvent, if_neg Bool.false_ne_true] at reads
    rw [if_neg Bool.false_ne_true]
    cases isUnix : unixSeconds (trimmed text.toList) with
    | some seconds =>
      rw [isUnix] at reads
      dsimp only at reads ⊢
      have digits : onlyDigits seconds = true := by
        unfold unixSeconds at isUnix
        split at isUnix
        · split at isUnix
          · next isDigits => exact Option.some.inj isUnix ▸ isDigits
          · cases isUnix
        · cases isUnix
      cases isNumber : parseInt seconds with
      | none =>
        rw [isNumber] at reads
        cases reads
      | some number =>
        obtain ⟨isValue, _⟩ := parseInt_bounds isNumber digits
        rw [isNumber, Option.bind_some] at reads
        cases isMillis : checked (number * 1000) with
        | none =>
          rw [isMillis] at reads
          cases reads
        | some millis =>
          rw [isMillis] at reads
          obtain rfl := Except.ok.inj reads
          have isProduct := Option.some.inj (Option.ite_none_right_eq_some.mp isMillis).2
          rw [fromStr_time]
          unfold InYears firstMillis lastMillis
          omega
    | none =>
      rw [isUnix] at reads
      dsimp only at reads ⊢
      cases isTime : rfc3339Millis (trimmed text.toList) with
      | none =>
        rw [isTime] at reads
        cases reads
      | some millis =>
        rw [isTime] at reads
        obtain rfl := Except.ok.inj reads
        rw [fromStr_time]
        exact ⟨fun inYears other same => Option.some.inj same ▸ inYears, fun all => all millis rfl⟩

/-- A cursor read from a text reads back from its own exactly when it is an event or of a year of
four digits; the texts of times of these years read back as the times, in their order. -/
theorem Cursor.text_reads_back (printable : Char → Bool) :
    (∀ text cursor, Cursor.fromStr printable text = .ok cursor →
      (Cursor.fromStr printable cursor.text = .ok cursor ↔ InFourDigits text)) ∧
    ∀ millis, InYears millis → rfc3339Millis (utcText millis).toList = some millis ∧
      ∀ other, InYears other → (utcText millis < utcText other ↔ millis < other) :=
  ⟨fun _ _ => fromStr_text_iff, fun _ inYears =>
    ⟨rfc3339Millis_utcText inYears, fun _ alsoInYears => utcText_lt_iff inYears alsoInYears⟩⟩

/-- The first second of the year 10000 is read, and its text is not. -/
theorem year10000_not_read_back :
    Cursor.fromStr (fun _ => true) "@253402300800" = .ok (.time 253402300800000) ∧
      Cursor.fromStr (fun _ => true) (Cursor.time 253402300800000).text ≠
        .ok (.time 253402300800000) := by
  refine ⟨by decide, ?_⟩
  rw [Ne, fromStr_time]
  decide

theorem text_reads_back_at_epoch :
    Cursor.fromStr (fun _ => true) "@0" = .ok (.time 0) ∧
      (Cursor.fromStr (fun _ => true) (Cursor.time 0).text = .ok (.time 0) ↔ InFourDigits "@0") ∧
      InYears 0 ∧ rfc3339Millis (utcText 0).toList = some 0 :=
  ⟨by decide, (Cursor.text_reads_back fun _ => true).1 "@0" (.time 0) (by decide), by decide,
    ((Cursor.text_reads_back fun _ => true).2 0 (by decide)).1⟩

end Dagq.Stats
