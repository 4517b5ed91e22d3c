/-
This file cuts texts at bytes and finds markers in them. A cut inside a character is none;
the bytes of the text in front of another are where it is cut into the two, so a text is
cut where a marker is found and where it ends.
-/

import Mathlib.Data.List.Basic
import Mathlib.Algebra.BigOperators.Group.List.Basic
import Mathlib.Tactic

namespace Dagq.Lib

/-- The bytes of a text. -/
def byteLength (text : List Char) : Nat := (text.map Char.utf8Size).sum

/-- The text before a byte and the one from it; none when no character starts or ends there. -/
def splitAtByte : Nat → List Char → Option (List Char × List Char)
  | 0, text => some ([], text)
  | _ + 1, [] => none
  | at_ + 1, char :: rest =>
    if at_ + 1 < char.utf8Size then none
    else (splitAtByte (at_ + 1 - char.utf8Size) rest).map fun parts => (char :: parts.1, parts.2)

@[simp] theorem byteLength_nil : byteLength [] = 0 := rfl

@[simp] theorem byteLength_cons (char : Char) (text : List Char) :
    byteLength (char :: text) = char.utf8Size + byteLength text := by
  rw [byteLength, List.map_cons, List.sum_cons, byteLength]

@[simp] theorem byteLength_append (first second : List Char) :
    byteLength (first ++ second) = byteLength first + byteLength second := by
  rw [byteLength, List.map_append, List.sum_append, byteLength, byteLength]

/-- A text of characters of one byte has as many bytes. -/
theorem byteLength_eq_length {text : List Char} (single : ∀ char ∈ text, char.utf8Size = 1) :
    byteLength text = text.length := by
  induction text with
  | nil => rfl
  | cons char rest inductionHypothesis =>
    obtain ⟨first, others⟩ := List.forall_mem_cons.mp single
    rw [byteLength_cons, first, inductionHypothesis others, List.length_cons, Nat.add_comm]

@[simp] theorem splitAtByte_zero (text : List Char) : splitAtByte 0 text = some ([], text) := by
  unfold splitAtByte
  rfl

/-- A text is cut where the one in front ends. -/
theorem splitAtByte_append (before after : List Char) :
    splitAtByte (byteLength before) (before ++ after) = some (before, after) := by
  induction before with
  | nil => simp
  | cons char rest inductionHypothesis =>
    have positive := char.utf8Size_pos
    rw [List.cons_append, byteLength_cons]
    obtain ⟨size, isSize⟩ : ∃ size, char.utf8Size = size + 1 := ⟨_, (Nat.sub_add_cancel positive).symm⟩
    rw [isSize, Nat.add_right_comm, splitAtByte, isSize, if_neg (by omega),
      show size + byteLength rest + 1 - (size + 1) = byteLength rest by omega, inductionHypothesis]
    rfl

/-- A cut after characters of one byte is after as many characters. -/
theorem splitAtByte_eq_take {text : List Char} {at_ : Nat} (long : at_ ≤ text.length)
    (single : ∀ char ∈ text.take at_, char.utf8Size = 1) :
    splitAtByte at_ text = some (text.take at_, text.drop at_) := by
  have bytes : byteLength (text.take at_) = at_ := by
    rw [byteLength_eq_length single, List.length_take, Nat.min_eq_left long]
  have isCut := splitAtByte_append (text.take at_) (text.drop at_)
  rwa [bytes, List.take_append_drop] at isCut

/-! ### Markers -/

/-- The bytes at which a marker is found from `at_` on, past `skipped` characters; a marker found
takes its characters. -/
def matchesFrom (marker : List Char) : List Char → Nat → Nat → List Nat
  | [], _, _ => []
  | char :: rest, skipped + 1, at_ => matchesFrom marker rest skipped (at_ + char.utf8Size)
  | char :: rest, 0, at_ =>
    if marker.isPrefixOf (char :: rest) then
      at_ :: matchesFrom marker rest (marker.length - 1) (at_ + char.utf8Size)
    else matchesFrom marker rest 0 (at_ + char.utf8Size)

/-- The bytes at which a marker is found in a text, from the left and apart from each other. -/
def matchIndices (marker text : List Char) : List Nat := matchesFrom marker text 0 0

theorem mem_matchesFrom {marker text : List Char} {skipped start at_ : Nat}
    (found : at_ ∈ matchesFrom marker text skipped start) :
    ∃ before after, text = before ++ (marker ++ after) ∧ at_ = start + byteLength before := by
  induction text generalizing skipped start with
  | nil => cases found
  | cons char rest inductionHypothesis =>
    have inRest : ∀ {skipped}, at_ ∈ matchesFrom marker rest skipped (start + char.utf8Size) →
        ∃ before after, char :: rest = before ++ (marker ++ after) ∧
          at_ = start + byteLength before := by
      intro skipped inRest
      obtain ⟨before, after, rfl, isAt⟩ := inductionHypothesis inRest
      exact ⟨char :: before, after, rfl, by rw [isAt, byteLength_cons]; omega⟩
    cases skipped with
    | succ skipped => exact inRest found
    | zero =>
      rw [matchesFrom] at found
      split at found
      · next isPrefix =>
        rcases List.mem_cons.mp found with rfl | isLater
        · obtain ⟨after, isText⟩ := List.isPrefixOf_iff_prefix.mp isPrefix
          exact ⟨[], after, isText.symm, rfl⟩
        · exact inRest isLater
      · exact inRest found

/-- A text is cut at the end of a marker found in it. -/
theorem splitAtByte_matchIndices {marker text : List Char} {at_ : Nat}
    (found : at_ ∈ matchIndices marker text) :
    ∃ before after, text = before ++ after ∧
      splitAtByte (at_ + byteLength marker) text = some (before, after) := by
  obtain ⟨before, after, rfl, isAt⟩ := mem_matchesFrom found
  refine ⟨before ++ marker, after, by simp, ?_⟩
  rw [isAt, Nat.zero_add, ← byteLength_append, ← List.append_assoc, splitAtByte_append]

/-- The text before the last place a marker is found at and the text after it. -/
def splitAtLast (marker : List Char) : List Char → Option (List Char × List Char)
  | [] => none
  | char :: rest =>
    match splitAtLast marker rest with
    | some (before, after) => some (char :: before, after)
    | none =>
      if marker.isPrefixOf (char :: rest) then some ([], (char :: rest).drop marker.length) else none

theorem splitAtLast_eq_none {marker text : List Char} (notEmpty : marker ≠ []) :
    splitAtLast marker text = none ↔ ¬marker <:+: text := by
  induction text with
  | nil => simpa [splitAtLast] using notEmpty
  | cons char rest inductionHypothesis =>
    rw [splitAtLast, List.infix_cons_iff]
    cases found : splitAtLast marker rest with
    | some parts =>
      rw [found] at inductionHypothesis
      have isIn : marker <:+: rest := by simpa using inductionHypothesis
      simp [isIn]
    | none =>
      have isNot : ¬marker <:+: rest := inductionHypothesis.mp found
      simp [isNot]

/-- A marker is taken at the last place it is found at: nowhere after its first character again. -/
theorem splitAtLast_of_last {marker before after : List Char} {first : Char} {rest : List Char}
    (isMarker : marker = first :: rest) (last : ¬marker <:+: rest ++ after) :
    splitAtLast marker (before ++ (marker ++ after)) = some (before, after) := by
  induction before with
  | nil =>
    have notLater : splitAtLast marker (rest ++ after) = none :=
      (splitAtLast_eq_none (by simp [isMarker])).mpr last
    have isPrefix : marker.isPrefixOf (first :: (rest ++ after)) = true := by
      rw [ List.isPrefixOf_iff_prefix, isMarker]
      exact List.prefix_append (first :: rest) after
    rw [List.nil_append, show marker ++ after = first :: (rest ++ after) by rw [isMarker]; rfl,
      splitAtLast, notLater]
    dsimp only
    rw [if_pos isPrefix, isMarker, ← List.cons_append, List.drop_left]
  | cons char before inductionHypothesis =>
    rw [List.cons_append, splitAtLast, inductionHypothesis]

theorem splitAtLast_append {marker text before after : List Char}
    (found : splitAtLast marker text = some (before, after)) (front : List Char) :
    splitAtLast marker (front ++ text) = some (front ++ before, after) := by
  induction front with
  | nil => exact found
  | cons char front inductionHypothesis =>
    rw [List.cons_append, splitAtLast, inductionHypothesis]
    rfl

theorem eq_of_splitAtLast {marker text before after : List Char}
    (found : splitAtLast marker text = some (before, after)) :
    text = before ++ (marker ++ after) := by
  induction text generalizing before with
  | nil => cases found
  | cons char rest inductionHypothesis =>
    rw [splitAtLast] at found
    cases isRest : splitAtLast marker rest with
    | some parts =>
      rw [isRest] at found
      obtain ⟨rfl, rfl⟩ := Prod.mk.inj (Option.some.inj found)
      rw [List.cons_append, ← inductionHypothesis isRest]
    | none =>
      rw [isRest] at found
      obtain ⟨isPrefix, same⟩ := Option.ite_none_right_eq_some.mp found
      obtain ⟨rfl, rfl⟩ := Prod.mk.inj (Option.some.inj same)
      obtain ⟨tail, isText⟩ := List.isPrefixOf_iff_prefix.mp isPrefix
      rw [← isText, List.drop_left, List.nil_append]

end Dagq.Lib
