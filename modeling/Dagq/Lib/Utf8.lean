/-
This file says what the bytes of a character look like in UTF-8: a first byte that
tells how many there are, and bytes that go on it and never begin one.
-/

import Mathlib.Tactic

namespace Dagq.Lib

/-- How many ones a byte begins with. -/
def leadingOnes (byte : UInt8) : Nat :=
  if byte.toNat < 0x80 then 0
  else if byte.toNat < 0xc0 then 1
  else if byte.toNat < 0xe0 then 2
  else if byte.toNat < 0xf0 then 3
  else if byte.toNat < 0xf8 then 4
  else if byte.toNat < 0xfc then 5
  else if byte.toNat < 0xfe then 6
  else if byte.toNat < 0xff then 7
  else 8

/-- The length of the character a byte begins, as the byte says it. -/
def saidWidth (byte : UInt8) : Nat :=
  match leadingOnes byte with
  | 0 => 1
  | ones => ones

/-- A byte goes on a character. -/
def GoesOn (byte : UInt8) : Prop := 0x80 ≤ byte.toNat ∧ byte.toNat < 0xc0

theorem GoesOn.saidWidth {byte : UInt8} (goesOn : GoesOn byte) : saidWidth byte = 1 := by
  unfold Lib.saidWidth leadingOnes
  rw [if_neg (Nat.not_lt.mpr goesOn.1), if_pos goesOn.2]
  rfl

section

variable {byte : UInt8}

theorem saidWidth_one (below : byte.toNat < 0x80) : saidWidth byte = 1 := by
  unfold saidWidth leadingOnes
  rw [if_pos below]
  rfl

theorem saidWidth_two (above : 0xc0 ≤ byte.toNat) (below : byte.toNat < 0xe0) :
    saidWidth byte = 2 := by
  unfold saidWidth leadingOnes
  rw [if_neg (by omega), if_neg (by omega), if_pos below]
  rfl

theorem saidWidth_three (above : 0xe0 ≤ byte.toNat) (below : byte.toNat < 0xf0) :
    saidWidth byte = 3 := by
  unfold saidWidth leadingOnes
  rw [if_neg (by omega), if_neg (by omega), if_neg (by omega), if_pos below]
  rfl

theorem saidWidth_four (above : 0xf0 ≤ byte.toNat) (below : byte.toNat < 0xf8) :
    saidWidth byte = 4 := by
  unfold saidWidth leadingOnes
  rw [if_neg (by omega), if_neg (by omega), if_neg (by omega), if_neg (by omega), if_pos below]
  rfl

/-- A byte of the bits of `n` below `size` after the mark `mark`. -/
theorem toNat_marked {size mark : Nat} (n : Nat) (positive : 0 < size)
    (fits : size + mark ≤ 0x100) : (UInt8.ofNat (n % size + mark)).toNat = n % size + mark := by
  rw [UInt8.toNat_ofNat']
  have := Nat.mod_lt n positive
  exact Nat.mod_eq_of_lt (by omega)

theorem goesOn_marked (n : Nat) : GoesOn (UInt8.ofNat (n % 0x40 + 0x80)) := by
  have below := Nat.mod_lt n (show 0 < 0x40 by decide)
  unfold GoesOn
  rw [toNat_marked n (by decide) (by decide)]
  omega

/-- A first byte of more than one begins with the mark `mark`. -/
theorem first_marked {size mark : Nat} (n : Nat) (positive : 0 < size)
    (fits : size + mark ≤ 0x100) (high : 0xc0 ≤ mark) :
    ¬ GoesOn (UInt8.ofNat (n % size + mark)) ∧
      ¬ (UInt8.ofNat (n % size + mark)).toNat < 0x80 := by
  unfold GoesOn
  rw [toNat_marked n positive fits]
  omega

end

/-- The bytes of a character: the first says how many there are, the others go on it. -/
theorem utf8EncodeChar_spec (c : Char) :
    ∃ first rest, String.utf8EncodeChar c = first :: rest ∧ ¬ GoesOn first ∧
      saidWidth first = rest.length + 1 ∧ (∀ byte ∈ rest, GoesOn byte) ∧
      (first.toNat < 0x80 → first.toNat = c.toNat ∧ rest = []) := by
  unfold String.utf8EncodeChar
  show ∃ first rest, (if c.toNat ≤ 0x7f then _ else _) = _ ∧ _
  split
  next one =>
    have own : (UInt8.ofNat c.toNat).toNat = c.toNat := by
      rw [UInt8.toNat_ofNat']
      exact Nat.mod_eq_of_lt (by omega)
    have below : (UInt8.ofNat c.toNat).toNat < 0x80 := by omega
    exact ⟨_, [], rfl, fun goesOn => absurd goesOn.1 (Nat.not_le.mpr below),
      saidWidth_one below, List.forall_mem_nil _, fun _ => ⟨own, rfl⟩⟩
  next =>
    split
    next =>
      have marked := @toNat_marked 0x20 0xc0 (c.toNat / 64) (by decide) (by decide)
      have first := @first_marked 0x20 0xc0 (c.toNat / 64) (by decide)
        (by decide) (by decide)
      refine ⟨_, [_], rfl, first.1, saidWidth_two ?_ ?_,
        List.forall_mem_singleton.mpr (goesOn_marked _), fun small => absurd small first.2⟩
      · exact marked.symm ▸ Nat.le_add_left _ _
      · have := Nat.mod_lt (c.toNat / 64) (show 0 < 0x20 by decide)
        exact marked.symm ▸ (by omega)
    next =>
      split
      next =>
        have marked := @toNat_marked 0x10 0xe0 (c.toNat / 4096) (by decide) (by decide)
        have first := @first_marked 0x10 0xe0 (c.toNat / 4096) (by decide)
          (by decide) (by decide)
        refine ⟨_, [_, _], rfl, first.1, saidWidth_three ?_ ?_, ?_,
          fun small => absurd small first.2⟩
        · exact marked.symm ▸ Nat.le_add_left _ _
        · have := Nat.mod_lt (c.toNat / 4096) (show 0 < 0x10 by decide)
          exact marked.symm ▸ (by omega)
        · exact List.forall_mem_cons.mpr
            ⟨goesOn_marked _, List.forall_mem_singleton.mpr (goesOn_marked _)⟩
      next =>
        have marked := @toNat_marked 0x08 0xf0 (c.toNat / 262144) (by decide) (by decide)
        have first := @first_marked 0x08 0xf0 (c.toNat / 262144) (by decide)
          (by decide) (by decide)
        refine ⟨_, [_, _, _], rfl, first.1, saidWidth_four ?_ ?_, ?_,
          fun small => absurd small first.2⟩
        · exact marked.symm ▸ Nat.le_add_left _ _
        · have := Nat.mod_lt (c.toNat / 262144) (show 0 < 0x08 by decide)
          exact marked.symm ▸ (by omega)
        · exact List.forall_mem_cons.mpr ⟨goesOn_marked _, List.forall_mem_cons.mpr
            ⟨goesOn_marked _, List.forall_mem_singleton.mpr (goesOn_marked _)⟩⟩

/-- The bytes of two characters that begin texts with the same bytes are of the same one. -/
theorem utf8EncodeChar_append_inj {c d : Char} {rest other : List UInt8}
    (same : String.utf8EncodeChar c ++ rest = String.utf8EncodeChar d ++ other) :
    c = d ∧ rest = other := by
  have decoded : some c = some d := by
    rw [← @ByteArray.utf8DecodeChar?_utf8EncodeChar_append rest.toByteArray c,
      ← @ByteArray.utf8DecodeChar?_utf8EncodeChar_append other.toByteArray d,
      ← List.toByteArray_append, ← List.toByteArray_append, same]
  obtain rfl := Option.some.inj decoded
  exact ⟨rfl, List.append_cancel_left same⟩

end Dagq.Lib
