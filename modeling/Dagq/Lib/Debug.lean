/-
This file quotes a text for a person as a program's debug output does: between double
quotes, on one line. Which characters print as they are is given.
-/

import Mathlib.Data.List.Basic

namespace Dagq.Lib

section

variable (printable : Char → Bool)

/-- A character as it stands between the quotes. -/
def escapeDebug (char : Char) : List Char :=
  if char = '\x00' then ['\\', '0']
  else if char = '\t' then ['\\', 't']
  else if char = '\r' then ['\\', 'r']
  else if char = '\n' then ['\\', 'n']
  else if char = '\\' ∨ char = '"' then ['\\', char]
  else if printable char then [char]
  else '\\' :: 'u' :: '\x7b' :: (Nat.toDigits 16 char.toNat ++ ['\x7d'])

/-- A text in quotes. -/
def debugText (text : List Char) : List Char :=
  '"' :: (text.flatMap (escapeDebug printable) ++ ['"'])

end

end Dagq.Lib
