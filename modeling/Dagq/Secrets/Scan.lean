/-
This file models how the added lines of a diff are read: a line tells whether a file, a hunk or
a content line comes, the name of a file is decoded from its quoted form, and the lines of a
hunk are counted from the number its header says.
-/

import Dagq.Secrets.LineKind

namespace Dagq.Secrets

open Lib

/-- Names are compared character by character. -/
scoped instance lawfulNames : LawfulBEq (List Char) := inferInstance

/-- An added line that looks like a credential. -/
structure Finding where
  file : List Char
  line : Nat
  kind : Kind
  deriving DecidableEq, Repr

/-! ### Names -/

def isOctal (byte : UInt8) : Bool := decide (48 ≤ byte.toNat ∧ byte.toNat < 56)

/-- The byte of three octal digits. -/
def octalByte (first second third : UInt8) : Option UInt8 :=
  let number := (first.toNat - 48) * 64 + (second.toNat - 48) * 8 + (third.toNat - 48)
  if isOctal second && isOctal third && decide (number < 256) then some (UInt8.ofNat number)
  else none

/-- The byte that a letter after a backslash stands for. -/
def unescaped (letter : UInt8) : UInt8 :=
  match charOf letter with
  | 'a' => 0x07
  | 'b' => 0x08
  | 'f' => 0x0c
  | 'n' => 0x0a
  | 'r' => 0x0d
  | 't' => 0x09
  | 'v' => 0x0b
  | _ => letter

/-- Bytes with their escapes decoded. -/
def unescape : List UInt8 → Option (List UInt8)
  | [] => some []
  | byte :: rest =>
    if charOf byte ≠ '\\' then (unescape rest).map (byte :: ·)
    else
      match rest with
      | [] => none
      | letter :: rest =>
        if isOctal letter then
          match rest with
          | second :: third :: rest =>
            (octalByte letter second third).bind fun byte => (unescape rest).map (byte :: ·)
          | _ => none
        else (unescape rest).map (unescaped letter :: ·)

/-- The bytes of a name in its quoted form. -/
def unquote (quoted : List Char) : Option (List UInt8) := do
  let inner ← quoted.dropPrefix? ['"']
  let inner ← inner.dropSuffix? ['"']
  unescape (bytesOf inner)

/-- The name that a header has and whether it decodes exactly. -/
def decodeName (header : List Char) : List Char × Bool :=
  if header.head? = some '"' then
    match unquote header with
    | some bytes =>
      match textOf? bytes with
      | some name => (name, true)
      | none => (lossy bytes, false)
    | none => (header, false)
  else (header, '\uFFFD' ∉ header)

/-- The file that a header names and whether its name decoded exactly; none for no file. -/
def newName (header : List Char) : Option (List Char × Bool) :=
  let header := (header.dropSuffix? ['\t']).getD header
  if header = "/dev/null".toList then none
  else
    let (name, isExact) := decodeName header
    some ((name.dropPrefix? "b/".toList).getD name, isExact)

/-! ### Lines -/

/-- The largest number of 64 bits. -/
def u64Max : Nat := 18446744073709551615

/-- A number of 64 bits as it is parsed. -/
def parseU64 (text : List Char) : Option Nat :=
  let digits := (text.dropPrefix? ['+']).getD text
  let number := Nat.ofDigitChars 10 digits 0
  if digits ≠ [] ∧ digits.all Char.isDigit ∧ number ≤ u64Max then some number else none

/-- The number of the first new line of a hunk. -/
def firstNewLine (header : List Char) : Nat :=
  let range := (header.splitOn ' ').findSome? (·.dropPrefix? ['+'])
  ((range.bind fun range => (range.splitOn ',').head?).bind parseU64).getD 0

/-- What the loop over the lines holds. -/
structure Scan where
  found : List Finding := []
  file : Option (List Char) := none
  inHunk : Bool := false
  line : Nat := 0

section Entropy

variable (entropic : List UInt8 → Bool) (only : List (List Char))

/-- Read one line of a diff. -/
def Scan.read (scan : Scan) (text : List Char) : Scan :=
  if "diff --git ".toList.isPrefixOf text then { scan with inHunk := false, file := none }
  else
    match if scan.inHunk then none else text.dropPrefix? "+++ ".toList with
    | some name =>
      let isRead (named : List Char × Bool) : Bool :=
        only.isEmpty || !named.2 || decide (named.1 ∈ only)
      { scan with file := ((newName name).filter isRead).map Prod.fst }
    | none =>
      match text.dropPrefix? "@@ ".toList with
      | some header => { scan with inHunk := true, line := firstNewLine header }
      | none =>
        match scan.file.filter fun _ => scan.inHunk with
        | none => scan
        | some name =>
          match text.dropPrefix? ['+'] with
          | some added =>
            { scan with
              found := scan.found ++ ((lineKind entropic added).map (⟨name, scan.line, ·⟩)).toList
              line := scan.line + 1 }
          | none =>
            if [' '].isPrefixOf text then { scan with line := scan.line + 1 } else scan

/-- The added lines of a diff that look like a credential, of the files `only` names and of those
whose name does not decode. -/
def scan (diff : List Char) : List Finding :=
  ((diff.splitOn '\n').foldl (Scan.read entropic only) {}).found

end Entropy

end Dagq.Secrets
