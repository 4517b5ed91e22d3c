/-
This file models what git is asked to print of a change of files, and says how it prints it: a
unified diff of text without context lines, its names from the root with the prefixes `a/` and
`b/`. A name with a byte outside printable ASCII is quoted as a C string, its other bytes in
octal, and a line that names a file ends with a tab where there is a space in it.
-/

import Dagq.Lib.Debug
import Dagq.Secrets.Scan

namespace Dagq.Secrets

open Lib

/-! ### The arguments -/

section Arguments

variable (printable : Char → Bool) (base head : List Char)

/-- Whether a commit could be read as an option. -/
def isOption (commit : List Char) : Bool := commit.isEmpty || ['-'].isPrefixOf commit

/-- Every option that a configuration could change. -/
def diffOptions : List String :=
  ["-c", "core.quotePath=true", "diff", "--no-color", "--no-ext-diff", "--no-textconv", "--text",
    "--find-renames", "--src-prefix=a/", "--dst-prefix=b/", "--no-relative", "--unified=0",
    "--end-of-options"]

/-- The arguments of git that print a change. -/
def diffArgs : Except (List Char) (List (List Char)) :=
  match [base, head].find? isOption with
  | some commit => .error (debugText printable commit ++ " is no commit".toList)
  | none => .ok (diffOptions.map String.toList ++ [base, head, "--".toList])

/-- The arguments are those of two commits neither of which could be read as an option. -/
theorem diffArgs_eq_ok_iff (args : List (List Char)) :
    diffArgs printable base head = .ok args ↔
      (isOption base = false ∧ isOption head = false) ∧
        args = diffOptions.map String.toList ++ [base, head, "--".toList] := by
  rw [diffArgs]
  cases isBase : isOption base <;> cases isHead : isOption head <;>
    simp [isBase, isHead, eq_comm]

end Arguments

/-! ### Names -/

/-- Whether a byte of a name makes it quoted. -/
def mustQuote (byte : UInt8) : Bool :=
  decide (byte.toNat < 0x20 ∨ 0x7f ≤ byte.toNat) || charOf byte = '"' || charOf byte = '\\'

/-- An octal digit of a byte. -/
def octalDigit (byte : UInt8) (place : Nat) : UInt8 := UInt8.ofNat (48 + byte.toNat / place % 8)

/-- The letter after a backslash that stands for a byte. -/
def letterFor (byte : UInt8) : Option Char :=
  match byte.toNat with
  | 0x07 => some 'a'
  | 0x08 => some 'b'
  | 0x09 => some 't'
  | 0x0a => some 'n'
  | 0x0b => some 'v'
  | 0x0c => some 'f'
  | 0x0d => some 'r'
  | 0x22 => some '"'
  | 0x5c => some '\\'
  | _ => none

/-- A byte as a quoted name has it. -/
def escape (byte : UInt8) : List UInt8 :=
  match letterFor byte with
  | some letter => [0x5c, UInt8.ofNat letter.toNat]
  | none =>
    if mustQuote byte then [0x5c, octalDigit byte 64, octalDigit byte 8, octalDigit byte 1]
    else [byte]

/-- A name quoted as a C string. -/
def quote (name : List UInt8) : List UInt8 := ascii "\"" ++ name.flatMap escape ++ ascii "\""

/-- A name as it is printed. -/
def label (name : List UInt8) : List UInt8 := if name.any mustQuote then quote name else name

/-- A name at the end of a line that says which file its hunks are of. -/
def labelled (name : List UInt8) : List UInt8 :=
  label name ++ if ascii " " <:+: label name then ascii "\t" else []

/-! ### Changes -/

/-- A line of a file, without the end of the line. -/
abbrev Line := { bytes : List UInt8 // (10 : UInt8) ∉ bytes }

/-- A stretch of lines that changed, after lines that did not. -/
structure Hunk where
  kept : List Line
  removed : List Line
  added : List Line
  changes : removed ≠ [] ∨ added ≠ []
  /-- The last line removed, or added, is the last of its file and has no newline. -/
  removedUnended : Bool := false
  addedUnended : Bool := false
  /-- The line that names the section the hunk is in. -/
  section_ : Option Line := none

inductive Mode where
  | regular
  | executable
  | symlink
  | gitlink
  deriving DecidableEq, Repr

def Mode.text : Mode → String
  | regular => "100644"
  | executable => "100755"
  | symlink => "120000"
  | gitlink => "160000"

/-- A file before or after a change: its name, and the digits of its content's id. -/
structure Side where
  name : List UInt8
  mode : Mode
  id : List (Fin 16)

/-- The lines of a file after a change, up to the last hunk, and whether each was added. -/
def newLines (hunks : List Hunk) : List (Line × Bool) :=
  hunks.flatMap fun hunk => hunk.kept.map (·, false) ++ hunk.added.map (·, true)

/-- What happened to a file; none before it for a new file, none after it for one deleted. -/
structure FileChange where
  before : Option Side
  after : Option Side
  similarity : Nat := 100
  hunks : List Hunk
  isFile : before.isSome ∨ after.isSome
  gone : after = none → ∀ hunk ∈ hunks, hunk.added = []
  fits : (newLines hunks).length < u64Max

/-! ### The printed change -/

def number (n : Nat) : List UInt8 := bytesOf (Nat.toDigits 10 n)

/-- The first line of a side of a hunk, which is the one before where it has none, and its length
where this is not 1. -/
def range (lines first : Nat) : List UInt8 :=
  number (if lines = 0 then first - 1 else first) ++
    if lines = 1 then [] else ascii "," ++ number lines

def unended (isUnended : Bool) : List (List UInt8) :=
  if isUnended then [ascii "\\ No newline at end of file"] else []

namespace Hunk

/-- The header of a hunk whose sides start at these lines. -/
def header (hunk : Hunk) (first firstNew : Nat) : List UInt8 :=
  ascii "@@ -" ++ range hunk.removed.length first ++ ascii " +" ++
    range hunk.added.length firstNew ++ ascii " @@" ++
    hunk.section_.elim [] fun line => ascii " " ++ line.1

/-- The lines of a hunk under its header. -/
def content (hunk : Hunk) : List (List UInt8) :=
  hunk.removed.map (fun line => ascii "-" ++ line.1) ++ unended hunk.removedUnended ++
    (hunk.added.map (fun line => ascii "+" ++ line.1) ++ unended hunk.addedUnended)

end Hunk

/-- The hunks of a file after so many of its lines. -/
def hunkLines (past pastNew : Nat) : List Hunk → List (List UInt8)
  | [] => []
  | hunk :: rest =>
    hunk.header (past + hunk.kept.length + 1) (pastNew + hunk.kept.length + 1) :: hunk.content ++
      hunkLines (past + hunk.kept.length + hunk.removed.length)
        (pastNew + hunk.kept.length + hunk.added.length) rest

def Side.hex (side : Side) : List UInt8 := bytesOf (side.id.map fun digit => digit.val.digitChar)

namespace FileChange

/-- The name that a side's prefix is put before: the other side's where the file is not on it. -/
def nameOf (side other : Option Side) : List UInt8 :=
  (side.or other).elim [] (·.name)

/-- The modes of a file and its name where these changed. -/
def extended (file : FileChange) : List (List UInt8) :=
  match file.before, file.after with
  | some before, some after =>
    (if before.mode = after.mode then []
      else [ascii "old mode " ++ ascii before.mode.text, ascii "new mode " ++ ascii after.mode.text]) ++
    (if before.name = after.name then []
      else
        [ascii "similarity index " ++ number file.similarity ++ ascii "%",
          ascii "rename from " ++ label before.name, ascii "rename to " ++ label after.name]) ++
    (if before.id = after.id then []
      else
        [ascii "index " ++ before.hex ++ ascii ".." ++ after.hex ++
          if before.mode = after.mode then ascii " " ++ ascii after.mode.text else []])
  | none, some after =>
    [ascii "new file mode " ++ ascii after.mode.text,
      ascii "index 0000000.." ++ after.hex]
  | some before, none =>
    [ascii "deleted file mode " ++ ascii before.mode.text,
      ascii "index " ++ before.hex ++ ascii "..0000000"]
  | none, none => []

/-- The name of a side in front of its hunks. -/
def sideLabel (lead : String) (side : Option Side) : List UInt8 :=
  side.elim (ascii "/dev/null") fun side => labelled (ascii lead ++ side.name)

/-- The lines that are printed of a file. -/
def lines (file : FileChange) : List (List UInt8) :=
  (ascii "diff --git " ++ label (ascii "a/" ++ nameOf file.before file.after) ++ ascii " " ++
      label (ascii "b/" ++ nameOf file.after file.before)) ::
    file.extended ++
    if file.hunks.isEmpty then []
    else
      [ascii "--- " ++ sideLabel "a/" file.before, ascii "+++ " ++ sideLabel "b/" file.after] ++
        hunkLines 0 0 file.hunks

end FileChange

/-- What git prints of a change. -/
def diff (files : List FileChange) : List UInt8 :=
  (files.flatMap FileChange.lines).flatMap fun line => line ++ [10]

end Dagq.Secrets
