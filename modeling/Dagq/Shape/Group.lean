/-
This file models how the lexer of a command copies what it does not read: a
substitution with all its nesting, quotes, comments and heredocs, a text between
backticks, the body of a heredoc, and an escape of an ANSI-C quoted text. Every
reader takes the characters of the whole text and an index, and says the index it
came to. A loop of the source is a `Lib.loop` with one round per character at least,
so the length of the text is fuel enough.
-/

import Dagq.Lib.Loop
import Dagq.Lib.Text

namespace Dagq.Shape

open Lib

/-- What a reader copied, the index it is at, and whether it came to its close. -/
structure Copied where
  text : String
  i : Nat
  closed : Bool
  deriving DecidableEq, Repr

/-- The characters from `i` on, up to the first that `stop` holds of. -/
def run (chars : List Char) (i : Nat) (stop : Char → Bool) : List Char :=
  (chars.drop i).takeWhile fun char => !stop char

/-! ### Heredocs -/

/-- A heredoc whose delimiter was read: whether its lines' leading tabs are stripped, and
whether any of its delimiter was quoted. -/
structure Heredoc where
  delimiter : String
  strip : Bool
  quoted : Bool
  deriving DecidableEq, Repr

/-- A line of a heredoc's body so far. -/
structure BodyLine where
  line : List Char
  first : Bool
  i : Nat
  read : Bool

/-- One physical line more: a line of an unquoted heredoc that ends with an odd number of `\`
goes on at the next. -/
def bodyLineStep (chars : List Char) (heredoc : Heredoc) (body : BodyLine) : Option BodyLine :=
  if body.read then none
  else
    let text := run chars body.i (· == '\n')
    let end_ := body.i + text.length
    let physical :=
      if heredoc.strip && body.first then text.dropWhile (· == '\t') else text
    let escapes := (physical.reverse.takeWhile (· == '\\')).length
    let i := min (end_ + 1) chars.length
    if !heredoc.quoted && escapes % 2 == 1 && decide (end_ < chars.length) then
      some ⟨body.line ++ physical.dropLast, false, i, false⟩
    else some ⟨body.line ++ physical, false, i, true⟩

/-- One line more of a heredoc's body, unless its delimiter was read. -/
def heredocStep (chars : List Char) (heredoc : Heredoc) (state : Nat × Bool) :
    Option (Nat × Bool) :=
  if state.2 || decide (chars.length ≤ state.1) then none
  else
    let body := loop (bodyLineStep chars heredoc) (chars.length + 1) ⟨[], true, state.1, false⟩
    some (body.i, String.ofList body.line == heredoc.delimiter)

/-- The index after the body of `heredoc` that starts at `i`: after the line that is its
delimiter, or the end. -/
def heredocEnd (chars : List Char) (i : Nat) (heredoc : Heredoc) : Nat :=
  (loop (heredocStep chars heredoc) chars.length (i, false)).1

/-! ### Backticks -/

def backticksStep (chars : List Char) (copied : Copied) : Option Copied :=
  if copied.closed then none
  else
    match chars[copied.i]? with
    | none => none
    | some c =>
      let text := copied.text.push c
      let i := copied.i + 1
      if c = '\\' then
        match chars[i]? with
        | some escaped => some ⟨text.push escaped, i + 1, false⟩
        | none => some ⟨text, i, false⟩
      else some ⟨text, i, c == '`'⟩

/-- Copy the text between backticks at `i`. -/
def copyBackticks (chars : List Char) (i : Nat) (text : String) : Copied :=
  loop (backticksStep chars) chars.length ⟨text.push '`', i + 1, false⟩

/-! ### Groups -/

/-- A group's bounds, and whether it is an arithmetic expansion, which has shifts and no
heredocs. -/
structure GroupKind where
  open_ : Char
  close : Char
  arithmetic : Bool

/-- The kind of the group whose `$` is at `i`. -/
def groupKind (chars : List Char) (i : Nat) : GroupKind :=
  if chars[i + 1]? = some '{' then ⟨'{', '}', false⟩
  else if chars[i + 1]? = some '[' then ⟨'[', ']', true⟩
  else ⟨'(', ')', chars[i + 2]? == some '('⟩

/-- Where the copy of a group is. -/
structure GroupScan where
  text : String
  i : Nat
  depth : Nat := 0
  quote : Option Char := none
  heredocs : List Heredoc := []

/-- Copy the next character too, when there is one. -/
def GroupScan.copyNext (scan : GroupScan) (chars : List Char) : GroupScan :=
  match chars[scan.i]? with
  | some next => { scan with text := scan.text.push next, i := scan.i + 1 }
  | none => scan

/-- Copy the characters from here on. -/
def GroupScan.copyAll (scan : GroupScan) (copied : List Char) : GroupScan :=
  { scan with text := scan.text ++ String.ofList copied, i := scan.i + copied.length }

/-- A heredoc's delimiter so far. -/
structure DelimiterScan where
  text : String
  i : Nat
  delimiter : String := ""
  read : Bool := false
  quoted : Bool := false

/-- One character more of a delimiter, a quoted text of it as a whole. -/
def delimiterStep (chars : List Char) (scan : DelimiterScan) : Option DelimiterScan :=
  match chars[scan.i]? with
  | none => none
  | some c =>
    if isWhiteSpace c || c ∈ [';', ')', '(', '|', '&', '<', '>'] then none
    else
      let text := scan.text.push c
      let i := scan.i + 1
      let quoted := scan.quoted || c == '\'' || c == '"' || c == '\\'
      if c = '\'' ∨ c = '"' then
        let inside := run chars i (· == c)
        let copied := (chars.drop i).take (inside.length + 1)
        some ⟨text ++ String.ofList copied, i + copied.length,
          scan.delimiter ++ String.ofList inside, true, quoted⟩
      else if c = '\\' then
        match chars[i]? with
        | some escaped =>
          some ⟨text.push escaped, i + 1, scan.delimiter.push escaped, true, quoted⟩
        | none => some ⟨text, i, scan.delimiter, true, quoted⟩
      else some ⟨text, i, scan.delimiter.push c, true, quoted⟩

/-- Read a heredoc's operator from its second `<` on, and its delimiter. An empty quoted
delimiter is one. -/
def GroupScan.readHeredoc (scan : GroupScan) (chars : List Char) : GroupScan :=
  let scan := { scan with text := scan.text.push '<', i := scan.i + 1 }
  let strip := chars[scan.i]? == some '-'
  let scan := if strip then { scan with text := scan.text.push '-', i := scan.i + 1 } else scan
  let scan := scan.copyAll (run chars scan.i fun char => !(char == ' ' || char == '\t'))
  let delimiter := loop (delimiterStep chars) chars.length { text := scan.text, i := scan.i }
  { scan with
    text := delimiter.text
    i := delimiter.i
    heredocs :=
      if delimiter.read then scan.heredocs ++ [⟨delimiter.delimiter, strip, delimiter.quoted⟩]
      else scan.heredocs }

/-- Copy the bodies of the heredocs whose delimiters were read. -/
def GroupScan.copyHeredocs (scan : GroupScan) (chars : List Char) : GroupScan :=
  scan.heredocs.foldl
    (fun scan heredoc =>
      scan.copyAll ((chars.drop scan.i).take (heredocEnd chars scan.i heredoc - scan.i)))
    { scan with heredocs := [] }

/-- What one character of a group comes to: the copy goes on, a substitution inside is copied
as a group of its own, or the group is closed. -/
inductive GroupMove where
  | goesOn (scan : GroupScan)
  | nests
  | closes (copied : Copied)

/-- What the character `c`, copied into `scan`, comes to outside any heredoc. -/
def GroupScan.readQuote (scan : GroupScan) (chars : List Char) (kind : GroupKind) (c : Char) :
    GroupMove :=
  match scan.quote with
  | some quote =>
    -- An ANSI-C quoted text is kept as the quote `$`, where an escaped quote does not close.
    if quote = '$' then
      if c = '\\' then .goesOn (scan.copyNext chars)
      else if c = '\'' then .goesOn { scan with quote := none }
      else .goesOn scan
    else if c = quote then .goesOn { scan with quote := none }
    else if quote = '"' ∧ c = '\\' then .goesOn (scan.copyNext chars)
    else .goesOn scan
  | none =>
    if c = '\\' then .goesOn (scan.copyNext chars)
    else if c = '$' ∧ chars[scan.i]? = some '$' then
      .goesOn { scan with text := scan.text.push '$', i := scan.i + 1 }
    else if c = '$' ∧ chars[scan.i]? = some '\'' then
      .goesOn { scan with text := scan.text.push '\'', i := scan.i + 1, quote := some '$' }
    else if c = '\'' ∨ c = '"' then .goesOn { scan with quote := some c }
    else if c = '#' ∧ kind.open_ = '(' ∧ 2 ≤ scan.i ∧
        (chars[scan.i - 2]?).any (· ∈ [' ', '\t', '\n', ';', '&', '|', '(', ')']) then
      -- A comment, to its line's end, in a group of commands.
      .goesOn (scan.copyAll (run chars scan.i (· == '\n')))
    else if c = kind.open_ then .goesOn { scan with depth := scan.depth + 1 }
    else if c = kind.close then
      if scan.depth - 1 = 0 then .closes ⟨scan.text, scan.i, true⟩
      else .goesOn { scan with depth := scan.depth - 1 }
    else .goesOn scan

/-- What the character `c`, copied into `scan`, comes to. -/
def GroupScan.read (scan : GroupScan) (chars : List Char) (kind : GroupKind) (c : Char) :
    GroupMove :=
  let next := chars[scan.i]?
  if scan.quote = none ∧ c = '<' ∧ next = some '<' ∧ kind.arithmetic then
    .goesOn { scan with text := scan.text.push '<', i := scan.i + 1 }
  else if scan.quote = none ∧ c = '<' ∧ next = some '<' ∧
      (chars[scan.i + 1]?).any (· ∈ ['<', '=']) then
    -- A here-string and a shift's assignment are no heredoc.
    .goesOn (({ scan with text := scan.text.push '<', i := scan.i + 1 }).copyNext chars)
  else if scan.quote = none ∧ c = '<' ∧ next = some '<' then .goesOn (scan.readHeredoc chars)
  else if scan.quote = none ∧ c = '\n' then .goesOn (scan.copyHeredocs chars)
  else if (scan.quote = none ∨ scan.quote = some '"') ∧
      (c = '`' ∨ (c = '$' ∧ next.any (· ∈ ['(', '{', '[']))) then .nests
  else scan.readQuote chars kind c

/-- The copy of a group from `scan` on. A group inside takes its fuel from this one's: it
begins past where this one stands. -/
def groupLoop (chars : List Char) : Nat → GroupKind → GroupScan → Copied
  | 0, _, scan => ⟨scan.text, scan.i, false⟩
  | fuel + 1, kind, scan =>
    match chars[scan.i]? with
    | none => ⟨scan.text, scan.i, false⟩
    | some c =>
      match ({ scan with text := scan.text.push c, i := scan.i + 1 }).read chars kind c with
      | .goesOn next => groupLoop chars fuel kind next
      | .closes copied => copied
      | .nests =>
        -- The character copied is taken back: the group inside copies it itself.
        let copied :=
          if c = '`' then copyBackticks chars scan.i scan.text
          else groupLoop chars fuel (groupKind chars scan.i)
            { text := scan.text.push '$', i := scan.i + 1 }
        if copied.closed then
          groupLoop chars fuel kind { scan with text := copied.text, i := copied.i }
        else copied

/-- Copy the substitution whose `$` is at `i`. -/
def copyGroup (chars : List Char) (i : Nat) (text : String) : Copied :=
  groupLoop chars chars.length (groupKind chars i) { text := text.push '$', i := i + 1 }

/-- Copy the parentheses whose `(` is at `open_`, as `copyGroup` copies a substitution. -/
def copyParens (chars : List Char) (open_ : Nat) (text : String) : Copied :=
  let copied := copyGroup ('$' :: chars.drop open_) 0 text
  { copied with i := open_ + copied.i - 1 }

/-! ### Escapes of an ANSI-C quoted text -/

/-- The value of a digit, of a hexadecimal one too. -/
def digitValue (c : Char) : Option Nat :=
  if c.isDigit then some (c.toNat - '0'.toNat)
  else if 'a' ≤ c ∧ c ≤ 'f' then some (c.toNat - 'a'.toNat + 10)
  else if 'A' ≤ c ∧ c ≤ 'F' then some (c.toNat - 'A'.toNat + 10)
  else none

/-- Up to `max` digits of `radix` from `i`, as a character, and the index after them. -/
def number (chars : List Char) (i radix max : Nat) : Nat × Option Char :=
  let digits := ((chars.drop i).take max).takeWhile fun c => (digitValue c).any (· < radix)
  let code := digits.foldl (fun code c => code * radix + (digitValue c).getD 0) 0
  (i + digits.length,
    if digits = [] then none else if code.isValidChar then some (Char.ofNat code) else none)

/-- What the escape of the character `c` before `i` decodes to, and the index after it. -/
def decodeEscape (chars : List Char) (i : Nat) (c : Char) : Nat × Option Char :=
  if c = 'a' then (i, some '\x07')
  else if c = 'b' then (i, some '\x08')
  else if c = 'e' ∨ c = 'E' then (i, some '\x1b')
  else if c = 'f' then (i, some '\x0c')
  else if c = 'n' then (i, some '\n')
  else if c = 'r' then (i, some '\r')
  else if c = 't' then (i, some '\t')
  else if c = 'v' then (i, some '\x0b')
  else if c = '\\' ∨ c = '\'' ∨ c = '"' ∨ c = '?' then (i, some c)
  else if c = 'x' then number chars i 16 2
  else if c = 'u' then number chars i 16 4
  else if c = 'U' then number chars i 16 8
  else if '0' ≤ c ∧ c ≤ '7' then number chars (i - 1) 8 3
  else if c = 'c' then
    match chars[i]? with
    | some control =>
      if control = '\'' then (i, none) else (i + 1, some (Char.ofNat (control.toNat % 32)))
    | none => (i, none)
  else (i, none)

/-- Decode the escape whose `\` is before `i`; the index after it. An escape the shell does
not know keeps its `\`. -/
def ansiEscape (chars : List Char) (i : Nat) (text : String) : String × Nat :=
  match chars[i]? with
  | none => (text.push '\\', i)
  | some c =>
    match decodeEscape chars (i + 1) c with
    | (i, some decoded) => (text.push decoded, i)
    | (i, none) => ((text.push '\\').push c, i)

end Dagq.Shape
