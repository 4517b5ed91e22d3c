/-
This file models the lexer of a command: how a command is split at the shell's
operators into the words of its parts. The lexer goes over the characters once, and
what it keeps between two of them is its state: the parts and words read, the word
being read, what the next word is after a redirection, the heredocs to skip, the
subshells and `case`s open, and whether a conditional expression is. It also says
whether the command was not read whole.
-/

import Dagq.Shape.Group

namespace Dagq.Shape

open Lib

/-! ### Words -/

/-- A word of a command, its quotes taken out: whether any of it was quoted, whether a quote
began before its first `=`, and whether it is the first word of a part that runs no program. -/
structure Word where
  text : String := ""
  quoted : Bool := false
  nameQuoted : Bool := false
  pattern : Bool := false
  deriving DecidableEq, Repr

namespace Word

/-- A quote or an escape begins here. -/
def quote (word : Word) : Word :=
  { word with quoted := true, nameQuoted := word.nameQuoted || !word.text.toList.contains '=' }

def push (word : Word) (c : Char) : Word := { word with text := word.text.push c }

/-- Whether the word is `text`, unquoted. -/
def plain (word : Word) (text : String) : Bool := !word.quoted && word.text == text

end Word

/-- What the next word is after a redirection: a file, or a heredoc's delimiter, whose lines'
leading tabs may be stripped. -/
inductive Target where
  | file
  | heredoc (strip : Bool)
  deriving DecidableEq, Repr

/-- Where a `case` stands: at its subject, read or not, at a pattern, or in an arm's commands. -/
inductive CaseAt where
  | head (subject : Bool)
  | pattern
  | body
  deriving DecidableEq, Repr

/-- A `case` open, and the subshells open at its start. -/
structure Case where
  at_ : CaseAt
  depth : Nat
  deriving DecidableEq, Repr

/-- The shell's reserved words a part may start with. -/
def reserved : List String :=
  ["if", "then", "else", "elif", "fi", "do", "done", "while", "until", "for", "case", "esac",
    "select", "function", "time", "!", "\x7b", "\x7d"]

/-- The lexer's state. The `case`s open stand the innermost first. -/
structure Lexer where
  parts : List (List Word) := []
  words : List Word := []
  word : Option Word := none
  target : Option Target := none
  heredocs : List Heredoc := []
  depth : Nat := 0
  cases : List Case := []
  pattern : Bool := false
  cond : Bool := false
  broken : Bool := false
  deriving DecidableEq, Repr

namespace Lexer

/-! ### Where words and parts end -/

/-- Where the innermost `case` open stands. -/
def caseAt (lexer : Lexer) : Option CaseAt := lexer.cases.head?.map Case.at_

def setCase (lexer : Lexer) (at_ : CaseAt) : Lexer :=
  { lexer with cases := lexer.cases.modifyHead fun case_ => { case_ with at_ } }

/-- The subshells open at the innermost `case`'s start. -/
def caseDepth (lexer : Lexer) : Nat := (lexer.cases.head?.map Case.depth).getD 0

/-- Whether a command may begin after the words of the part so far: after reserved words alone,
or after a function's definition and them. -/
def commandPosition (lexer : Lexer) : Bool :=
  let before :=
    match lexer.words with
    | function :: name :: rest =>
      if function.plain "function" then rest else function :: name :: rest
    | words => words
  !lexer.pattern &&
    before.all fun word =>
      !word.quoted && reserved.contains word.text &&
        !(["for", "select", "case", "function"].contains word.text)

def pushWord (lexer : Lexer) (word : Word) : Lexer :=
  { lexer with words := lexer.words ++ [word] }

/-- Keep a word that no redirection takes. -/
def keepWord (lexer : Lexer) (word : Word) : Lexer :=
  if lexer.cond then ({ lexer with cond := !word.plain "]]" }).pushWord word
  else
    let commandPosition := lexer.commandPosition
    let lexer :=
      if word.plain "[[" && commandPosition && lexer.caseAt != some .pattern then
        { lexer with cond := true }
      else lexer
    match lexer.caseAt with
    | some (.head false) => (lexer.setCase (.head true)).pushWord word
    | some (.head true) =>
      -- The head ends at its `in`: the patterns follow.
      if word.plain "in" then
        let lexer := lexer.pushWord word
        ({ lexer with parts := lexer.parts ++ [lexer.words], words := [] }).setCase .pattern
      else lexer.pushWord word
    | some .pattern => lexer.pushWord word
    | _ =>
      if word.plain "case" && commandPosition then
        ({ lexer with cases := ⟨.head false, lexer.depth⟩ :: lexer.cases }).pushWord word
      else lexer.pushWord word

def endWord (lexer : Lexer) : Lexer :=
  match lexer.word with
  | none => lexer
  | some word =>
    let ended := { lexer with word := none, target := none }
    match lexer.target with
    | some (.heredoc strip) =>
      { ended with heredocs := ended.heredocs ++ [⟨word.text, strip, word.quoted⟩] }
    | some .file => ended
    | none => ended.keepWord word

/-- Whether the words of the part read so far are an `esac` alone, past a `case`'s head and in
no subshell its arm opened: that `case` ends here. -/
def closesCase (lexer : Lexer) : Bool × Lexer :=
  let lexer := lexer.endWord
  let past :=
    match lexer.cases.head? with
    | some ⟨.head _, _⟩ => false
    | some ⟨_, depth⟩ => depth == lexer.depth
    | none => false
  let esac :=
    match lexer.words with
    | [word] => word.plain "esac"
    | _ => false
  if past && esac then (true, { lexer with cases := lexer.cases.tail }) else (false, lexer)

def endPart (lexer : Lexer) : Lexer :=
  let lexer := lexer.endWord
  let pattern := lexer.pattern || lexer.caseAt == some .pattern
  let lexer := { lexer with target := none, cond := false, pattern := false }
  match lexer.words with
  | [] => lexer
  | first :: rest =>
    { lexer with parts := lexer.parts ++ [{ first with pattern } :: rest], words := [] }

/-! ### What is read as a whole -/

/-- The word being read, or a new one, changed by `change`. -/
def onWord (lexer : Lexer) (change : Word → Word) : Lexer :=
  { lexer with word := some (change (lexer.word.getD {})) }

def push (lexer : Lexer) (c : Char) : Lexer := lexer.onWord (·.push c)

/-- Whether `c` is a digit or a `-`, of a descriptor. -/
def descriptorChar (c : Char) : Bool := c.isDigit || c == '-'

/-- Read the redirection operator at `i`; the index after it. A target that follows is the next
word, which is not kept. -/
def redirect (lexer : Lexer) (chars : List Char) (i : Nat) : Lexer × Nat :=
  let first := chars[i]?
  let i := i + 1
  if first = some '<' ∧ chars[i]? = some '<' then
    let i := i + 1
    -- A here-string: its word is dropped.
    if chars[i]? = some '<' then ({ lexer with target := some .file }, i + 1)
    else
      let strip := chars[i]? == some '-'
      ({ lexer with target := some (.heredoc strip) }, if strip then i + 1 else i)
  else
    let i :=
      if chars[i]? = some '>' ∨ chars[i]? = some '|' ∨ (first = some '<' ∧ chars[i]? = some '>') then
        i + 1
      else i
    if chars[i]? = some '&' then
      let i := i + 1
      let descriptor := run chars i fun c => !descriptorChar c
      if descriptor = [] then ({ lexer with target := some .file }, i)
      else (lexer, i + descriptor.length)
    else ({ lexer with target := some .file }, i)

/-- Copy a group into the word being read; the command is not read whole unless it closed. -/
def copies (lexer : Lexer) (copy : String → Copied) : Lexer × Nat :=
  let word := lexer.word.getD {}
  let copied := copy word.text
  ({ lexer with
      word := some { word with text := copied.text }
      broken := lexer.broken || !copied.closed },
    copied.i)

def ansiQuotedStep (chars : List Char) (copied : Copied) : Option Copied :=
  if copied.closed then none
  else
    match chars[copied.i]? with
    | none => none
    | some c =>
      if c = '\'' then some { copied with i := copied.i + 1, closed := true }
      else if c = '\\' then
        let escape := ansiEscape chars (copied.i + 1) copied.text
        some ⟨escape.1, escape.2, false⟩
      else some ⟨copied.text.push c, copied.i + 1, false⟩

/-- Read an ANSI-C quoted text from `i`, after its `$'`. -/
def ansiQuoted (lexer : Lexer) (chars : List Char) (i : Nat) : Lexer × Nat :=
  (lexer.onWord (·.quote)).copies fun text =>
    loop (ansiQuotedStep chars) chars.length ⟨text, i, false⟩

/-- A double-quoted text so far; `open_` where a substitution in it did not close. -/
structure DoubleQuoted where
  copied : Copied
  open_ : Bool

def doubleQuotedStep (chars : List Char) (scan : DoubleQuoted) : Option DoubleQuoted :=
  let copied := scan.copied
  if copied.closed then none
  else
    match chars[copied.i]? with
    | none => none
    | some c =>
      let next := chars[copied.i + 1]?
      if c = '"' then
        some { scan with copied := { copied with i := copied.i + 1, closed := true } }
      else if c = '\\' ∧ next.any (· ∈ ['"', '\\', '$', '`', '\n']) then
        let text := if next = some '\n' then copied.text else copied.text.push (next.getD c)
        some { scan with copied := ⟨text, copied.i + 2, false⟩ }
      else if c = '$' ∧ next.any (· ∈ ['(', '{', '[']) then
        let group := copyGroup chars copied.i copied.text
        some ⟨{ group with closed := false }, scan.open_ || !group.closed⟩
      else if c = '`' then
        let group := copyBackticks chars copied.i copied.text
        some ⟨{ group with closed := false }, scan.open_ || !group.closed⟩
      else some { scan with copied := ⟨copied.text.push c, copied.i + 1, false⟩ }

/-- Read a double-quoted text from `i`, after its `"`. -/
def doubleQuoted (lexer : Lexer) (chars : List Char) (i : Nat) : Lexer × Nat :=
  (lexer.onWord (·.quote)).copies fun text =>
    let scan := loop (doubleQuotedStep chars) chars.length ⟨⟨text, i, false⟩, false⟩
    { scan.copied with closed := scan.copied.closed && !scan.open_ }

/-- Skip the bodies of the heredocs whose delimiters were read. -/
def skipHeredocs (lexer : Lexer) (chars : List Char) (i : Nat) : Lexer × Nat :=
  ({ lexer with heredocs := [] }, lexer.heredocs.foldl (heredocEnd chars) i)

/-- Read a single-quoted text whose `'` is at `i`. -/
def singleQuoted (lexer : Lexer) (chars : List Char) (i : Nat) : Lexer × Nat :=
  let text := run chars (i + 1) (· == '\'')
  let end_ := i + 1 + text.length
  let lexer := lexer.onWord fun word =>
    { word.quote with text := word.text ++ String.ofList text }
  ({ lexer with broken := lexer.broken || decide (chars.length ≤ end_) }, end_ + 1)

/-! ### The operators -/

/-- The operators of a conditional expression, its words' own there. -/
def isOperator (c : Char) : Bool := ['|', '&', '(', ')', '<', '>'].contains c

/-- `&`, `|` or `;` at `i` ends a part, and `;;` or `;&` an arm of a `case`. -/
def readSeparator (lexer : Lexer) (c : Char) (next : Option Char) (i : Nat) : Lexer × Nat :=
  let lexer := lexer.closesCase.2
  let armEnds := c == ';' && next.any (· ∈ [';', '&']) && lexer.caseAt == some .body &&
    lexer.caseDepth == lexer.depth
  let lexer := { lexer.endPart with pattern := false }
  let lexer := if armEnds then lexer.setCase .pattern else lexer
  let double := (c == '&' && next == some '&') || (c == '|' && next.any (· ∈ ['|', '&'])) ||
    (c == ';' && next == some ';')
  (lexer, if double then i + 2 else i + 1)

/-- A `)` ends a pattern of a `case`, closes a subshell, or closes nothing: then it ends a part
that runs no program, and the command was misread. What follows a subshell's close before the
next operator runs none either. -/
def readClose (lexer : Lexer) : Lexer :=
  let (closed, lexer) := lexer.closesCase
  if !closed && lexer.caseAt == some .pattern then lexer.endPart.setCase .body
  else
    let closes := decide (lexer.caseDepth < lexer.depth)
    let lexer := { lexer with
      depth := if closes then lexer.depth - 1 else lexer.depth
      broken := lexer.broken || !closes
      pattern := lexer.pattern || !closes }
    { lexer.endPart with pattern := closes }

/-- `<` or `>` at `i`: a word of digits before it is the descriptor it redirects, dropped with
it, unless it is the target of the redirection before. -/
def readRedirect (lexer : Lexer) (chars : List Char) (i : Nat) : Lexer × Nat :=
  let descriptor := lexer.target.isNone &&
    lexer.word.all fun word => !word.quoted && word.text.toList.all Char.isDigit
  (if descriptor then { lexer with word := none } else lexer.endWord).redirect chars i

/-- `(` at `i`: a function's definition, a group that is a word's text, a pattern's optional
open, or a subshell. -/
def readOpen (lexer : Lexer) (chars : List Char) (next : Option Char) (i : Nat) : Lexer × Nat :=
  if next = some ')' then (lexer.endPart, i + 2)
  else if lexer.word.isSome || next == some '(' || lexer.pattern then
    let arithmetic := lexer.word.isNone && next == some '('
    let (lexer, i) := lexer.copies (copyParens chars i)
    (if arithmetic then lexer.endWord else lexer, i)
  else if lexer.caseAt = some .pattern then (lexer, i + 1)
  else
    let lexer := lexer.endPart
    ({ lexer with depth := lexer.depth + 1 }, i + 1)

/-! ### The scan -/

/-- What the character `c` at `i` does; the index to go on from. -/
def scan (lexer : Lexer) (chars : List Char) (i : Nat) (c : Char) : Lexer × Nat :=
  let next := chars[i + 1]?
  -- A `]]` glued to an operator closes its conditional expression before the operator is read.
  let lexer :=
    if lexer.cond && isOperator c && lexer.word.any (·.plain "]]") then lexer.endWord else lexer
  if c = '\n' then
    if lexer.cond then (lexer.endWord, i + 1)
    else ({ lexer.closesCase.2.endPart with pattern := false }).skipHeredocs chars (i + 1)
  else if c = ' ' ∨ c = '\t' ∨ c = '\r' then (lexer.endWord, i + 1)
  else if c = '#' ∧ lexer.word = none then
    (lexer, i + 1 + (run chars (i + 1) (· == '\n')).length)
  else if c = '\'' then lexer.singleQuoted chars i
  else if c = '"' then lexer.doubleQuoted chars (i + 1)
  else if c = '\\' then
    match next with
    | none => (lexer, i + 1)
    | some escaped =>
      (if escaped = '\n' then lexer else lexer.onWord fun word => word.quote.push escaped, i + 2)
  else if c = '$' ∧ next.any (· ∈ ['(', '{', '[']) then lexer.copies (copyGroup chars i)
  else if c = '$' ∧ next = some '$' then ((lexer.push '$').push '$', i + 2)
  else if c = '$' ∧ next = some '\'' then lexer.ansiQuoted chars (i + 2)
  else if c = '`' then lexer.copies (copyBackticks chars i)
  else if isOperator c && lexer.cond then (lexer.push c, i + 1)
  else if c = '&' ∧ next = some '>' then lexer.endWord.redirect chars (i + 1)
  else if c = '|' ∧ lexer.caseAt = some .pattern then
    -- A pattern's alternatives, unless the `case` ended there.
    if lexer.closesCase.1 then lexer.closesCase.2.readSeparator c next i
    else (lexer.closesCase.2.endWord, i + 1)
  else if c = '&' ∨ c = '|' ∨ c = ';' then lexer.readSeparator c next i
  else if c = '(' then lexer.readOpen chars next i
  else if c = ')' then (lexer.readClose, i + 1)
  else if (c = '>' ∨ c = '<') ∧ next = some '(' then
    lexer.endWord.copies (copyParens chars (i + 1))
  else if c = '>' ∨ c = '<' then lexer.readRedirect chars i
  else (lexer.push c, i + 1)

def splitStep (chars : List Char) (state : Lexer × Nat) : Option (Lexer × Nat) :=
  (chars[state.2]?).map (state.1.scan chars state.2)

/-- The words of a command's parts, and whether it was not read whole. -/
def split (command : String) : List (List Word) × Bool :=
  let chars := command.toList
  let lexer := (loop (splitStep chars) chars.length ({}, 0)).1.closesCase.2
  let broken := lexer.broken || lexer.cond || decide (0 < lexer.depth) || !lexer.cases.isEmpty
  (lexer.endPart.parts, broken)

end Lexer

end Dagq.Shape
