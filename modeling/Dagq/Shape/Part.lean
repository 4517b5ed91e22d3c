/-
This file models how a command is shaped: the words of each part, as the lexer split
them, are peeled of their reserved words and assignments, and what is left is a
program with its arguments, or a shell whose script is shaped in its place. A program
no list names keeps the digests of its words; a listed one keeps the subcommands and
flags its list knows.
-/

import Dagq.Shape.Known
import Dagq.Shape.Lexer

namespace Dagq.Shape

open Ledger (splitOnce)

/-! ### Shapes -/

inductive ShapeArg where
  | flag (flag : String) (value : Option String)
  | sub (sub : String)
  | word (word : String)
  | plus (plus : String)
  | afterDashdash (words : Nat)
  deriving DecidableEq, Repr

structure ShapePart where
  lead : List String := []
  assigns : List String := []
  program : Option String := none
  args : List ShapeArg := []
  deriving DecidableEq, Repr

structure CommandShape where
  parts : List ShapePart
  truncated : Bool
  programsOnly : Bool
  deriving DecidableEq, Repr

/-! ### What a word looks like -/

/-- The name of the variable `text` assigns, when it does. -/
def assigned (text : String) : Option String :=
  match splitEq text with
  | none => none
  | some (name, _) =>
    let name := if name.toList.getLast? = some '+' then name.toList.dropLast else name.toList
    match name with
    | [] => none
    | first :: rest =>
      if (first.isAlpha || first == '_') && rest.all fun c => c.isAlphanum || c == '_' then
        some (String.ofList name)
      else none

/-- Whether `name` is a flag's name: `-` or `--`, then a letter or digit and letters, digits,
`_`, `-` and `.`. -/
def flagName (name : String) : Bool :=
  let named (rest : List Char) : Bool :=
    rest.head?.any Char.isAlphanum &&
      rest.all fun c => c.isAlphanum || c == '_' || c == '-' || c == '.'
  match name.toList with
  | '-' :: '-' :: rest => named rest
  | '-' :: rest => named rest
  | _ => false

/-- Whether `text` may be a subcommand. -/
def subcommand (text : String) : Bool :=
  text.toList.head?.any Char.isLower && decide (text.toList.length ≤ 24) &&
    (text.toList.drop 1).all fun c => c.isLower || c.isDigit || c == '-'

/-- The words a secret may follow. -/
def secretSubs : List String :=
  ["auth", "login", "password", "passwd", "pass", "token", "secret", "key", "credential",
    "credentials"]

/-- The programs whose script is shaped in their place. -/
def shells : List String := ["sh", "bash", "zsh", "dash", "ksh"]

/-- How many words after the program, before any flag, may be a subcommand. -/
def subPositions : Nat := 2

/-- How deep a shell's script inside a shell's script is shaped. -/
def maxScriptDepth : Nat := 3

def digestWord (known : Subcommands) (word : Word) : ShapeArg := .word (known.digest word.text)

/-! ### The arguments -/

/-- A word of an unknown program: one like `--name=value` is a flag of the digests of its name
and its value. -/
def unknownArg (known : Subcommands) (word : Word) : ShapeArg :=
  match splitEq word.text with
  | some (name, value) =>
    if name.toList.head? = some '-' ∧ name.toList.dropWhile (· == '-') ≠ [] then
      .flag (known.digest name) (some (known.digest value))
    else digestWord known word
  | none => digestWord known word

/-- The words of an unknown program, up to a `--`, with how many words came after it. -/
def unknownArgs (known : Subcommands) (args : List Word) : List ShapeArg :=
  let before := args.takeWhile fun word => word.text != "--"
  before.map (unknownArg known) ++
    if before.length < args.length then [.afterDashdash (args.length - before.length - 1)] else []

/-- The script of a shell's `-c`: the word after a flag of single letters with `c`, every word
before it a flag. -/
def shellScript : List Word → Option String
  | [] => none
  | word :: rest =>
    match word.text.toList with
    | '-' :: flag =>
      if flag.head? = some '-' then none
      else if flag.contains 'c' then rest.head?.map Word.text
      else shellScript rest
    | _ => none

/-- Where the scan of a listed program's arguments is: what it kept, whether a flag was met,
how many subcommand's positions are taken, whether the word before is one a secret may follow,
how many words came after a `--`, whether the words are those of a command it runs or the next
begins them, how many operands there were, the last one, and whether the word before is an
option that may take this one. -/
structure ArgScan where
  args : List ShapeArg := []
  flagged : Bool := false
  positions : Nat := 0
  afterSecret : Bool := false
  afterDashdash : Option Nat := none
  running : Bool := false
  armed : Bool
  operands : Nat := 0
  previous : Option String := none
  takesNext : Bool := false

namespace ArgScan

def keep (scan : ArgScan) (arg : ShapeArg) : ArgScan := { scan with args := scan.args ++ [arg] }

/-- What is kept of a flag, and of what follows it in its word: a long one's name and value, a
short one's letter and what is glued to it. A flag whose name does not look like one is a
word. -/
def flagArg (list : SubcommandList) (known : Subcommands) (word : Word) (name : String)
    (value : Option String) : ShapeArg :=
  let kept (name : String) := if list.knows name then name else known.digest name
  if word.nameQuoted || !flagName name then digestWord known word
  else if !("--".toList.isPrefixOf name.toList) ∧ 2 < word.text.toList.length then
    .flag (kept (String.ofList (word.text.toList.take 2)))
      (some (known.digest (String.ofList (word.text.toList.drop 2))))
  else .flag (kept name) (value.map known.digest)

/-- A word that starts with `-`. -/
def readFlag (scan : ArgScan) (list : SubcommandList) (known : Subcommands) (word : Word)
    (isValue : Bool) : ArgScan :=
  let scan := { scan with flagged := true }
  -- An option's value that looks like a flag is a digest.
  if isValue then scan.keep (digestWord known word)
  else
    let (name, value) :=
      match splitEq word.text with
      | some (name, value) => (name, some value)
      | none => (word.text, none)
    { scan with takesNext := value.isNone && !list.switch name }.keep
      (flagArg list known word name value)

/-- A word that is no flag. -/
def readOperand (scan : ArgScan) (list : SubcommandList) (known : Subcommands) (word : Word)
    (isValue : Bool) : ArgScan :=
  let text := word.text
  let position := !scan.flagged && decide (scan.positions < subPositions)
  let running := scan.armed
  let sub := !running && position && !scan.afterSecret && subcommand text &&
    list.subcommands.contains text
  let armed :=
    match list.runs with
    | .after paths => paths.any fun path =>
        match splitOnce (· == ' ') path.toList with
        | some (first, last) =>
          String.ofList last == text && scan.previous == some (String.ofList first)
        | none => path == text && scan.operands == 0
    | _ => scan.armed
  { scan with
    positions := if position then scan.positions + 1 else scan.positions
    afterSecret := secretSubs.contains (String.ofList (text.toList.map Char.toLower))
    armed
    -- Past an operand of a parser that may stop at it, every word is a digest.
    running := running ||
      (!sub && (!list.optionsAfterOperands || (!isValue && scan.operands == 0)))
    operands := if isValue then scan.operands else scan.operands + 1
    previous := some text }.keep (if sub then .sub text else digestWord known word)

/-- One word more, the one at `at_`. -/
def read (list : SubcommandList) (known : Subcommands) (scan : ArgScan) (word : Word × Nat) :
    ArgScan :=
  let (word, at_) := word
  let text := word.text.toList
  if scan.running then scan.keep (digestWord known word)
  else
    match scan.afterDashdash with
    | some count => { scan with afterDashdash := some (count + 1) }
    | none =>
      if word.text = "--" then { scan with afterDashdash := some 0 }
      else
        let isValue := scan.takesNext
        let scan := { scan with takesNext := false }
        if 1 < text.length ∧ text.head? = some '-' then scan.readFlag list known word isValue
        else if list.toolchain ∧ at_ = 0 ∧ 1 < text.length ∧ text.head? = some '+' then
          scan.keep (.plus (known.digest word.text))
        else scan.readOperand list known word isValue

end ArgScan

/-- The arguments of a part after its program, a program `list` names. -/
def shapeArgs (list : SubcommandList) (known : Subcommands) (words : List Word) :
    List ShapeArg :=
  let scan := words.zipIdx.foldl (ArgScan.read list known)
    { armed := list.runs == .firstOperand }
  scan.args ++ scan.afterDashdash.toList.map ShapeArg.afterDashdash

/-! ### The parts -/

/-- The reserved words a part starts with, whether the last begins a loop or a `case`, and the
words after them. -/
def peelLead : List Word → List String × Bool × List Word
  | [] => ([], false, [])
  | word :: rest =>
    if word.quoted || !reserved.contains word.text then ([], false, word :: rest)
    else if ["for", "select", "case"].contains word.text then ([word.text], true, rest)
    else
      let (lead, looped, rest) := peelLead rest
      (word.text :: lead, looped, rest)

/-- The variables a part assigns before its program, and the words after them. A word whose
name is quoted assigns nothing. -/
def peelAssigns (known : Subcommands) : List Word → List String × List Word
  | [] => ([], [])
  | word :: rest =>
    match assigned word.text with
    | none => ([], word :: rest)
    | some name =>
      if word.nameQuoted then ([], word :: rest)
      else
        let (assigns, rest) := peelAssigns known rest
        (known.variable_ name :: assigns, rest)

/-- A loop's variable is assigned and its list is words; a `case` has words alone. -/
def shapeLoop (known : Subcommands) (lead : List String) (rest : List Word) : ShapePart :=
  match rest with
  | name :: after =>
    if lead.getLast? = some "case" then ⟨lead, [], none, rest.map (digestWord known)⟩
    else
      let kept :=
        if !name.quoted && assigned (name.text ++ "=") == some name.text then
          known.variable_ name.text
        else known.digest name.text
      ⟨lead, [kept], none, after.map (digestWord known)⟩
  | [] => ⟨lead, [], none, []⟩

/-- A program's name without its path. -/
def programName (text : String) : String :=
  let name := (text.toList.reverse.takeWhile (· != '/')).reverse
  if name = [] then text else String.ofList name

/-- The first part of a shell's script takes what stands before the shell. -/
def splice (lead assigns : List String) : List ShapePart → List ShapePart
  | [] => []
  | first :: rest =>
    { first with lead := lead ++ first.lead, assigns := assigns ++ first.assigns } :: rest

/-- A part of a program with its arguments. -/
def shapeProgram (known : Subcommands) (lead assigns : List String) (program : Word)
    (args : List Word) : ShapePart :=
  let name := programName program.text
  match known.ofProgram name with
  | some list => ⟨lead, assigns, some name, shapeArgs list known args⟩
  | none => ⟨lead, assigns, some (known.digest program.text), unknownArgs known args⟩

/-- The script a part's words run in a shell, when their first word that is no reserved word
and no assignment names one. -/
def scriptOf (known : Subcommands) (words : List Word) : Option String :=
  let (_, looped, rest) := peelLead words
  if looped then none
  else
    match (peelAssigns known rest).2 with
    | [] => none
    | program :: args =>
      if shells.contains (programName program.text) then shellScript args else none

/-- The part of words that run no program: their digests alone. -/
def digestsOf (known : Subcommands) (words : List Word) : ShapePart :=
  { args := words.map (digestWord known) }

/-- The shaped parts of one part's words: one, or the parts of a shell's script, which `script`
shapes where it is not too deep. -/
def shapePart (known : Subcommands) (script : Option (String → List ShapePart))
    (words : List Word) : List ShapePart :=
  if words.head?.any Word.pattern then [digestsOf known words]
  else
    let (lead, looped, rest) := peelLead words
    if looped then [shapeLoop known lead rest]
    else
      let (assigns, rest) := peelAssigns known rest
      match rest with
      | [] => if lead = [] ∧ assigns = [] then [] else [⟨lead, assigns, none, []⟩]
      | program :: args =>
        match script, scriptOf known words with
        | some shape, some text => splice lead assigns (shape text)
        | _, _ => [shapeProgram known lead assigns program args]

/-- The words of a command's parts. Of a command not read whole, each part's first word says
that the part runs no program. -/
def wordsOf (command : String) : List (List Word) :=
  let (parts, broken) := Lexer.split command
  if broken then parts.map fun words => words.modifyHead fun first => { first with pattern := true }
  else parts

/-- The shaped parts of `command`, below which scripts are shaped `levels` deep. -/
def partsOf (known : Subcommands) : Nat → String → List ShapePart
  | 0, command => (wordsOf command).flatMap (shapePart known none)
  | levels + 1, command =>
    (wordsOf command).flatMap (shapePart known (some (partsOf known levels)))

/-- The shape of `command`; none without a key. -/
def shape (known : Subcommands) (command : String) : Option CommandShape :=
  match known.key with
  | none => none
  | some _ => some ⟨partsOf known maxScriptDepth command, false, false⟩

end Dagq.Shape
