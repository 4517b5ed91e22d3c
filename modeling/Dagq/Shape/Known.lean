/-
This file models what a shape of commands knows: the lists of programs, with what of
their words is kept in plain, the lists of variables, and the secret key the other
words are digested with. The hash is the key's parameter.
-/

import Dagq.Ledger.Time

namespace Dagq.Shape

open Ledger (splitOnce)

/-- The text split at its first `=`. -/
def splitEq (text : String) : Option (String × String) :=
  (splitOnce (· == '=') text.toList).map fun (name, value) =>
    (String.ofList name, String.ofList value)

/-! ### The key -/

/-- What every digested word starts with. -/
def digestPrefix : List UInt8 := "dagq-cmd-v2\x00".toUTF8.toList

/-- The secret key of a queue, of 32 bytes, with the hash its digests are made with. -/
structure DigestKey where
  sha256 : List UInt8 → Vector UInt8 32
  bytes : Vector UInt8 32

namespace DigestKey

/-- The keyed hash of `message` over blocks of 64 bytes. -/
def hmacSha256 (key : DigestKey) (message : List UInt8) : Vector UInt8 32 :=
  let padded := key.bytes.toList ++ List.replicate 32 0
  let inner := key.sha256 (padded.map (· ^^^ 0x36) ++ message)
  key.sha256 (padded.map (· ^^^ 0x5c) ++ inner.toList)

/-- A byte as its two hexadecimal digits. -/
def hexByte (byte : UInt8) : List Char :=
  [(byte.toNat / 16).digitChar, (byte.toNat % 16).digitChar]

/-- The digest of `word`: the first sixteen hexadecimal digits of its keyed hash. -/
def digest (key : DigestKey) (word : String) : String :=
  let hash := key.hmacSha256 (digestPrefix ++ word.toUTF8.toList)
  String.ofList ((hash.toList.take 8).flatMap hexByte)

end DigestKey

/-! ### The lists -/

/-- Where the words of a command a program runs begin: nowhere, after one of these paths of its
words that are no flags, or at its first word that is no flag. -/
inductive Runs where
  | nothing
  | after (paths : List String)
  | firstOperand
  deriving DecidableEq, Repr

/-- Programs a shape keeps by name, and what of their words it keeps. -/
structure SubcommandList where
  programs : List String
  subcommands : List String
  switches : List String
  options : List String
  runs : Runs
  optionsAfterOperands : Bool
  toolchain : Bool
  deriving DecidableEq, Repr

namespace SubcommandList

/-- Whether the flag named `name` is one of their options. -/
def knows (list : SubcommandList) (name : String) : Bool :=
  list.switches.contains name || list.options.contains name

/-- Whether the option `flag` takes no value: a long one the switches name, or short letters
each of which they name. -/
def switch (list : SubcommandList) (flag : String) : Bool :=
  if "--".toList.isPrefixOf flag.toList then list.switches.contains flag
  else (flag.toList.drop 1).all fun letter => list.switches.contains (String.ofList ['-', letter])

end SubcommandList

/-- Names of variables a shape keeps in plain: these, and those with one of these prefixes. -/
structure VariableList where
  names : List String
  prefixes : List String
  deriving DecidableEq, Repr

/-- Whether the list holds the variable named `name`. -/
def VariableList.holds (list : VariableList) (name : String) : Bool :=
  list.names.contains name || list.prefixes.any fun start => start.toList.isPrefixOf name.toList

/-- The programs and variables a shape knows, and the queue's key. -/
structure Subcommands where
  lists : List SubcommandList
  variables_ : List VariableList
  key : Option DigestKey

namespace Subcommands

/-- The digest of `word` under the key; empty without one. -/
def digest (known : Subcommands) (word : String) : String :=
  match known.key with
  | some key => key.digest word
  | none => ""

/-- The name of a variable as an assignment keeps it. -/
def variable_ (known : Subcommands) (name : String) : String :=
  if known.variables_.any (·.holds name) then name else known.digest name

/-- The list that names the program named `name`. -/
def ofProgram (known : Subcommands) (name : String) : Option SubcommandList :=
  known.lists.find? (·.programs.contains name)

end Subcommands

end Dagq.Shape
