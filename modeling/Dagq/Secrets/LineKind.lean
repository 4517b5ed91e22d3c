/-
This file models what an added line looks like: a private key's header, one of the well-known
tokens by its prefix and length, or a name assigned a literal like a credential. The entropy of
a literal is a sum of floating-point numbers; whether it is high enough is a parameter.
-/

import Dagq.Lib.Lossy

namespace Dagq.Secrets

open Lib

/-- What an added line looks like. -/
inductive Kind where
  | privateKey
  | awsAccessKeyId
  | githubToken
  | gitlabToken
  | slackToken
  | slackWebhookUrl
  | stripeKey
  | googleApiKey
  | anthropicApiKey
  | openaiApiKey
  | npmToken
  | highEntropyAssignment
  deriving DecidableEq, Repr

/-- The characters that a token's body is made of. -/
inductive Body where
  | upperAlnum
  | alnum
  | alnumSlash
  | alnumUnderscore
  | alnumUnderscoreDash
  | alnumDash
  deriving DecidableEq, Repr

def isAlphanumeric (byte : UInt8) : Bool := (charOf byte).isAlphanum

def Body.takes : Body → UInt8 → Bool
  | upperAlnum, byte => (charOf byte).isUpper || (charOf byte).isDigit
  | alnum, byte => isAlphanumeric byte
  | alnumSlash, byte => isAlphanumeric byte || charOf byte = '/'
  | alnumUnderscore, byte => isAlphanumeric byte || charOf byte = '_'
  | alnumUnderscoreDash, byte => isAlphanumeric byte || charOf byte = '_' || charOf byte = '-'
  | alnumDash, byte => isAlphanumeric byte || charOf byte = '-'

/-- The well-known tokens: a prefix followed by so many characters of a body. -/
def tokens : List (Kind × List String × Body × Nat) :=
  [(.awsAccessKeyId, ["AKIA", "ASIA"], .upperAlnum, 16),
    (.githubToken, ["ghp_", "gho_", "ghu_", "ghs_", "ghr_"], .alnum, 36),
    (.githubToken, ["github_pat_"], .alnumUnderscore, 22),
    (.gitlabToken, ["glpat-"], .alnumUnderscoreDash, 20),
    (.slackToken, ["xoxa-", "xoxb-", "xoxp-", "xoxo-", "xoxs-", "xoxr-"], .alnumDash, 10),
    (.slackWebhookUrl,
      ["https://hooks.slack.com/services/", "https://hooks.slack.com/workflows/",
        "https://hooks.slack.com/triggers/"], .alnumSlash, 10),
    (.stripeKey, ["sk_live_", "rk_live_"], .alnum, 20),
    (.googleApiKey, ["AIza"], .alnumUnderscoreDash, 35),
    (.anthropicApiKey, ["sk-ant-"], .alnumUnderscoreDash, 20),
    (.openaiApiKey, ["sk-proj-", "sk-svcacct-"], .alnumUnderscoreDash, 20),
    (.npmToken, ["npm_"], .alnum, 36)]

/-- The names whose assignment is read. -/
def names : List String :=
  ["secret", "token", "password", "passwd", "pwd", "api_key", "api-key", "apikey", "access_key",
    "access-key", "accesskey", "private_key", "private-key", "privatekey", "credential", "auth"]

/-- The shortest literal that is read. -/
def minValue : Nat := 20

/-- The bytes of a literal text. -/
def ascii (text : String) : List UInt8 := bytesOf text.toList

def privateKeyHeader (line : List UInt8) : Bool :=
  line.tails.any fun rest =>
    match rest.dropPrefix? (ascii "-----BEGIN") with
    | none => false
    | some rest =>
      let inWords (byte : UInt8) : Bool :=
        charOf byte = ' ' || (charOf byte).isUpper || (charOf byte).isDigit
      let words := rest.takeWhile inWords
      let after := rest.dropWhile inWords
      ((ascii "PRIVATE KEY").isSuffixOf words || (ascii "PRIVATE KEY BLOCK").isSuffixOf words) &&
        (ascii "-----").isPrefixOf after

/-- Whether a prefix is somewhere on a line, followed by so many characters of a body. -/
def token (line lead : List UInt8) (body : Body) (min : Nat) : Bool :=
  line.tails.any fun rest =>
    match rest.dropPrefix? lead with
    | none => false
    | some rest => min ≤ (rest.takeWhile body.takes).length

/-- A character of an assigned literal. -/
def valueChar (byte : UInt8) : Bool :=
  isAlphanumeric byte || charOf byte ∈ ['+', '/', '=', '_', '.', '~', '-']

def isQuote (byte : UInt8) : Bool := charOf byte ∈ ['"', '\'', '`']

def isBlank (byte : UInt8) : Bool := charOf byte ∈ [' ', '\t']

/-- What is left after an optional quote. -/
def afterQuote : List UInt8 → List UInt8
  | [] => []
  | byte :: rest => if isQuote byte then rest else byte :: rest

/-- What is left of a name: its suffix after `_` or `-`. -/
def afterSuffix : List UInt8 → List UInt8
  | [] => []
  | byte :: rest =>
    let isDash (byte : UInt8) : Bool := charOf byte = '_' || charOf byte = '-'
    if isDash byte then (byte :: rest).dropWhile fun byte => isAlphanumeric byte || isDash byte
    else byte :: rest

/-- The literal assigned right after a name; none where no operator follows. -/
def assignedValue (rest : List UInt8) : Option (List UInt8) :=
  let rest := (afterQuote (afterSuffix rest)).dropWhile isBlank
  let operators := [ascii ":=", ascii "=>", ascii "=", ascii ":"]
  (operators.findSome? rest.dropPrefix?).map fun rest =>
    (afterQuote (rest.dropWhile isBlank)).takeWhile valueChar

section Entropy

variable (entropic : List UInt8 → Bool)

def credentialLike (value : List UInt8) : Bool :=
  decide (minValue ≤ value.length) && (value.any fun byte => (charOf byte).isDigit) && entropic value

/-- A byte in lower case. -/
def toLower (byte : UInt8) : UInt8 :=
  if (charOf byte).isUpper then byte + 32 else byte

/-- Whether a name on a line is assigned a literal like a credential. -/
def assignment (line : List UInt8) : Bool :=
  line.tails.any fun rest => names.any fun name =>
    (ascii name).isPrefixOf (rest.map toLower) &&
      (assignedValue (rest.drop (ascii name).length)).any (credentialLike entropic)

/-- What an added line without its `+` looks like. -/
def lineKind (line : List Char) : Option Kind :=
  let bytes := bytesOf line
  if privateKeyHeader bytes then some .privateKey
  else
    let found := tokens.find? fun (_, leads, body, min) =>
      leads.any fun lead => token bytes (ascii lead) body min
    match found with
    | some (kind, _) => some kind
    | none => if assignment entropic bytes then some .highEntropyAssignment else none

end Entropy

end Dagq.Secrets
