/-
This file models the checks of an OIDC issuer's token and documents: which
token has a form and an algorithm that may pass, which keys of a key document
are usable, how long they are remembered, and which claims pass under a
deployment's issuer and audience.

The libraries the checks call are parameters: the base64 and JSON readers
(`Codec`), the numbers a time claim is read as (`Double`), and the check of a
signature. Texts are compared byte by byte as the source does, and a time is a
64-bit integer whose sums wrap.
-/

import Mathlib.Tactic

namespace Dagq.Oidc

/-! ### Limits and refusals -/

def clockSkewSecs : Int := 60
def minFetchIntervalSecs : Int64 := 60
def defaultKeyLifetimeSecs : Int64 := 3600
def maxKeyLifetimeSecs : Int64 := 86400
def maxJwtBytes : Nat := 16 * 1024

/-- Why a token was refused. -/
inductive JwtRefusal where
  | malformed
  | tooLong
  | criticalExtension
  | algorithmNone
  | symmetricAlgorithm
  | algorithmNotAllowed
  | unknownKey
  | keysUnavailable
  | badSignature
  | issuerMismatch
  | audienceMissing
  | expiryMissing
  | expired
  | notYetValid
  | issuedInTheFuture
  | subjectMissing
  deriving DecidableEq, Repr

/-- Why fetching an issuer's keys came to nothing. -/
inductive KeyFetchFailure where
  | redirected
  | status (status : Nat)
  | tooLarge
  | unreachable (why : String)
  | issuerNotHttps
  | audienceEmpty
  | discoveryMalformed
  | discoveryIssuerMismatch
  | jwksUriNotHttps
  | keysMalformed
  | noUsableKeys
  deriving DecidableEq, Repr

/-! ### What the libraries read -/

abbrev Bytes := List UInt8

/-- The floating point numbers a time claim is read as and compared in. -/
class Double (Number : Type) where
  ofInt : Int → Number
  add : Number → Number → Number
  lt : Number → Number → Bool
  le : Number → Number → Bool

/-- A JSON value. -/
inductive Value (Number : Type) where
  | null
  | bool (value : Bool)
  | number (value : Number)
  | string (value : String)
  | array (values : List (Value Number))
  | object (fields : List (String × Value Number))

/-- A JSON object's fields, no name twice. -/
abbrev Fields (Number : Type) := List (String × Value Number)

variable {Number : Type}

def Fields.get (fields : Fields Number) (name : String) : Option (Value Number) :=
  (fields.find? fun field => field.1 = name).map Prod.snd

namespace Value

def asStr : Value Number → Option String
  | .string value => some value
  | _ => none

def asF64 : Value Number → Option Number
  | .number value => some value
  | _ => none

def get (value : Value Number) (name : String) : Option (Value Number) :=
  match value with
  | .object fields => Fields.get fields name
  | _ => none

end Value

/-- A token's header as it is read: its `crit` counts when it is there and not null. -/
structure Header (Number : Type) where
  alg : String
  kid : Option String
  crit : Option (Value Number)

structure Discovery where
  issuer : String
  jwksUri : String

/-- The readers of base64url and JSON: each gives nothing for a text it refuses. -/
structure Codec (Number : Type) where
  decode : String → Option Bytes
  header : Bytes → Option (Header Number)
  claims : Bytes → Option (Fields Number)
  discovery : Bytes → Option Discovery
  keySet : Bytes → Option (List (Value Number))

/-! ### The configuration -/

inductive JwsAlgorithm where
  | rs256
  | es256
  | edDsa
  deriving DecidableEq, Repr

def defaultAlgorithms : List JwsAlgorithm := [.rs256, .es256]

def JwsAlgorithm.fromName (name : String) : Option JwsAlgorithm :=
  if name = "RS256" then some .rs256
  else if name = "ES256" then some .es256
  else if name = "EdDSA" then some .edDsa
  else none

def isHttps (url : String) : Bool :=
  match url.toList.dropPrefix? "https://".toList with
  | some rest => !rest.isEmpty && rest.head? != some '/'
  | none => false

/-- What a deployment says about its issuer, whose address is `https` and whose audience has a
name. -/
structure OidcConfig where
  issuer : String
  audience : String
  algorithms : List JwsAlgorithm
  https : isHttps issuer = true
  named : audience ≠ ""

def OidcConfig.new (issuer audience : String) : Except KeyFetchFailure OidcConfig :=
  if https : isHttps issuer = true then
    if empty : audience = "" then .error .audienceEmpty
    else .ok ⟨issuer, audience, defaultAlgorithms, https, empty⟩
  else .error .issuerNotHttps

def OidcConfig.withAlgorithms (config : OidcConfig) (algorithms : List JwsAlgorithm) :
    OidcConfig :=
  { config with algorithms }

/-! ### The token's form -/

/-- A token whose form and algorithm passed, not yet its signature or claims. -/
structure SignedJwt where
  algorithm : JwsAlgorithm
  kid : Option String
  signingInput : String
  claims : String
  signature : Bytes
  deriving DecidableEq, Repr

def eqIgnoreAsciiCase (first second : List Char) : Bool :=
  first.map Char.toLower == second.map Char.toLower

def allowedAlgorithm (name : String) (allowed : List JwsAlgorithm) :
    Except JwtRefusal JwsAlgorithm :=
  if eqIgnoreAsciiCase name.toList "none".toList then .error .algorithmNone
  else if eqIgnoreAsciiCase (name.toList.take 2) "HS".toList then .error .symmetricAlgorithm
  else match (JwsAlgorithm.fromName name).filter (allowed.contains ·) with
    | some algorithm => .ok algorithm
    | none => .error .algorithmNotAllowed

/-- The value, or the refusal in its place. -/
def orRefuse {Result : Type} (refusal : JwtRefusal) : Option Result → Except JwtRefusal Result
  | some value => .ok value
  | none => .error refusal

/-- The checks before any key is looked at. -/
def SignedJwt.parse (codec : Codec Number) (token : String) (config : OidcConfig) :
    Except JwtRefusal SignedJwt :=
  if token.utf8ByteSize > maxJwtBytes then .error .tooLong
  else match token.toList.splitOn '.' with
    | [header, claims, signature] => do
      let bytes ← orRefuse .malformed (codec.decode (String.ofList header))
      let header' ← orRefuse .malformed (codec.header bytes)
      if header'.crit.isSome then .error .criticalExtension
      else
        let algorithm ← allowedAlgorithm header'.alg config.algorithms
        let signature ← orRefuse .malformed (codec.decode (String.ofList signature))
        .ok {
          algorithm
          kid := header'.kid
          signingInput := String.ofList (header ++ '.' :: claims)
          claims := String.ofList claims
          signature }
    | _ => .error .malformed

/-! ### The claims -/

structure OidcIdentity where
  issuer : String
  subject : String
  deriving DecidableEq, Repr

/-- A token that passed: its identity and all its claims. -/
structure VerifiedJwt (Number : Type) where
  identity : OidcIdentity
  claims : Fields Number

def timeClaim (claims : Fields Number) (name : String) : Except JwtRefusal (Option Number) :=
  match Fields.get claims name with
  | none => .ok none
  | some value => (orRefuse .malformed value.asF64).map some

def audienceIncluded (claims : Fields Number) (audience : String) : Bool :=
  match Fields.get claims "aud" with
  | some (.string one) => one == audience
  | some (.array many) => many.any fun each => each.asStr == some audience
  | _ => false

/-- Whether `now` is past `exp` with the clock difference allowed. -/
def isExpired [Double Number] (exp : Number) (now : Int64) : Bool :=
  Double.le (Double.add exp (Double.ofInt clockSkewSecs)) (Double.ofInt now.toInt : Number)

/-- Whether `now` is before `start` by more than the clock difference allowed. -/
def isBefore [Double Number] (start : Number) (now : Int64) : Bool :=
  Double.lt (Double.add (Double.ofInt now.toInt : Number) (Double.ofInt clockSkewSecs)) start

def checkClaims [Double Number] (claims : Fields Number) (config : OidcConfig) (now : Int64) :
    Except JwtRefusal (VerifiedJwt Number) :=
  if (Fields.get claims "iss").bind Value.asStr ≠ some config.issuer then .error .issuerMismatch
  else if !audienceIncluded claims config.audience then .error .audienceMissing
  else do
    let exp ← timeClaim claims "exp" >>= orRefuse .expiryMissing
    if isExpired exp now then .error .expired
    else
      let nbf ← timeClaim claims "nbf"
      if nbf.any (isBefore · now) then .error .notYetValid
      else
        let iat ← timeClaim claims "iat"
        if iat.any (isBefore · now) then .error .issuedInTheFuture
        else match (Fields.get claims "sub").bind Value.asStr with
          | some subject =>
            if subject = "" then .error .subjectMissing
            else .ok ⟨⟨config.issuer, subject⟩, claims⟩
          | none => .error .subjectMissing

/-! ### The issuer's keys -/

inductive KeyMaterial where
  | rsa (n e : Bytes)
  | p256 (point : Bytes)
  | ed25519 (x : Bytes)
  deriving DecidableEq, Repr

/-- An issuer's public key; its own `algorithm`, when it names one, is the only one it signs
with. -/
structure PublicKey where
  kid : Option String
  algorithm : Option JwsAlgorithm
  material : KeyMaterial
  deriving DecidableEq, Repr

def KeyMaterial.fits : KeyMaterial → JwsAlgorithm → Bool
  | .rsa _ _, .rs256 => true
  | .p256 _, .es256 => true
  | .ed25519 _, .edDsa => true
  | _, _ => false

namespace PublicKey

def fits (key : PublicKey) (algorithm : JwsAlgorithm) : Bool :=
  key.algorithm.all (· == algorithm) && key.material.fits algorithm

/-- The check of a signature under a key's material. -/
abbrev Verifies := KeyMaterial → JwsAlgorithm → String → Bytes → Bool

def verify (verifies : Verifies) (key : PublicKey) (algorithm : JwsAlgorithm)
    (message : String) (signature : Bytes) : Except JwtRefusal Unit :=
  if key.material.fits algorithm then
    if verifies key.material algorithm message signature then .ok () else .error .badSignature
  else .error .badSignature

end PublicKey

/-- The signature under `key`, then the claims against the configuration at `now`. -/
def SignedJwt.verify [Double Number] (codec : Codec Number) (verifies : PublicKey.Verifies)
    (jwt : SignedJwt) (key : PublicKey) (config : OidcConfig) (now : Int64) :
    Except JwtRefusal (VerifiedJwt Number) := do
  key.verify verifies jwt.algorithm jwt.signingInput jwt.signature
  let bytes ← orRefuse .malformed (codec.decode jwt.claims)
  let claims ← orRefuse .malformed (codec.claims bytes)
  checkClaims claims config now

/-! ### The issuer's documents -/

/-- A document fetched from an issuer. -/
structure OidcDocument where
  body : Bytes
  cacheControl : Option String

def discoveryUrl (issuer : String) : String :=
  let base := match issuer.toList.reverse with
    | '/' :: rest => String.ofList rest.reverse
    | _ => issuer
  base ++ "/.well-known/openid-configuration"

/-- The address of the key document, from a discovery document that names the configured
issuer. -/
def checkDiscovery (codec : Codec Number) (config : OidcConfig) (body : Bytes) :
    Except KeyFetchFailure String :=
  match codec.discovery body with
  | none => .error .discoveryMalformed
  | some discovery =>
    if discovery.issuer ≠ config.issuer then .error .discoveryIssuerMismatch
    else if !isHttps discovery.jwksUri then .error .jwksUriNotHttps
    else .ok discovery.jwksUri

/-- The key's own algorithm: `none` leaves the key out. -/
def keyAlgorithm (key : Value Number) : Option (Option JwsAlgorithm) :=
  match key.get "alg" with
  | none => some none
  | some alg => (alg.asStr.bind JwsAlgorithm.fromName).map some

def keyMaterial (codec : Codec Number) (key : Value Number) : Option KeyMaterial :=
  let bytes := fun name => ((key.get name).bind Value.asStr).bind codec.decode
  let curve := (key.get "crv").bind Value.asStr
  match (key.get "kty").bind Value.asStr with
  | none => none
  | some kty =>
    if kty = "RSA" then do
      let n ← bytes "n"
      let e ← bytes "e"
      some (.rsa n e)
    else if kty = "EC" ∧ curve = some "P-256" then do
      let x ← bytes "x"
      let y ← bytes "y"
      if x.length ≠ 32 ∨ y.length ≠ 32 then none else some (.p256 (4 :: (x ++ y)))
    else if kty = "OKP" ∧ curve = some "Ed25519" then (bytes "x").map .ed25519
    else none

def parseKey (codec : Codec Number) (key : Value Number) : Option PublicKey :=
  if (key.get "use").any (fun use => use.asStr != some "sig") then none
  else do
    let algorithm ← keyAlgorithm key
    let material ← keyMaterial codec key
    some { kid := (key.get "kid").bind Value.asStr, algorithm, material }

/-- The usable keys of a key document; one with none left is a failure. -/
def parseKeys (codec : Codec Number) (body : Bytes) : Except KeyFetchFailure (List PublicKey) :=
  match codec.keySet body with
  | none => .error .keysMalformed
  | some keys =>
    match keys.filterMap (parseKey codec) with
    | [] => .error .noUsableKeys
    | usable => .ok usable

/-! ### How long keys are remembered -/

def isWhitespace (char : Char) : Bool :=
  let code := char.toNat
  (9 ≤ code && code ≤ 13) || code == 0x20 || code == 0x85 || code == 0xA0 || code == 0x1680 ||
    (0x2000 ≤ code && code ≤ 0x200A) || code == 0x2028 || code == 0x2029 || code == 0x202F ||
    code == 0x205F || code == 0x3000

def trim (text : List Char) : List Char :=
  ((text.dropWhile isWhitespace).reverse.dropWhile isWhitespace).reverse

/-- A decimal number of 64 bits with an optional sign, as the standard library parses one. -/
def parseI64 (text : List Char) : Option Int64 :=
  let (negative, digits) := match text with
    | '-' :: rest => (true, rest)
    | '+' :: rest => (false, rest)
    | _ => (false, text)
  if digits.isEmpty || !digits.all Char.isDigit then none
  else
    let magnitude : Int := digits.foldl (fun value char => 10 * value + (char.toNat - 48 : Nat)) 0
    let value := if negative then -magnitude else magnitude
    if -2 ^ 63 ≤ value ∧ value < 2 ^ 63 then some (Int64.ofInt value) else none

def clampLifetime (lifetime : Int64) : Int64 :=
  if lifetime < minFetchIntervalSecs then minFetchIntervalSecs
  else if lifetime > maxKeyLifetimeSecs then maxKeyLifetimeSecs
  else lifetime

/-- The lifetime the directives left give, `lifetime` being what those before them gave. -/
def directivesLifetime (lifetime : Int64) : List (List Char) → Int64
  | [] => clampLifetime lifetime
  | directive :: rest =>
    let directive := (trim directive).map Char.toLower
    if directive = "no-store".toList ∨ directive = "no-cache".toList then minFetchIntervalSecs
    else match directive.dropPrefix? "max-age=".toList with
      | some age => directivesLifetime ((parseI64 age).getD lifetime) rest
      | none => directivesLifetime lifetime rest

def keyLifetime (cacheControl : Option String) : Int64 :=
  directivesLifetime defaultKeyLifetimeSecs ((cacheControl.getD "").toList.splitOn ',')

/-- A fetch of the issuer's documents, each answered or failed by `source`. -/
def fetchKeys (codec : Codec Number) (config : OidcConfig)
    (source : String → Except KeyFetchFailure OidcDocument) :
    Except KeyFetchFailure (List PublicKey × Int64) := do
  let discovery ← source (discoveryUrl config.issuer)
  let jwksUri ← checkDiscovery codec config discovery.body
  let document ← source jwksUri
  let keys ← parseKeys codec document.body
  .ok (keys, keyLifetime document.cacheControl)

end Dagq.Oidc
