/-
This file proves what an answer of the remembered keys says. A token passes only
under a key some fetch brought, before the end of that fetch's longest lifetime,
with a type and an algorithm that fit, under its identifier or as the only key
there is, and with claims of the configured issuer and audience in their time.

A fetch gives its keys a lifetime between the shortest interval and one day
whatever its `Cache-Control` says, and a sum of 64-bit times that wraps ends the
keys early, never late.
-/

import Dagq.Oidc.Verifier

namespace Dagq.Oidc

/-! ### Arithmetic of 64-bit times -/

/-- A sum of a time and a span that is not negative is at most their exact sum: where it wraps it
is far below. -/
theorem toInt_add_le (time span : Int64) (nonneg : 0 ≤ span.toInt) :
    (time + span).toInt ≤ time.toInt + span.toInt := by
  have low := time.le_toInt
  have high := time.toInt_lt
  have spanHigh := span.toInt_lt
  rw [Int64.toInt_add, Int.bmod_def]
  split <;> omega

/-- A clock not gone back whose difference is at least the interval advanced by that much: where
the difference wraps it is negative. -/
theorem interval_le_of_sub (last now : Int64) (forward : ¬ now < last)
    (interval : minFetchIntervalSecs ≤ now - last) :
    last.toInt + minFetchIntervalSecs.toInt ≤ now.toInt := by
  rw [Int64.lt_iff_toInt_lt] at forward
  rw [Int64.le_iff_toInt_le, Int64.toInt_sub, Int.bmod_def] at interval
  have span : minFetchIntervalSecs.toInt = 60 := by decide
  have low := last.le_toInt
  have high := now.toInt_lt
  rw [span] at interval ⊢
  split at interval <;> omega

/-! ### How long keys are remembered -/

/-- The lifetimes a fetch may give its keys. -/
def LifetimeInRange (lifetime : Int64) : Prop :=
  minFetchIntervalSecs.toInt ≤ lifetime.toInt ∧ lifetime.toInt ≤ maxKeyLifetimeSecs.toInt

theorem clampLifetime_inRange (lifetime : Int64) : LifetimeInRange (clampLifetime lifetime) := by
  unfold clampLifetime LifetimeInRange
  split
  · decide
  · rename_i notBelow
    split
    · decide
    · rename_i notAbove
      rw [Int64.lt_iff_toInt_lt] at notBelow
      rw [gt_iff_lt, Int64.lt_iff_toInt_lt] at notAbove
      exact ⟨not_lt.mp notBelow, not_lt.mp notAbove⟩

theorem directivesLifetime_inRange (directives : List (List Char)) (lifetime : Int64) :
    LifetimeInRange (directivesLifetime lifetime directives) := by
  induction directives generalizing lifetime with
  | nil => exact clampLifetime_inRange lifetime
  | cons directive rest inductionHypothesis =>
    unfold directivesLifetime
    dsimp only
    split
    · exact ⟨le_refl _, by decide⟩
    · split
      · exact inductionHypothesis _
      · exact inductionHypothesis _

theorem fetchKeys_inRange {Number : Type} (codec : Codec Number) (config : OidcConfig)
    (source : String → Except KeyFetchFailure OidcDocument) (keys : List PublicKey)
    (lifetime : Int64) (fetched : fetchKeys codec config source = .ok (keys, lifetime)) :
    LifetimeInRange lifetime := by
  unfold fetchKeys at fetched
  simp only [bind, Except.bind] at fetched
  split at fetched
  · cases fetched
  split at fetched
  · cases fetched
  split at fetched
  · cases fetched
  split at fetched
  · cases fetched
  cases fetched
  exact directivesLifetime_inRange _ _

/-! ### What an accepted token says -/

variable {Number : Type}

/-- A parsed token's algorithm is one the deployment allows. -/
theorem parse_allowed {setting : Setting Number} {token : String} {jwt : SignedJwt}
    (parsed : SignedJwt.parse setting.codec token setting.config = .ok jwt) :
    jwt.algorithm ∈ setting.config.algorithms := by
  unfold SignedJwt.parse at parsed
  split at parsed
  · cases parsed
  split at parsed
  · simp only [bind, Except.bind] at parsed
    split at parsed
    · cases parsed
    split at parsed
    · cases parsed
    split at parsed
    · cases parsed
    split at parsed
    · cases parsed
    rename_i algorithm allowed
    split at parsed
    · cases parsed
    cases parsed
    unfold allowedAlgorithm at allowed
    split at allowed
    · cases allowed
    split at allowed
    · cases allowed
    split at allowed
    · rename_i chosen
      cases allowed
      simpa using (Option.filter_eq_some_iff.mp chosen).2
    · cases allowed
  · cases parsed

variable [Double Number]

/-- A token passed under a key: which fetch brought the key and when it stops being used, how it
was chosen, and what the claims say. -/
structure Accepted (setting : Setting Number) (brought : List Fetched) (jwt : SignedJwt)
    (now : Int64) (key : PublicKey) (verified : VerifiedJwt Number) : Prop where
  brought : ∃ fetch ∈ brought, key ∈ fetch.keys ∧
    now.toInt < fetch.now.toInt + maxKeyLifetimeSecs.toInt ∧
    (jwt.kid = none → fetch.keys = [key])
  identifier : ∀ kid, jwt.kid = some kid → key.kid = some kid
  fits : key.fits jwt.algorithm = true
  allowed : jwt.algorithm ∈ setting.config.algorithms
  signed : setting.verifies key.material jwt.algorithm jwt.signingInput jwt.signature = true
  issuer : (Fields.get verified.claims "iss").bind Value.asStr = some setting.config.issuer
  audience : audienceIncluded verified.claims setting.config.audience = true
  expiry : ∃ exp, timeClaim verified.claims "exp" = .ok (some exp) ∧ isExpired exp now = false

theorem Accepted.mono {setting : Setting Number} {brought : List Fetched} {jwt : SignedJwt}
    {now : Int64} {key : PublicKey} {verified : VerifiedJwt Number}
    (accepted : Accepted setting brought jwt now key verified) (more : List Fetched) :
    Accepted setting (brought ++ more) jwt now key verified := by
  obtain ⟨fetch, member, rest⟩ := accepted.brought
  exact { accepted with brought := ⟨fetch, List.mem_append_left _ member, rest⟩ }

theorem orRefuse_eq_ok {Result : Type} {refusal : JwtRefusal} {value : Option Result}
    {result : Result} (given : orRefuse refusal value = .ok result) : value = some result := by
  cases value with
  | none => cases given
  | some inner =>
    cases given
    rfl

/-- The key found is among those remembered, fits the token, and is the one its identifier names
or the only one there is. -/
theorem keyFor_eq_ok {memory : KeyMemory} {jwt : SignedJwt} {now : Int64} {key : PublicKey}
    (found : memory.keyFor jwt now = .ok key) :
    now < memory.expiresAt ∧ key ∈ memory.keys ∧ key.fits jwt.algorithm = true ∧
      (∀ kid, jwt.kid = some kid → key.kid = some kid) ∧
      (jwt.kid = none → memory.keys = [key]) := by
  unfold KeyMemory.keyFor at found
  split at found
  · cases found
  rename_i valid
  have before : now < memory.expiresAt := by
    rw [ge_iff_le, Int64.le_iff_toInt_le] at valid
    exact Int64.lt_iff_toInt_lt.mpr (not_le.mp valid)
  have chosen := orRefuse_eq_ok found
  cases identified : jwt.kid with
  | some kid =>
    rw [identified] at chosen
    dsimp only at chosen
    have named := List.find?_some chosen
    have member := List.mem_filter.mp (List.mem_of_find?_eq_some chosen)
    refine ⟨before, member.1, member.2, fun other same => ?_, fun absent => by cases absent⟩
    cases same
    exact eq_of_beq named
  | none =>
    rw [identified] at chosen
    dsimp only at chosen
    split at chosen
    · rename_i only keys_eq
      split at chosen
      · rename_i fits
        cases chosen
        exact ⟨before, by rw [keys_eq]; exact List.mem_singleton.mpr rfl, fits,
          fun _ absent => (by cases absent), fun _ => keys_eq⟩
      · cases chosen
    · cases chosen

theorem checkClaims_eq_ok {claims : Fields Number} {config : OidcConfig} {now : Int64}
    {verified : VerifiedJwt Number} (checked : checkClaims claims config now = .ok verified) :
    verified.claims = claims ∧
      (Fields.get claims "iss").bind Value.asStr = some config.issuer ∧
      audienceIncluded claims config.audience = true ∧
      ∃ exp, timeClaim claims "exp" = .ok (some exp) ∧ isExpired exp now = false := by
  unfold checkClaims at checked
  split at checked
  · cases checked
  rename_i issuer
  split at checked
  · cases checked
  rename_i audience
  simp only [bind, Except.bind] at checked
  split at checked
  · cases checked
  rename_i exp exp_eq
  have read : timeClaim claims "exp" = .ok (some exp) := by
    split at exp_eq
    · cases exp_eq
    · rename_i value value_eq
      rw [value_eq, orRefuse_eq_ok exp_eq]
  split at checked
  · cases checked
  rename_i notExpired
  refine ⟨?_, not_not.mp issuer, by simpa using audience, exp, read, by simpa using notExpired⟩
  split at checked
  · cases checked
  split at checked
  · cases checked
  split at checked
  · cases checked
  split at checked
  · cases checked
  split at checked
  · split at checked
    · cases checked
    · cases checked
      rfl
  · cases checked

theorem verify_eq_ok {setting : Setting Number} {jwt : SignedJwt} {key : PublicKey}
    {now : Int64} {verified : VerifiedJwt Number}
    (passed : jwt.verify setting.codec setting.verifies key setting.config now = .ok verified) :
    setting.verifies key.material jwt.algorithm jwt.signingInput jwt.signature = true ∧
      (Fields.get verified.claims "iss").bind Value.asStr = some setting.config.issuer ∧
      audienceIncluded verified.claims setting.config.audience = true ∧
      ∃ exp, timeClaim verified.claims "exp" = .ok (some exp) ∧ isExpired exp now = false := by
  unfold SignedJwt.verify PublicKey.verify at passed
  simp only [bind, Except.bind] at passed
  split at passed
  · cases passed
  rename_i signature
  split at signature
  · split at signature
    · rename_i signed
      split at passed
      · cases passed
      split at passed
      · cases passed
      obtain ⟨same, rest⟩ := checkClaims_eq_ok passed
      rw [same]
      exact ⟨signed, rest⟩
    · cases signature
  · cases signature

/-- What the memory holds of the fetches that brought keys: nothing yet, or one's keys until its
lifetime ends. -/
def Remembered (memory : KeyMemory) (brought : List Fetched) : Prop :=
  memory.keys = [] ∨ ∃ fetch ∈ brought, memory.keys = fetch.keys ∧
    memory.expiresAt = fetch.now + fetch.lifetime ∧ LifetimeInRange fetch.lifetime

theorem answer_accepted {setting : Setting Number} {memory : KeyMemory} {brought : List Fetched}
    {jwt : SignedJwt} {now : Int64} {key : PublicKey} {verified : VerifiedJwt Number}
    (remembered : Remembered memory brought) (allowed : jwt.algorithm ∈ setting.config.algorithms)
    (answered : setting.answer memory jwt now = .ok (key, verified)) :
    Accepted setting brought jwt now key verified := by
  unfold Setting.answer at answered
  simp only [bind, Except.bind] at answered
  split at answered
  · cases answered
  rename_i found found_eq
  split at answered
  · cases answered
  rename_i passed passed_eq
  cases answered
  obtain ⟨before, member, fits, identifier, only⟩ := keyFor_eq_ok found_eq
  obtain ⟨signed, issuer, audience, expiry⟩ := verify_eq_ok passed_eq
  refine ⟨?_, identifier, fits, allowed, signed, issuer, audience, expiry⟩
  rcases remembered with none_held | ⟨fetch, inBrought, keys_eq, expires_eq, low, high⟩
  · rw [none_held] at member
    cases member
  · refine ⟨fetch, inBrought, keys_eq ▸ member, ?_, fun absent => keys_eq ▸ only absent⟩
    have limit : now.toInt < memory.expiresAt.toInt := Int64.lt_iff_toInt_lt.mp before
    have shortest : minFetchIntervalSecs.toInt = 60 := by decide
    have sum := toInt_add_le fetch.now fetch.lifetime (by omega)
    rw [expires_eq] at limit
    omega

end Dagq.Oidc
