/-
This file models the memory of an issuer's keys and the verifier that many
callers share: the sections a call runs under the lock, and the steps of the
calls between its releases, in any order.

A call that finds no key fetches, waits for the fetch under way, or answers
with what is remembered. While a source is asked the lock is free; the mark of
the fetch is cleared by a guard, on success, failure and panic alike, in a
section after the one that records the keys. A wait may end at any moment: with
the fetch it waited for over, or at its time limit.
-/

import Dagq.Lib.Transition
import Dagq.Oidc.Token

namespace Dagq.Oidc

variable {Number : Type}

/-! ### The remembered keys -/

/-- What is remembered of one issuer's keys. -/
structure KeyMemory where
  keys : List PublicKey := []
  expiresAt : Int64 := 0
  lastFetch : Option Int64 := none

namespace KeyMemory

/-- The valid remembered key of a token, or why there is none now. -/
def keyFor (memory : KeyMemory) (jwt : SignedJwt) (now : Int64) : Except JwtRefusal PublicKey :=
  if now ≥ memory.expiresAt then .error .keysUnavailable
  else
    let fitting := fun (key : PublicKey) => key.fits jwt.algorithm
    orRefuse .unknownKey <| match jwt.kid with
      | some kid => (memory.keys.filter fitting).find? fun key => key.kid == some kid
      | none => match memory.keys with
        | [only] => if fitting only then some only else none
        | _ => none

/-- Whether to fetch before answering a token. A clock that went back does not hold fetches
off. -/
def shouldFetch (memory : KeyMemory) (jwt : SignedJwt) (now : Int64) : Bool :=
  !(memory.keyFor jwt now).isOk &&
    memory.lastFetch.all fun last => now < last || now - last ≥ minFetchIntervalSecs

def recordFetched (_ : KeyMemory) (keys : List PublicKey) (lifetimeSecs now : Int64) :
    KeyMemory :=
  { keys, expiresAt := now + lifetimeSecs, lastFetch := some now }

def recordFailed (memory : KeyMemory) (now : Int64) : KeyMemory :=
  { memory with lastFetch := some now }

end KeyMemory

/-! ### The sections under the lock -/

structure KeyState where
  memory : KeyMemory := {}
  fetching : Bool := false
  completed : Nat := 0

/-- A call's answer: the key a token passed under and what it says, or a refusal. -/
abbrev Answer (Number : Type) := Except JwtRefusal (PublicKey × VerifiedJwt Number)

/-- Where a call is between two of its sections. -/
inductive Phase (Number : Type) where
  /-- It gave the lock up until the fetch after `completed` others is over. -/
  | waiting (completed : Nat)
  /-- It asks the source, holding the mark of the fetch but not the lock. -/
  | fetching
  /-- Its fetch's end is recorded, and the guard of its mark not dropped yet. -/
  | recorded
  /-- Its guard is dropped, and it has not taken the lock again. -/
  | cleared
  | done (answer : Answer Number)
  | panicked

/-- Whether the call asks the source. -/
def Phase.asks : Phase Number → Bool
  | .fetching => true
  | _ => false

/-- A call: its token, parsed, its time and where it is. -/
structure Call (Number : Type) where
  jwt : SignedJwt
  now : Int64
  phase : Phase Number

/-- What a verifier is given: its configuration and the libraries. -/
structure Setting (Number : Type) where
  config : OidcConfig
  codec : Codec Number
  verifies : PublicKey.Verifies

/-- The answer from the memory as it is. -/
def Setting.answer [Double Number] (setting : Setting Number) (memory : KeyMemory)
    (jwt : SignedJwt) (now : Int64) : Except JwtRefusal (PublicKey × VerifiedJwt Number) := do
  let key ← memory.keyFor jwt now
  let verified ← jwt.verify setting.codec setting.verifies key setting.config now
  .ok (key, verified)

/-- The first section of a call: a key found answers it; else it waits for the fetch under way,
starts one when the shortest interval has passed, or is refused. -/
def Setting.enter [Double Number] (setting : Setting Number) (state : KeyState)
    (jwt : SignedJwt) (now : Int64) : KeyState × Phase Number :=
  if (state.memory.keyFor jwt now).isOk then (state, .done (setting.answer state.memory jwt now))
  else if state.fetching then (state, .waiting state.completed)
  else if state.memory.shouldFetch jwt now then
    ({ state with fetching := true, memory := state.memory.recordFailed now }, .fetching)
  else (state, .done (setting.answer state.memory jwt now))

/-- Whether a wait goes on: the fetch it waits for is not over. -/
def KeyState.waits (state : KeyState) (completed : Nat) : Bool :=
  state.fetching && state.completed == completed

/-- The guard of a fetch's mark, dropped. -/
def KeyState.clear (state : KeyState) : KeyState :=
  { state with fetching := false, completed := state.completed + 1 }

/-! ### The steps of the calls -/

/-- A fetch that brought keys. -/
structure Fetched where
  now : Int64
  keys : List PublicKey
  lifetime : Int64

/-- The verifier with its calls. `started` and `brought` remember the fetches started and those
that brought keys, in order; no step reads them. -/
structure Verifier (Number : Type) where
  shared : KeyState
  calls : Nat → Option (Call Number)
  started : List Int64
  brought : List Fetched

def Verifier.new : Verifier Number := ⟨{}, fun _ => none, [], []⟩

/-- The verifier with call `id` in `phase` and the shared state set. -/
def Verifier.put (verifier : Verifier Number) (id : Nat) (call : Call Number)
    (phase : Phase Number) (shared : KeyState) : Verifier Number :=
  { verifier with shared, calls := Function.update verifier.calls id (some { call with phase }) }

variable [Double Number]

/-- The steps of call `id` that end its fetch without keys: the source failed, or panicked. -/
inductive FetchLost (setting : Setting Number) (verifier : Verifier Number) (id : Nat)
    (call : Call Number) : Verifier Number → Prop where
  | failed (source : String → Except KeyFetchFailure OidcDocument) (failure : KeyFetchFailure)
      (ended : fetchKeys setting.codec setting.config source = .error failure) :
      FetchLost setting verifier id call (verifier.put id call .recorded verifier.shared)
  | panicked :
      FetchLost setting verifier id call (verifier.put id call .panicked verifier.shared.clear)

/-- One step of one call. -/
inductive VerifierStep (setting : Setting Number) : Verifier Number → Verifier Number → Prop where
  /-- A new call runs its first section. One whose token's form is refused takes no lock, and is
  no step here. -/
  | enter (verifier : Verifier Number) (id : Nat) (token : String) (jwt : SignedJwt) (now : Int64)
      (fresh : verifier.calls id = none)
      (parsed : SignedJwt.parse setting.codec token setting.config = .ok jwt)
      (shared : KeyState) (phase : Phase Number)
      (entered : setting.enter verifier.shared jwt now = (shared, phase)) :
      VerifierStep setting verifier
        { verifier.put id ⟨jwt, now, phase⟩ phase shared with
          started := if phase.asks then verifier.started ++ [now] else verifier.started }
  /-- A waiting call takes the lock again with its fetch over. -/
  | wake (verifier : Verifier Number) (id : Nat) (call : Call Number) (completed : Nat)
      (there : verifier.calls id = some call) (waiting : call.phase = .waiting completed)
      (ended : verifier.shared.waits completed = false) :
      VerifierStep setting verifier
        (verifier.put id call (.done (setting.answer verifier.shared.memory call.jwt call.now))
          verifier.shared)
  /-- A waiting call's time limit passes with its fetch still under way. -/
  | timeOut (verifier : Verifier Number) (id : Nat) (call : Call Number) (completed : Nat)
      (there : verifier.calls id = some call) (waiting : call.phase = .waiting completed)
      (going : verifier.shared.waits completed = true) :
      VerifierStep setting verifier
        (verifier.put id call (.done (.error .keysUnavailable)) verifier.shared)
  /-- The source answered with keys. -/
  | fetched (verifier : Verifier Number) (id : Nat) (call : Call Number)
      (there : verifier.calls id = some call) (fetching : call.phase = .fetching)
      (source : String → Except KeyFetchFailure OidcDocument) (keys : List PublicKey)
      (lifetime : Int64)
      (ended : fetchKeys setting.codec setting.config source = .ok (keys, lifetime)) :
      VerifierStep setting verifier
        { verifier.put id call .recorded { verifier.shared with
            memory := verifier.shared.memory.recordFetched keys lifetime call.now } with
          brought := verifier.brought ++ [⟨call.now, keys, lifetime⟩] }
  | lost (verifier after : Verifier Number) (id : Nat) (call : Call Number)
      (there : verifier.calls id = some call) (fetching : call.phase = .fetching)
      (ended : FetchLost setting verifier id call after) : VerifierStep setting verifier after
  /-- The guard of the fetch's mark is dropped. -/
  | clear (verifier : Verifier Number) (id : Nat) (call : Call Number)
      (there : verifier.calls id = some call) (recorded : call.phase = .recorded) :
      VerifierStep setting verifier (verifier.put id call .cleared verifier.shared.clear)
  /-- The call that fetched takes the lock again and answers. -/
  | finish (verifier : Verifier Number) (id : Nat) (call : Call Number)
      (there : verifier.calls id = some call) (cleared : call.phase = .cleared) :
      VerifierStep setting verifier
        (verifier.put id call (.done (setting.answer verifier.shared.memory call.jwt call.now))
          verifier.shared)

/-- The verifiers some interleaving of calls leads to. -/
def Verifier.Reached (setting : Setting Number) (verifier : Verifier Number) : Prop :=
  Lib.Reachable Verifier.new (VerifierStep setting) verifier

end Dagq.Oidc
