/-
This file proves what the shared verifier keeps over every interleaving of its
calls. At most one call holds the mark of a fetch, so at most one fetch is in
flight; two consecutive fetches start the shortest interval apart unless the
clock went back; a fetch that brings no keys leaves those remembered as they
were; and a token passes only as the remembered keys allow.

Who holds the mark is a fact of the calls' phases alone. The time of the last
start is what the memory remembers of it, because only the call that holds the
mark writes it.
-/

import Dagq.Oidc.Acceptance

namespace Dagq.Oidc

open Dagq.Lib

variable {Number : Type}

/-! ### Who holds the mark of a fetch -/

/-- Whether a call holds the mark: it asks the source, or has not dropped its guard. -/
def Phase.owns : Phase Number → Bool
  | .fetching => true
  | .recorded => true
  | _ => false

/-- Whether call `id` holds the mark. -/
def Verifier.Owns (verifier : Verifier Number) (id : Nat) : Prop :=
  ∃ call, verifier.calls id = some call ∧ call.phase.owns = true

/-- The mark is set while a call holds it, and one call holds it at a time. -/
structure Marked (verifier : Verifier Number) : Prop where
  set : ∀ id, verifier.Owns id → verifier.shared.fetching = true
  alone : ∀ first second, verifier.Owns first → verifier.Owns second → first = second

section Put

variable (verifier : Verifier Number) (id : Nat) (call : Call Number) (phase : Phase Number)
  (shared : KeyState)

@[simp] theorem put_shared : (verifier.put id call phase shared).shared = shared := rfl

@[simp] theorem put_brought : (verifier.put id call phase shared).brought = verifier.brought := rfl

@[simp] theorem put_started : (verifier.put id call phase shared).started = verifier.started := rfl

@[simp] theorem put_calls_self :
    (verifier.put id call phase shared).calls id = some { call with phase } :=
  Function.update_self _ _ _

theorem put_calls_of_ne (other : Nat) (different : other ≠ id) :
    (verifier.put id call phase shared).calls other = verifier.calls other :=
  Function.update_of_ne different _ _

theorem put_owns_self : (verifier.put id call phase shared).Owns id ↔ phase.owns = true := by
  constructor
  · rintro ⟨found, there, owns⟩
    rw [put_calls_self] at there
    cases there
    exact owns
  · exact fun owns => ⟨_, put_calls_self verifier id call phase shared, owns⟩

theorem put_owns_of_ne (other : Nat) (different : other ≠ id) :
    (verifier.put id call phase shared).Owns other ↔ verifier.Owns other := by
  unfold Verifier.Owns
  rw [put_calls_of_ne verifier id call phase shared other different]

end Put

namespace Marked

variable {verifier : Verifier Number} {id : Nat} {call : Call Number} {phase : Phase Number}
  {shared : KeyState}

/-- A call that holds no mark after its step leaves the mark to whoever held it. -/
theorem put_quiet (marked : Marked verifier) (quiet : phase.owns = false)
    (same : shared.fetching = verifier.shared.fetching) :
    Marked (verifier.put id call phase shared) := by
  have before : ∀ other, (verifier.put id call phase shared).Owns other → verifier.Owns other := by
    intro other owns
    by_cases different : other = id
    · subst different
      rw [put_owns_self, quiet] at owns
      cases owns
    · exact (put_owns_of_ne verifier id call phase shared other different).mp owns
  exact ⟨fun other owns => same.trans (marked.set other (before other owns)),
    fun first second owns also => marked.alone first second (before _ owns) (before _ also)⟩

/-- The holder stays the holder. -/
theorem put_stay (marked : Marked verifier) (held : verifier.Owns id)
    (same : shared.fetching = verifier.shared.fetching) :
    Marked (verifier.put id call phase shared) := by
  have before : ∀ other, (verifier.put id call phase shared).Owns other → verifier.Owns other := by
    intro other owns
    by_cases different : other = id
    · exact different ▸ held
    · exact (put_owns_of_ne verifier id call phase shared other different).mp owns
  exact ⟨fun other owns => same.trans (marked.set other (before other owns)),
    fun first second owns also => marked.alone first second (before _ owns) (before _ also)⟩

/-- The holder drops the mark: nobody holds it. -/
theorem put_drop (marked : Marked verifier) (held : verifier.Owns id) (quiet : phase.owns = false) :
    Marked (verifier.put id call phase shared) := by
  have nobody : ∀ other, ¬ (verifier.put id call phase shared).Owns other := by
    intro other owns
    by_cases different : other = id
    · subst different
      rw [put_owns_self, quiet] at owns
      cases owns
    · exact different (marked.alone other id
        ((put_owns_of_ne verifier id call phase shared other different).mp owns) held)
  exact ⟨fun other owns => absurd owns (nobody other),
    fun first _ owns _ => absurd owns (nobody first)⟩

/-- A call takes the mark nobody holds. -/
theorem put_take (marked : Marked verifier) (free : verifier.shared.fetching = false)
    (taken : shared.fetching = true) : Marked (verifier.put id call phase shared) := by
  have nobody : ∀ other, ¬ verifier.Owns other := by
    intro other owns
    have mark := marked.set other owns
    rw [free] at mark
    cases mark
  have only : ∀ other, (verifier.put id call phase shared).Owns other → other = id := by
    intro other owns
    by_contra different
    exact nobody other ((put_owns_of_ne verifier id call phase shared other different).mp owns)
  exact ⟨fun _ _ => taken, fun first second owns also => (only first owns).trans (only second also).symm⟩

end Marked

/-! ### The keys while a call asks -/

/-- While call `id` asks the source, the keys and their expiry are those it found, and it never
asks again once it stopped. -/
def AsksWith (keys : List PublicKey) (expiresAt : Int64) (id : Nat) (verifier : Verifier Number) :
    Prop :=
  ∃ call, verifier.calls id = some call ∧
    (call.phase.asks = true →
      verifier.shared.memory.keys = keys ∧ verifier.shared.memory.expiresAt = expiresAt)

theorem AsksWith.put_of_ne {keys : List PublicKey} {expiresAt : Int64} {id other : Nat}
    {verifier : Verifier Number} {call : Call Number} {phase : Phase Number} {shared : KeyState}
    (asks : AsksWith keys expiresAt id verifier) (different : id ≠ other)
    (same : shared.memory.keys = verifier.shared.memory.keys ∧
      shared.memory.expiresAt = verifier.shared.memory.expiresAt) :
    AsksWith keys expiresAt id (verifier.put other call phase shared) := by
  obtain ⟨found, there, held⟩ := asks
  refine ⟨found, (put_calls_of_ne verifier other call phase shared id different).trans there,
    fun asking => ?_⟩
  rw [put_shared, same.1, same.2]
  exact held asking

/-- A step to a phase that does not ask, by the call itself or by another that leaves the keys. -/
theorem AsksWith.put {keys : List PublicKey} {expiresAt : Int64} {id other : Nat}
    {verifier : Verifier Number} {call : Call Number} {phase : Phase Number} {shared : KeyState}
    (asks : AsksWith keys expiresAt id verifier) (quiet : phase.asks = false)
    (same : shared.memory = verifier.shared.memory) :
    AsksWith keys expiresAt id (verifier.put other call phase shared) := by
  by_cases different : id = other
  · subst different
    exact ⟨_, put_calls_self verifier id call phase shared, fun asking => by
      rw [quiet] at asking
      cases asking⟩
  · exact asks.put_of_ne different ⟨congrArg KeyMemory.keys same, congrArg KeyMemory.expiresAt same⟩

variable [Double Number]

/-! ### The first section of a call -/

/-- What the first section does: an answer or a wait leaves the shared state, and a fetch starts
only with no mark set, at a time its interval allows. -/
inductive Entered (setting : Setting Number) (state : KeyState) (jwt : SignedJwt) (now : Int64) :
    KeyState × Phase Number → Prop where
  | answered : Entered setting state jwt now (state, .done (setting.answer state.memory jwt now))
  | waits (going : state.fetching = true) :
      Entered setting state jwt now (state, .waiting state.completed)
  | fetches (free : state.fetching = false)
      (due : ∀ last, state.memory.lastFetch = some last →
        now < last ∨ minFetchIntervalSecs ≤ now - last) :
      Entered setting state jwt now
        ({ state with fetching := true, memory := state.memory.recordFailed now }, .fetching)

theorem enter_spec (setting : Setting Number) (state : KeyState) (jwt : SignedJwt) (now : Int64) :
    Entered setting state jwt now (setting.enter state jwt now) := by
  unfold Setting.enter
  split
  · exact .answered
  split
  · rename_i going
    exact .waits going
  rename_i free
  split
  · rename_i should
    refine .fetches (by simpa using free) fun last known => ?_
    unfold KeyMemory.shouldFetch at should
    rw [known] at should
    simpa using (Bool.and_eq_true_iff.mp should).2
  · exact .answered

/-! ### The invariant of an interleaving -/

/-- The starts of two consecutive fetches: the clock went back, or advanced by the shortest
interval. -/
def Spaced (earlier later : Int64) : Prop :=
  later.toInt < earlier.toInt ∨ earlier.toInt + minFetchIntervalSecs.toInt ≤ later.toInt

/-- What every interleaving keeps. -/
structure Sound (setting : Setting Number) (verifier : Verifier Number) : Prop where
  marked : Marked verifier
  lastFetch : verifier.shared.memory.lastFetch = verifier.started.getLast?
  current : ∀ id call, verifier.calls id = some call → call.phase.asks = true →
    verifier.shared.memory.lastFetch = some call.now
  spaced : verifier.started.IsChain Spaced
  remembered : Remembered verifier.shared.memory verifier.brought
  origin : ∀ fetch ∈ verifier.brought, fetch.now ∈ verifier.started
  allowed : ∀ id call, verifier.calls id = some call →
    call.jwt.algorithm ∈ setting.config.algorithms
  accepted : ∀ id call key verified, verifier.calls id = some call →
    call.phase = .done (.ok (key, verified)) →
    Accepted setting verifier.brought call.jwt call.now key verified

theorem Sound.new (setting : Setting Number) : Sound setting Verifier.new where
  marked := ⟨fun _ ⟨_, there, _⟩ => (by cases there), fun _ _ ⟨_, there, _⟩ => (by cases there)⟩
  lastFetch := rfl
  current _ _ there := by cases there
  spaced := List.isChain_nil
  remembered := Or.inl rfl
  origin _ member := by cases member
  allowed _ _ there := by cases there
  accepted _ _ _ _ there := by cases there

/-! ### One step -/

namespace Sound

variable {setting : Setting Number} {verifier : Verifier Number}

/-- A step that leaves the memory and starts no fetch. -/
theorem put_same_memory (sound : Sound setting verifier) {id : Nat} (call : Call Number)
    {phase : Phase Number} {shared : KeyState}
    (marked : Marked (verifier.put id call phase shared))
    (same : shared.memory = verifier.shared.memory) (quiet : phase.asks = false)
    (allowed : call.jwt.algorithm ∈ setting.config.algorithms)
    (answered : ∀ key verified, phase = .done (.ok (key, verified)) →
      Accepted setting verifier.brought call.jwt call.now key verified) :
    Sound setting (verifier.put id call phase shared) where
  marked := marked
  lastFetch := (congrArg KeyMemory.lastFetch same).trans sound.lastFetch
  current other found there asks := by
    rw [put_shared, same]
    by_cases different : other = id
    · subst different
      rw [put_calls_self] at there
      cases there
      rw [quiet] at asks
      cases asks
    · rw [put_calls_of_ne verifier id call phase shared other different] at there
      exact sound.current other found there asks
  spaced := sound.spaced
  remembered := by
    rw [put_shared, put_brought, same]
    exact sound.remembered
  origin := sound.origin
  allowed other found there := by
    by_cases different : other = id
    · subst different
      rw [put_calls_self] at there
      cases there
      exact allowed
    · rw [put_calls_of_ne verifier id call phase shared other different] at there
      exact sound.allowed other found there
  accepted other found key verified there ended := by
    by_cases different : other = id
    · subst different
      rw [put_calls_self] at there
      cases there
      exact answered key verified ended
    · rw [put_calls_of_ne verifier id call phase shared other different] at there
      exact sound.accepted other found key verified there ended

/-- A call that answers from the memory as it is. -/
theorem put_answer (sound : Sound setting verifier) {id : Nat} (call : Call Number)
    (allowed : call.jwt.algorithm ∈ setting.config.algorithms) :
    Sound setting
      (verifier.put id call (.done (setting.answer verifier.shared.memory call.jwt call.now))
        verifier.shared) := by
  refine sound.put_same_memory call (sound.marked.put_quiet rfl rfl) rfl rfl allowed
    fun key verified ended => ?_
  exact answer_accepted sound.remembered allowed (Phase.done.inj ended)

/-- A call that starts a fetch: no mark was set, and its time is the last start from now on. -/
theorem enter_fetches (sound : Sound setting verifier) {id : Nat} {jwt : SignedJwt} {now : Int64}
    (allowed : jwt.algorithm ∈ setting.config.algorithms)
    (free : verifier.shared.fetching = false)
    (due : ∀ last, verifier.shared.memory.lastFetch = some last →
      now < last ∨ minFetchIntervalSecs ≤ now - last) :
    Sound setting
      { verifier.put id ⟨jwt, now, .fetching⟩ .fetching
          { verifier.shared with
            fetching := true, memory := verifier.shared.memory.recordFailed now } with
        started := verifier.started ++ [now] } where
  marked :=
    have taken : Marked (verifier.put id ⟨jwt, now, .fetching⟩ .fetching { verifier.shared with
        fetching := true, memory := verifier.shared.memory.recordFailed now }) :=
      sound.marked.put_take free rfl
    ⟨taken.set, taken.alone⟩
  lastFetch := by simp [KeyMemory.recordFailed]
  current other found there asks := by
    by_cases different : other = id
    · subst different
      rw [show _ = _ from put_calls_self verifier other ⟨jwt, now, .fetching⟩ .fetching _] at there
      cases there
      rfl
    · rw [show _ = _ from put_calls_of_ne verifier id _ _ _ other different] at there
      have owns : verifier.Owns other := by
        refine ⟨found, there, ?_⟩
        cases phase_eq : found.phase <;> rw [phase_eq] at asks <;>
          simp_all [Phase.asks, Phase.owns]
      have mark := sound.marked.set other owns
      rw [free] at mark
      cases mark
  spaced := by
    refine List.isChain_append.mpr ⟨sound.spaced, List.isChain_singleton _, ?_⟩
    intro last isLast later isLater
    simp only [List.head?_cons, Option.mem_def, Option.some.injEq] at isLater
    subst isLater
    have known : verifier.shared.memory.lastFetch = some last := sound.lastFetch.trans isLast
    by_cases back : now < last
    · exact Or.inl (Int64.lt_iff_toInt_lt.mp back)
    · exact Or.inr (interval_le_of_sub last now back ((due last known).resolve_left back))
  remembered := sound.remembered
  origin fetch member := List.mem_append_left _ (sound.origin fetch member)
  allowed other found there := by
    by_cases different : other = id
    · subst different
      rw [show _ = _ from put_calls_self verifier other ⟨jwt, now, .fetching⟩ .fetching _] at there
      cases there
      exact allowed
    · rw [show _ = _ from put_calls_of_ne verifier id _ _ _ other different] at there
      exact sound.allowed other found there
  accepted other found key verified there ended := by
    by_cases different : other = id
    · subst different
      rw [show _ = _ from put_calls_self verifier other ⟨jwt, now, .fetching⟩ .fetching _] at there
      cases there
      cases ended
    · rw [show _ = _ from put_calls_of_ne verifier id _ _ _ other different] at there
      exact sound.accepted other found key verified there ended

/-- A fetch that brought keys: they replace those remembered, until its lifetime ends. -/
theorem fetched (sound : Sound setting verifier) {id : Nat} {call : Call Number}
    (there : verifier.calls id = some call) (fetching : call.phase = .fetching)
    (keys : List PublicKey) (lifetime : Int64) (inRange : LifetimeInRange lifetime) :
    Sound setting
      { verifier.put id call .recorded { verifier.shared with
          memory := verifier.shared.memory.recordFetched keys lifetime call.now } with
        brought := verifier.brought ++ [⟨call.now, keys, lifetime⟩] } where
  marked :=
    have held : verifier.Owns id := ⟨call, there, by rw [fetching]; rfl⟩
    have stays : Marked (verifier.put id call .recorded { verifier.shared with
        memory := verifier.shared.memory.recordFetched keys lifetime call.now }) :=
      sound.marked.put_stay held rfl
    ⟨stays.set, stays.alone⟩
  lastFetch := by
    have own := sound.current id call there (by rw [fetching]; rfl)
    exact own.symm.trans sound.lastFetch
  current other found inside asks := by
    by_cases different : other = id
    · subst different
      rw [show _ = _ from put_calls_self verifier other call .recorded _] at inside
      cases inside
      cases asks
    · -- Another call that asks would hold the mark too.
      rw [show _ = _ from put_calls_of_ne verifier id _ _ _ other different] at inside
      have owns : verifier.Owns other := by
        refine ⟨found, inside, ?_⟩
        cases phase_eq : found.phase <;> rw [phase_eq] at asks <;>
          simp_all [Phase.asks, Phase.owns]
      exact absurd (sound.marked.alone other id owns ⟨call, there, by rw [fetching]; rfl⟩) different
  spaced := sound.spaced
  remembered :=
    Or.inr ⟨⟨call.now, keys, lifetime⟩, List.mem_append_right _ (List.mem_singleton.mpr rfl), rfl,
      rfl, inRange⟩
  origin fetch member := by
    rcases List.mem_append.mp member with earlier | new
    · exact sound.origin fetch earlier
    · have own := sound.current id call there (by rw [fetching]; rfl)
      rw [List.mem_singleton.mp new]
      exact List.mem_of_getLast? (sound.lastFetch.symm.trans own)
  allowed other found inside := by
    by_cases different : other = id
    · subst different
      rw [show _ = _ from put_calls_self verifier other call .recorded _] at inside
      cases inside
      exact sound.allowed other call there
    · rw [show _ = _ from put_calls_of_ne verifier id _ _ _ other different] at inside
      exact sound.allowed other found inside
  accepted other found key verified inside ended := by
    by_cases different : other = id
    · subst different
      rw [show _ = _ from put_calls_self verifier other call .recorded _] at inside
      cases inside
      cases ended
    · rw [show _ = _ from put_calls_of_ne verifier id _ _ _ other different] at inside
      exact (sound.accepted other found key verified inside ended).mono _

/-- A fetch that brought no keys: its call answers later, or panicked and dropped its guard. -/
theorem lost (sound : Sound setting verifier) {id : Nat} {call : Call Number}
    {after : Verifier Number} (there : verifier.calls id = some call)
    (fetching : call.phase = .fetching) (ended : FetchLost setting verifier id call after) :
    Sound setting after := by
  have held : verifier.Owns id := ⟨call, there, by rw [fetching]; rfl⟩
  have allowed := sound.allowed id call there
  cases ended with
  | failed source failure ended =>
    exact sound.put_same_memory call (sound.marked.put_stay held rfl) rfl rfl allowed
      fun _ _ absent => by cases absent
  | panicked =>
    exact sound.put_same_memory call (sound.marked.put_drop held rfl) rfl rfl allowed
      fun _ _ absent => by cases absent

theorem step (sound : Sound setting verifier) {after : Verifier Number}
    (next : VerifierStep setting verifier after) : Sound setting after := by
  cases next with
  | enter id token jwt now fresh parsed shared phase entered =>
    have allowed := parse_allowed parsed
    have outcome := entered ▸ enter_spec setting verifier.shared jwt now
    cases outcome with
    | answered => exact sound.put_answer ⟨jwt, now, _⟩ allowed
    | waits going =>
      exact sound.put_same_memory ⟨jwt, now, _⟩ (sound.marked.put_quiet rfl rfl) rfl rfl
        allowed fun _ _ absent => by cases absent
    | fetches free due => exact sound.enter_fetches allowed free due
  | wake id call completed there waiting ended =>
    exact sound.put_answer call (sound.allowed id call there)
  | timeOut id call completed there waiting going =>
    exact sound.put_same_memory call (sound.marked.put_quiet rfl rfl) rfl rfl
      (sound.allowed id call there) fun _ _ absent => by cases absent
  | fetched id call there fetching source keys lifetime ended =>
    exact sound.fetched there fetching keys lifetime (fetchKeys_inRange _ _ source keys lifetime ended)
  | lost after id call there fetching ended => exact sound.lost there fetching ended
  | clear id call there recorded =>
    have held : verifier.Owns id := ⟨call, there, by rw [recorded]; rfl⟩
    exact sound.put_same_memory call (sound.marked.put_drop held rfl) rfl rfl
      (sound.allowed id call there) fun _ _ absent => by cases absent
  | finish id call there cleared => exact sound.put_answer call (sound.allowed id call there)

theorem of_reached (reached : verifier.Reached setting) : Sound setting verifier :=
  reached.invariant (Sound setting) (Sound.new setting)
    fun _ _ _ sound next => sound.step next

end Sound

/-! ### A fetch that brings no keys leaves those remembered -/

theorem AsksWith.step {setting : Setting Number} {keys : List PublicKey} {expiresAt : Int64}
    {id : Nat} {verifier after : Verifier Number} (sound : Sound setting verifier)
    (asks : AsksWith keys expiresAt id verifier) (next : VerifierStep setting verifier after) :
    AsksWith keys expiresAt id after := by
  cases next with
  | enter other token jwt now fresh parsed shared phase entered =>
    have different : id ≠ other := by
      rintro rfl
      obtain ⟨_, there, _⟩ := asks
      rw [fresh] at there
      cases there
    have outcome := entered ▸ enter_spec setting verifier.shared jwt now
    cases outcome with
    | answered => exact asks.put_of_ne different ⟨rfl, rfl⟩
    | waits going => exact asks.put_of_ne different ⟨rfl, rfl⟩
    | fetches free due =>
      have stays : AsksWith keys expiresAt id (verifier.put other ⟨jwt, now, .fetching⟩ .fetching
          { verifier.shared with
            fetching := true, memory := verifier.shared.memory.recordFailed now }) :=
        asks.put_of_ne different ⟨rfl, rfl⟩
      exact stays
  | wake other call completed there waiting ended => exact asks.put rfl rfl
  | timeOut other call completed there waiting going => exact asks.put rfl rfl
  | fetched other call there fetching source brought lifetime ended =>
    by_cases different : id = other
    · subst different
      exact ⟨_, Function.update_self _ _ _, fun asking => by cases asking⟩
    · obtain ⟨found, inside, held⟩ := asks
      refine ⟨found, (Function.update_of_ne different _ _).trans inside, fun asking => ?_⟩
      -- The call that brings keys holds the mark alone, so this one does not ask.
      have owns : verifier.Owns id := by
        refine ⟨found, inside, ?_⟩
        cases phase_eq : found.phase <;> rw [phase_eq] at asking <;>
          simp_all [Phase.asks, Phase.owns]
      exact absurd (sound.marked.alone id other owns ⟨call, there, by rw [fetching]; rfl⟩) different
  | lost after other call there fetching ended =>
    cases ended with
    | failed source failure ended => exact asks.put rfl rfl
    | panicked => exact asks.put rfl rfl
  | clear other call there recorded => exact asks.put rfl rfl
  | finish other call there cleared => exact asks.put rfl rfl

/-- Whole seconds, which a double holds exactly. -/
instance : Double Int where
  ofInt := id
  add := (· + ·)
  lt first second := decide (first < second)
  le first second := decide (first ≤ second)

end Dagq.Oidc
