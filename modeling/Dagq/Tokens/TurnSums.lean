/-
This file proves what the tokens that a run's turns record sum to: those of a Claude session to
its last running totals, and those of a Codex thread to at most its total, each under the
condition that nothing recorded before is counted again.
-/

import Dagq.Tokens.ThreadSums

namespace Dagq.Tokens

open Lib Ledger

/-- The own tokens of a session's turns sum to its last running totals just when every turn that
resumed it tells where the earlier totals are from; the tokens of a thread's turns sum to at most
what it used, each root turn counted once, where every turn counts only what was not recorded. -/
theorem turnTokens_sums {Cost : Type} [Costs Cost] (session thread : String) :
    (∀ events : List (TurnEvent Cost), Along (NeverFalls session) events →
      (Throughout (fun earlier => (tallyOf session earlier).AddsUp) events ↔
        Along (Tells session) events)) ∧
    ∀ steps : List (ThreadStep Cost),
      Along (fun earlier step => Sound thread (Thread.run thread earlier) step) steps →
      Along (fun earlier step => CountsUnrecorded thread (Thread.run thread earlier) step) steps →
      Throughout (fun earlier =>
        (∀ kind, recorded (Thread.run thread earlier).events thread kind ≤
          usedBy (Thread.run thread earlier).turns kind) ∧
        (countedRolloutTurns (Thread.run thread earlier).events thread).Nodup) steps := by
  refine ⟨fun events neverFalls => addsUp_throughout_iff neverFalls, ?_⟩
  intro steps sound unrecorded earlier isPrefix
  exact ⟨(bounded_throughout sound unrecorded earlier isPrefix).within,
    counted_once sound earlier isPrefix⟩

/-! ### Runs of two turns -/

/-- A turn that started a session and one that resumed it, with the totals each recorded. -/
def twoTurns (first second : List (ModelTokens Int)) : List (TurnEvent Int) :=
  [.started (some 1) false,
    .finished { turn := 1, sessionId := some "session", tokensTotalByModel := some first },
    .started (some 2) true,
    .finished { turn := 2, sessionId := some "session", tokensTotalByModel := some second }]

/-- The tokens of one kind. -/
def inputs (count : Int) : Counts := fun kind => if kind = .input then count else 0

theorem neverFalls_twoTurns {first second : List (ModelTokens Int)} (isFirst : Totals first)
    (isSecond : Totals second)
    (above : ∀ model kind, countFor first model kind ≤ countFor second model kind) :
    Along (NeverFalls "session") (twoTurns first second) := by
  simp only [twoTurns, along_cons, along_nil, and_true]
  refine ⟨?_, ?_, ?_, ?_⟩
  · rintro _ ⟨⟩
  · rintro _ ⟨⟩ _ ⟨⟩
    exact ⟨isFirst.names, isFirst.fits, isFirst.nonneg⟩
  · rintro _ ⟨⟩
  · rintro _ ⟨⟩ _ ⟨⟩
    exact ⟨isSecond.names, isSecond.fits, above⟩

theorem inputs_bounds {count : Int} (low : 0 ≤ count) (high : count ≤ i64Max) (kind : TokenKind) :
    0 ≤ inputs count kind ∧ inputs count kind ≤ i64Max := by
  rw [inputs]
  split
  · exact ⟨low, high⟩
  · exact ⟨le_rfl, low.trans high⟩

/-- Models with input tokens only. -/
def inputsOf (models : List (String × Int)) : List (ModelTokens Int) :=
  models.map fun model => { model := model.1, counts := inputs model.2 }

theorem totals_inputsOf {models : List (String × Int)} (names : (models.map Prod.fst).Nodup)
    (bounds : ∀ model ∈ models, 0 ≤ model.2 ∧ model.2 ≤ i64Max) : Totals (inputsOf models) where
  names := by rwa [inputsOf, List.map_map]
  fits := by
    intro entry member kind
    obtain ⟨model, isModel, rfl⟩ := List.mem_map.mp member
    exact (inputs_bounds (bounds model isModel).1 (bounds model isModel).2 kind).2
  nonneg := by
    intro name kind
    refine List.sum_nonneg fun count isCount => ?_
    obtain ⟨entry, member, rfl⟩ := List.mem_map.mp isCount
    obtain ⟨model, isModel, rfl⟩ := List.mem_map.mp member
    split
    · exact (inputs_bounds (bounds model isModel).1 (bounds model isModel).2 kind).1
    · exact le_rfl

/-- A root turn with input tokens only, and its one record. -/
def rootTurn (id : String) (count : Int) : RootTurn := ⟨id, inputs count⟩

def recordOf (id : String) (count : Int) : UsageRecord Int where
  threadId := "thread"
  rootTurnId := id
  responseId := some id
  tokens := { counts := inputs count, messages := 1 }

/-- Rollouts of these root turns. -/
def rolloutOf (turns : List (String × Int)) : RolloutUsage Int where
  threadId := "thread"
  turns := turns.map Prod.fst
  records := turns.map fun turn => recordOf turn.1 turn.2

/-- A turn of the thread, in which one root turn ran. -/
def executionOf (turn : Nat) (id : String) (count : Int)
    (rollout : Except String (RolloutUsage Int)) : ThreadStep Int :=
  .execution { turn := turn, ran := [rootTurn id count], completed := true, rollout := rollout }

theorem sound_executionOf {state : Thread Int} {turn : Nat} {id : String} {count : Int}
    {rollout : Except String (RolloutUsage Int)} (low : 0 ≤ count)
    (fits : ∀ kind, usedBy (state.turns ++ [rootTurn id count]) kind ≤ i64Max)
    (accounts : ∀ read, rollout = .ok read → Accounts (state.turns ++ [rootTurn id count]) read) :
    Sound "thread" state (executionOf turn id count rollout) := by
  refine ⟨fun turn member kind => ?_, fits, accounts⟩
  obtain rfl := List.mem_singleton.mp member
  show 0 ≤ inputs count kind
  rw [inputs]
  split
  · exact low
  · exact le_rfl

theorem accounts_first : Accounts [rootTurn "first" 10] (rolloutOf [("first", 10)]) where
  listed := by
    intro id member
    obtain rfl := List.mem_singleton.mp member
    exact ⟨_, List.mem_cons_self, rfl⟩
  once := by decide
  nonneg := by
    intro record member kind
    obtain rfl := List.mem_singleton.mp member
    cases kind <;> decide
  used := by
    intro turn member _ kind
    obtain rfl := List.mem_singleton.mp member
    cases kind <;> decide

/-- The totals of a session that names a model anew, and a thread whose second turn falls back. -/
theorem turnTokens_sums_twoTurns :
    Throughout (fun earlier => (tallyOf "session" earlier).AddsUp)
        (twoTurns (inputsOf [("opus", 5)]) (inputsOf [("haiku", 1), ("opus", 8)])) ∧
      Throughout (fun earlier =>
        (∀ kind, recorded (Thread.run "thread" earlier).events "thread" kind ≤
          usedBy (Thread.run "thread" earlier).turns kind) ∧
        (countedRolloutTurns (Thread.run "thread" earlier).events "thread").Nodup)
        [executionOf 1 "first" 10 (.ok (rolloutOf [("first", 10)])),
          executionOf 2 "second" 5 (.error "rollout_unreadable")] := by
  have sums := @turnTokens_sums Int _ "session" "thread"
  refine ⟨(sums.1 _ ?_).mpr ?_, sums.2 _ ?_ ?_⟩
  · refine neverFalls_twoTurns (totals_inputsOf (by decide) (by decide))
      (totals_inputsOf (by decide) (by decide)) fun model kind => ?_
    simp only [inputsOf, inputs, List.map_cons, List.map_nil, countFor_cons, countFor_nil]
    split_ifs <;> omega
  · simp only [twoTurns, along_cons, along_nil, and_true]
    refine ⟨?_, ?_, ?_, ?_⟩
    · rintro _ ⟨⟩
    · rintro _ ⟨⟩ _ ⟨⟩ isResumed
      exact absurd isResumed (by decide)
    · rintro _ ⟨⟩
    · rintro _ ⟨⟩ _ ⟨⟩ _ _ ⟨⟩
      refine Or.inr ⟨fun fell => ?_, fun isNone => absurd isNone (Option.some_ne_none _)⟩
      obtain ⟨before, member, missing | ⟨kind, isLess⟩⟩ := fell
      · obtain rfl := List.mem_singleton.mp member
        exact absurd missing (by decide)
      · obtain rfl := List.mem_singleton.mp member
        cases kind <;> exact absurd isLess (by decide)
  · simp only [along_cons, along_nil, and_true]
    refine ⟨sound_executionOf (by decide) (fun kind => ?_) ?_,
      sound_executionOf (by decide) (fun kind => ?_) ?_⟩
    · cases kind <;> decide
    · rintro _ ⟨⟩
      exact accounts_first
    · cases kind <;> decide
    · rintro _ ⟨⟩
  · simp only [along_cons, along_nil, and_true]
    refine ⟨?_, ?_⟩
    · rintro _ _ ⟨⟩ ⟨⟩ kind
      cases kind <;> decide
    · rintro _ _ ⟨⟩ ⟨⟩

theorem accounts_both :
    Accounts [rootTurn "first" 10, rootTurn "second" 5] (rolloutOf [("first", 10), ("second", 5)]) where
  listed := by
    intro id member
    obtain rfl | rfl := List.mem_pair.mp member
    · exact ⟨_, List.mem_cons_self, rfl⟩
    · exact ⟨_, List.mem_cons_of_mem _ List.mem_cons_self, rfl⟩
  once := by decide
  nonneg := by
    intro record member kind
    obtain rfl | rfl := List.mem_pair.mp member <;> cases kind <;> decide
  used := by
    intro turn member _ kind
    obtain rfl | rfl := List.mem_pair.mp member <;> cases kind <;> decide

/-- A model of the earlier totals that used nothing is missing from the next, whose tokens are all
counted again; and a root turn counted from the thread's total is counted again from the rollouts. -/
theorem twoTurns_counted_again :
    (Along (NeverFalls "session")
        (twoTurns (inputsOf [("haiku", 0), ("opus", 5)]) (inputsOf [("opus", 8)])) ∧
      ¬ (tallyOf "session"
        (twoTurns (inputsOf [("haiku", 0), ("opus", 5)]) (inputsOf [("opus", 8)]))).AddsUp) ∧
    Along (fun earlier step => Sound "thread" (Thread.run "thread" earlier) step)
        [executionOf 1 "first" 10 (.error "rollout_unreadable"),
          executionOf 2 "second" 5 (.ok (rolloutOf [("first", 10), ("second", 5)]))] ∧
      usedBy (Thread.run "thread" [executionOf 1 "first" 10 (.error "rollout_unreadable"),
          executionOf 2 "second" 5 (.ok (rolloutOf [("first", 10), ("second", 5)]))]).turns .input <
        recorded (Thread.run "thread" [executionOf 1 "first" 10 (.error "rollout_unreadable"),
          executionOf 2 "second" 5 (.ok (rolloutOf [("first", 10), ("second", 5)]))]).events
          "thread" .input := by
  refine ⟨⟨?_, fun addsUp => ?_⟩, ?_, by decide⟩
  · refine neverFalls_twoTurns (totals_inputsOf (by decide) (by decide))
      (totals_inputsOf (by decide) (by decide)) fun model kind => ?_
    simp only [inputsOf, inputs, List.map_cons, List.map_nil, countFor_cons, countFor_nil]
    split_ifs <;> omega
  · exact absurd (addsUp "opus" .input) (by decide)
  · simp only [along_cons, along_nil, and_true]
    refine ⟨sound_executionOf (by decide) (fun kind => ?_) ?_,
      sound_executionOf (by decide) (fun kind => ?_) ?_⟩
    · cases kind <;> decide
    · rintro _ ⟨⟩
    · cases kind <;> decide
    · rintro _ ⟨⟩
      exact accounts_both

end Dagq.Tokens
