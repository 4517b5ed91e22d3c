/-
This file models what the executor of a run's container leaves in the run
directory: the mark it makes in the run's state as a turn starts, and at the
turn's end the run's bundle, the clone's work and the state, in that order and
each file whole. The control side takes the work where the state and the work
say that one turn's end wrote both.

A turn is cut off, or fails, between any two of its own writes; the state is lost
between turns. Beside the files, the system watches which turn's end wrote what
stands in the place of the state and of the work.
-/

import Dagq.Clone.Work
import Dagq.Lib.Checks
import Dagq.Lib.Transition

namespace Dagq.Clone

open Dagq.Lib

/-! ### The files -/

/-- The run's state as the executor read it in the clone at the end of a turn, marked at the start
of the next. -/
structure RunState where
  branch : Option String
  head : String
  status : String
  rebaseInProgress : Bool
  /-- Whether it is of the end of the last turn started; absent where no turn is marked. -/
  turnEnded : Option Bool
  /-- Which turn's end wrote it, counted up from 1. -/
  generation : Option Nat
  deriving DecidableEq, Repr

/-- The work read in the clone at the end of a turn. -/
structure CloneWork where
  generation : Nat
  head : String
  gitOperation : Option String := none
  /-- Why the work could not be written whole. -/
  refused : Option String := none
  parts : List Part := []
  deriving DecidableEq, Repr

/-- What stands in the place of the run's state. -/
inductive StateFound where
  | nothing
  | state (state : RunState)
  /-- A plain file that is no state, or a symlink. -/
  | unreadable
  /-- Something no write replaces. -/
  | other
  deriving DecidableEq, Repr

inductive TurnStart where
  | leave
  | mark (state : RunState)
  | remove
  deriving DecidableEq, Repr

/-! ### What is decided of them -/

def RunState.ofTheLastTurn (state : RunState) : Bool := state.turnEnded == some true

/-- The generation of the state a turn's end writes, after the one found. -/
def nextGeneration (last : Option RunState) : Nat :=
  (last.bind RunState.generation).getD 0 + 1

/-- What a turn's start does with what it found. -/
def turnStart : StateFound → TurnStart
  | .state state => .mark { state with turnEnded := some false }
  | .unreadable => .remove
  | .nothing | .other => .leave

/-- Whether the work is of the end of the last turn, whose state this is, on the head imported. -/
def checkWork (state : RunState) (imported : String) (work : CloneWork) : Except String Unit :=
  if !state.ofTheLastTurn then
    .error "the run's state is not of the end of its last turn (that turn was cut off)"
  else match state.generation with
    | none => .error "the run's state has no generation to match its work with"
    | some generation =>
      if work.generation ≠ generation then
        .error (s!"the work written is of generation {work.generation}, the run's state of " ++
          s!"{generation}")
      else if work.head ≠ state.head then
        .error (s!"the work written is on {work.head}, the run's state on {state.head}")
      else if state.head.toLower ≠ imported then
        .error (s!"the clone's HEAD {state.head} is not the run branch's head {imported}")
      else match work.gitOperation.or (if state.rebaseInProgress then some "rebase" else none) with
        | some operation => .error (s!"a {operation} is in progress in the clone")
        | none => match work.refused with
          | some why => .error (s!"the work could not be written whole: {why}")
          | none => .ok ()

/-- The state in its place, if it reads as one. -/
def readState : StateFound → Option RunState
  | .state state => some state
  | _ => none

/-- What stands in the state's place once a turn started. -/
def markTurnStarted (found : StateFound) : StateFound :=
  match turnStart found with
  | .leave => found
  | .mark state => .state state
  | .remove => .nothing

/-- Work taken as the last turn's is of the state's generation, and the state of the last turn. -/
theorem checkWork_ok {state : RunState} {imported : String} {work : CloneWork}
    (taken : checkWork state imported work = .ok ()) :
    state.turnEnded = some true ∧ state.generation = some work.generation := by
  unfold checkWork at taken
  split at taken
  · cases taken
  · rename_i last
    have ended : state.ofTheLastTurn = true := by simpa using last
    refine ⟨eq_of_beq ended, ?_⟩
    split at taken
    · cases taken
    · rename_i generation isGeneration
      split at taken
      · cases taken
      · rename_i same
        rw [isGeneration, not_not.mp same]

/-- No state a turn's start leaves is of the turn's end. -/
theorem markTurnStarted_state {found : StateFound} {state : RunState}
    (left : markTurnStarted found = .state state) : state.turnEnded = some false := by
  cases found with
  | state old =>
    cases left
    rfl
  | nothing => cases left
  | unreadable => cases left
  | other => cases left

/-- The generation after the state a turn's start leaves is the one after the state it found. -/
theorem nextGeneration_mark (found : StateFound) :
    nextGeneration (readState (markTurnStarted found)) = nextGeneration (readState found) := by
  cases found <;> rfl

/-! ### Turns -/

/-- What a turn's end reads in the clone. -/
structure TurnFacts where
  branch : Option String
  head : String
  status : String
  rebaseInProgress : Bool

/-- The clone's work, where it can be read: the rest of it is the turn's. -/
structure FoundWork where
  gitOperation : Option String
  refused : Option String
  parts : List Part

inductive Phase where
  | between
  /-- The turn started, and has ended nothing yet. -/
  | running
  | bundled (facts : TurnFacts)
  | worked (facts : TurnFacts) (generation : Nat)

structure Turns where
  state : StateFound
  /-- The head of the run's bundle. -/
  bundle : Option String
  work : Option CloneWork
  phase : Phase
  /-- The turns started. -/
  started : Nat
  /-- Watched: the turn whose end wrote the state in place. -/
  stateBy : Option Nat
  /-- Watched: the turn whose end wrote the work in place. -/
  workBy : Option Nat

namespace Turns

/-- A run whose container had no turn. -/
def fresh : Turns where
  state := .nothing
  bundle := none
  work := none
  phase := .between
  started := 0
  stateBy := none
  workBy := none

variable (turns : Turns)

/-- A turn starts, one with an agent or one for the facts only. -/
def start : Turns :=
  { turns with
    state := markTurnStarted turns.state
    phase := .running
    started := turns.started + 1
    stateBy := none }

/-- The turn's end writes the run's bundle, or removes it where the branch has no new commit. -/
def writeBundle (facts : TurnFacts) (tip : Option String) : Turns :=
  { turns with bundle := tip, phase := .bundled facts }

/-- The turn's end writes the clone's work, or removes it where it cannot be read. -/
def writeWork (facts : TurnFacts) (found : Option FoundWork) : Turns :=
  let generation := nextGeneration (readState turns.state)
  { turns with
    work := found.map fun found =>
      { generation := generation, head := facts.head, gitOperation := found.gitOperation,
        refused := found.refused, parts := found.parts }
    workBy := found.map fun _ => turns.started
    phase := .worked facts generation }

/-- The turn's end writes the state, and the turn is over. -/
def writeState (facts : TurnFacts) (generation : Nat) : Turns :=
  { turns with
    state := .state
      { branch := facts.branch, head := facts.head, status := facts.status,
        rebaseInProgress := facts.rebaseInProgress, turnEnded := some true,
        generation := some generation }
    stateBy := some turns.started
    phase := .between }

/-- The turn is cut off, or the step it is at failed. -/
def cut : Turns := { turns with phase := .between }

/-- The state in place is lost. -/
def lose (found : StateFound) : Turns := { turns with state := found, stateBy := none }

end Turns

/-- A step of the turn that is under way. -/
inductive WithinTurn : Turns → Turns → Prop where
  | bundle (turns : Turns) (facts : TurnFacts) (tip : Option String)
      (running : turns.phase = .running) : WithinTurn turns (turns.writeBundle facts tip)
  | work (turns : Turns) (facts : TurnFacts) (found : Option FoundWork)
      (bundled : turns.phase = .bundled facts) : WithinTurn turns (turns.writeWork facts found)
  /-- A write over something no write replaces fails: the turn is cut off. -/
  | state (turns : Turns) (facts : TurnFacts) (generation : Nat)
      (worked : turns.phase = .worked facts generation) (plain : turns.state ≠ .other) :
      WithinTurn turns (turns.writeState facts generation)
  | cut (turns : Turns) (begun : turns.phase ≠ .between) : WithinTurn turns turns.cut

inductive TurnStep : Turns → Turns → Prop where
  | start (turns : Turns) (idle : turns.phase = .between) : TurnStep turns turns.start
  | within (turns after : Turns) (step : WithinTurn turns after) : TurnStep turns after
  | lose (turns : Turns) (found : StateFound) (idle : turns.phase = .between)
      (lost : readState found = none) : TurnStep turns (turns.lose found)

/-! ### One turn's end wrote both -/

/-- A state of a turn's end stands between turns only, and is of the last turn started, as the work
beside it is. -/
structure OfOneTurn (turns : Turns) : Prop where
  ended : ∀ state, turns.state = .state state → state.turnEnded = some true →
    turns.phase = .between ∧ turns.stateBy = some turns.started ∧
      (turns.work.isSome = true → turns.workBy = some turns.started)
  worked : ∀ facts generation, turns.phase = .worked facts generation → turns.work.isSome = true →
    turns.workBy = some turns.started
  known : ∀ turn, turns.workBy = some turn → turn ≤ turns.started

theorem ofOneTurn_fresh : OfOneTurn .fresh where
  ended := nofun
  worked := nofun
  known := nofun

theorem OfOneTurn.within {turns after : Turns} (held : OfOneTurn turns)
    (step : WithinTurn turns after) : OfOneTurn after := by
  -- while a turn is under way, no state of a turn's end stands
  have begun : turns.phase ≠ .between → ∀ state, turns.state = .state state →
      state.turnEnded ≠ some true := fun busy state isState ended =>
    busy (held.ended state isState ended).1
  cases step with
  | bundle facts tip running =>
    have busy : turns.phase ≠ .between := fun idle => by rw [running] at idle; cases idle
    exact ⟨fun state isState ended => absurd ended (begun busy state isState),
      nofun, held.known⟩
  | work facts found bundled =>
    have busy : turns.phase ≠ .between := fun idle => by rw [bundled] at idle; cases idle
    refine ⟨fun state isState ended => absurd ended (begun busy state isState),
      fun _ _ _ isSome => ?_, fun turn isTurn => ?_⟩
    · cases found with
      | none => cases isSome
      | some found => rfl
    · cases found with
      | none => cases isTurn
      | some found =>
        cases isTurn
        exact Nat.le_refl _
  | state facts generation worked plain =>
    exact ⟨fun state _ _ => ⟨rfl, rfl, held.worked facts generation worked⟩,
      nofun, held.known⟩
  | cut busy =>
    exact ⟨fun state isState ended => absurd ended (begun busy state isState),
      nofun, held.known⟩

theorem OfOneTurn.step {turns after : Turns} (held : OfOneTurn turns)
    (step : TurnStep turns after) : OfOneTurn after := by
  cases step with
  | start idle =>
    refine ⟨fun state isState ended => ?_, nofun, fun turn isTurn =>
      Nat.le_succ_of_le (held.known turn isTurn)⟩
    rw [markTurnStarted_state isState] at ended
    cases ended
  | within _ step => exact held.within step
  | lose found idle lost =>
    refine ⟨fun state isState _ => ?_, held.worked, held.known⟩
    rw [show found = .state state from isState] at lost
    cases lost

/-! ### One turn after the state was read -/

/-- What holds while a turn is under way, and once it is over, of the work it writes: it is of the
generation after the one the turn found. -/
structure OneGenerationOn (turn generation : Nat) (turns : Turns) : Prop where
  started : turns.started = turn
  next : turns.phase ≠ .between → nextGeneration (readState turns.state) = generation
  own : turns.workBy = some turn → ∀ work, turns.work = some work → work.generation = generation

theorem OneGenerationOn.within {turn generation : Nat} {turns after : Turns}
    (held : OneGenerationOn turn generation turns) (step : WithinTurn turns after) :
    OneGenerationOn turn generation after := by
  cases step with
  | bundle facts tip running =>
    have busy : turns.phase ≠ .between := fun idle => by rw [running] at idle; cases idle
    exact ⟨held.started, fun _ => held.next busy, held.own⟩
  | work facts found bundled =>
    have busy : turns.phase ≠ .between := fun idle => by rw [bundled] at idle; cases idle
    refine ⟨held.started, fun _ => held.next busy, fun _ work isWork => ?_⟩
    cases found with
    | none => cases isWork
    | some found =>
      cases isWork
      exact held.next busy
  | state facts generation worked plain =>
    exact ⟨held.started, fun busy => absurd rfl busy, held.own⟩
  | cut busy => exact ⟨held.started, fun still => absurd rfl still, held.own⟩

/-- For every sequence of turns and losses of the state: work taken with the state in place was
written, as the state was, by the end of the last turn started; and with the state in place read
before one more turn, work is taken after that turn began only while the turn has written none. -/
theorem work_of_one_turn {turns : Turns} (reached : Reachable .fresh TurnStep turns)
    {state : RunState} (read : turns.state = .state state) :
    (∀ imported work, turns.work = some work → checkWork state imported work = .ok () →
      turns.stateBy = some turns.started ∧ turns.workBy = some turns.started) ∧
    (∀ later, Relation.ReflTransGen WithinTurn turns.start later → ∀ imported work,
      later.work = some work → checkWork state imported work = .ok () →
        later.workBy ≠ some turns.start.started) := by
  have held := reached.invariant OfOneTurn ofOneTurn_fresh fun _ _ _ held step => held.step step
  refine ⟨fun imported work isWork taken => ?_, fun later path imported work isWork taken own => ?_⟩
  · obtain ⟨_, byTurn, workBy⟩ := held.ended state read (checkWork_ok taken).1
    exact ⟨byTurn, workBy (by rw [isWork]; rfl)⟩
  · have begun : OneGenerationOn turns.start.started (nextGeneration (some state)) turns.start := by
      refine ⟨rfl, fun _ => ?_, fun isOwn => ?_⟩
      · show nextGeneration (readState (markTurnStarted turns.state)) = _
        rw [nextGeneration_mark, read]
        rfl
      · exact absurd (held.known _ isOwn) (Nat.not_succ_le_self _)
    have kept := path_invariant path (OneGenerationOn turns.start.started _) begun
      fun _ _ held step => held.within step
    have after := kept.own own work isWork
    rw [nextGeneration, Option.bind_some, (checkWork_ok taken).2, Option.getD_some] at after
    exact absurd after.symm (Nat.succ_ne_self _)

/-- A turn that ended with its work written. -/
def endedTurn : Turns :=
  let facts : TurnFacts := ⟨some "refs/heads/dagq/run", "c1", "", false⟩
  ((Turns.fresh.start.writeBundle facts (some "c1")).writeWork facts (some ⟨none, none, []⟩)).writeState
    facts 1

theorem reached_endedTurn : Reachable .fresh TurnStep endedTurn := by
  refine .step (.step (.step (.step .start (.start _ rfl)) (.within _ _ (.bundle _ _ _ rfl)))
    (.within _ _ (.work _ _ _ rfl))) (.within _ _ (.state _ _ _ rfl ?_))
  exact fun isOther => StateFound.noConfusion isOther

theorem work_of_one_turn_ended :
    endedTurn.stateBy = some 1 ∧ endedTurn.workBy = some 1 ∧
      ∀ imported work, endedTurn.start.work = some work →
        checkWork ⟨some "refs/heads/dagq/run", "c1", "", false, some true, some 1⟩ imported work =
          .ok () → endedTurn.start.workBy ≠ some 2 := by
  obtain ⟨taken, onward⟩ := @work_of_one_turn _ reached_endedTurn
    ⟨some "refs/heads/dagq/run", "c1", "", false, some true, some 1⟩ rfl
  obtain ⟨byState, byWork⟩ := taken "c1" ⟨1, "c1", none, none, []⟩ rfl (by decide +kernel)
  exact ⟨byState, byWork, onward _ .refl⟩

end Dagq.Clone
