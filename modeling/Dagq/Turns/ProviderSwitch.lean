/-
This file models how a look at a headless run whose last turn ended at the wall
of its provider decides, from the recorded events alone: whether the turn is
answered already, by the switch made in its place or by a request after it, and
otherwise whether the run moves to the other provider, makes the call again on
its own, or waits.
-/

import Dagq.Turns.Event

namespace Dagq.Turns

inductive Provider where
  | claude
  | codex
  deriving DecidableEq, Repr

def Provider.other : Provider → Provider
  | claude => codex
  | codex => claude

/-- Why a provider cannot be used. -/
inductive SwitchReason where
  | disabled
  | executableMissing
  | authentication
  | usageLimit
  | launchFailed
  deriving DecidableEq, Repr

/-- The reason of a turn that failed so, if it says its provider cannot be used. -/
def SwitchReason.ofFailure : TurnFailure → Option SwitchReason
  | .authentication => some .authentication
  | .usageLimit => some .usageLimit
  | .launch => some .launchFailed
  | .model | .sandbox | .other => none

/-- How many times a run's worker may move between the providers. -/
def maxProviderSwitches : Nat := 2

/-! ### What the events say of a turn -/

def switches (events : List RunEvent) : Nat :=
  (events.filter fun event => event.kind == .providerSwitched).length

def maySwitch (events : List RunEvent) : Bool := switches events < maxProviderSwitches

/-- The switch made in place of turn `turn`, if one was. -/
def switchOfTurn (events : List RunEvent) (turn : Nat) : Option RunEvent :=
  events.reverse.find? fun event =>
    event.kind == .providerSwitched && event.payload.turn == some turn

/-- Whether an event is of a request other than the one a failed turn took: its number is past
`taken`, or it has none. -/
def requestedPast (event : RunEvent) (taken : Option Nat) : Bool :=
  event.kind == .turnRequested &&
    !taken.any fun taken => event.payload.seq.any fun seq => seq ≤ taken

/-- The request that answers the turn that ended at `finishedAt`: one recorded after it, other
than the request it took. -/
def requestAnswering (events : List RunEvent) (finishedAt : Nat) (taken : Option Nat) :
    Option RunEvent :=
  (events.drop finishedAt).find? fun event => requestedPast event taken

/-- Whether the run already waits for a provider after turn `turn`. -/
def waitingOn (events : List RunEvent) (turn : Nat) : Bool :=
  events.any fun event => event.kind == .providerWaiting && event.payload.turn == some turn

/-- The last end of a turn among the events, and where it is. -/
def lastFinished : List RunEvent → Option (Nat × RunEvent)
  | [] => none
  | event :: rest => match lastFinished rest with
    | some (index, finished) => some (index + 1, finished)
    | none => if event.isFinished then some (0, event) else none

/-! ### A look at the wall -/

/-- Whether a turn of `provider` that failed for `reason` stopped at a wall of Claude's that a
person's hold holds. -/
def claudeWall (provider : Provider) (reason : SwitchReason) : Bool :=
  provider == .claude && reason != .launchFailed

/-- A turn at the wall of its provider. -/
structure WallTurn where
  turn : Nat
  reason : SwitchReason
  request : Option Nat
  what : String
  message : String
  firstLook : Bool
  holdsProvider : Bool
  maySwitch : Bool
  deriving DecidableEq, Repr

inductive WallLook where
  | noTurn
  | answered (event : RunEvent)
  | notAWall
  | atWall (turn : WallTurn)
  deriving DecidableEq, Repr

/-- The look at the run's last turn, which failed with `failure` on `provider`. -/
def wallLook (events : List RunEvent) (failure : TurnFailure) (provider : Provider) : WallLook :=
  match lastFinished events with
  | none => .noTurn
  | some (finishedAt, finished) =>
    let turn := finished.payload.turn.getD 0
    match switchOfTurn events turn with
    | some switched => .answered switched
    | none =>
      let started := events.reverse.find? fun event =>
        event.isStarted && event.payload.turn == some turn
      let request := started.bind fun event => event.payload.request
      match requestAnswering events finishedAt request with
      | some requested => .answered requested
      | none => match SwitchReason.ofFailure failure with
        | none => .notAWall
        | some reason =>
          let firstLook := !waitingOn events turn
          .atWall
            { turn := turn
              reason := reason
              request := request
              what := (started.bind fun event => event.payload.what).getD ""
              message := finished.payload.message.getD "no message"
              firstLook := firstLook
              holdsProvider := firstLook && !claudeWall provider reason
              maySwitch := maySwitch events }

/-- What a run at the wall of its provider does on a look. -/
inductive WallMove where
  | switch
  | retry
  | wait (record : Bool)
  deriving DecidableEq, Repr

def wallMove (fallback maySwitch otherUsable firstLook ownHeld holdUnclosed : Bool) : WallMove :=
  if fallback && maySwitch && otherUsable then .switch
  else if !firstLook && !ownHeld && !holdUnclosed then .retry
  else .wait firstLook

def WallTurn.next (turn : WallTurn) (fallback otherUsable ownHeld holdUnclosed : Bool) : WallMove :=
  wallMove fallback turn.maySwitch otherUsable turn.firstLook ownHeld holdUnclosed

/-! ### The last end of a turn -/

theorem lastFinished_append (events : List RunEvent) (event : RunEvent) :
    lastFinished (events ++ [event]) =
      if event.isFinished then some (events.length, event) else lastFinished events := by
  induction events with
  | nil => rfl
  | cons first rest inductionHypothesis =>
    rw [List.cons_append, lastFinished, inductionHypothesis]
    by_cases finished : event.isFinished = true
    · simp only [finished, if_true, List.length_cons]
    · simp only [finished, Bool.false_eq_true, if_false, lastFinished]

/-- The last end of a turn is an end of a turn, at its place. -/
theorem lastFinished_spec {events : List RunEvent} {index : Nat} {finished : RunEvent}
    (last : lastFinished events = some (index, finished)) :
    index < events.length ∧ finished ∈ events ∧ finished.isFinished = true := by
  induction events generalizing index with
  | nil => cases last
  | cons first rest inductionHypothesis =>
    rw [lastFinished] at last
    split at last
    · rename_i place found there
      cases last
      obtain ⟨bound, member, ended⟩ := inductionHypothesis there
      exact ⟨Nat.succ_lt_succ bound, List.mem_cons_of_mem first member, ended⟩
    · rename_i absent
      split at last
      · rename_i ended
        cases last
        exact ⟨Nat.succ_pos rest.length, List.mem_cons_self, ended⟩
      · cases last

end Dagq.Turns
