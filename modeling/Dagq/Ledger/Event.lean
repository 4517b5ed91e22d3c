/-
This file models the events of the queue as their readers take them: a kind, the
task and the run they are of, a payload of JSON read key by key, and the text of
the time they were recorded at. A kind no reader here looks for is one of the
others, whether this program knows it or not.
-/

import Dagq.Ledger.Time

namespace Dagq.Ledger

/-! ### Payloads -/

inductive Value where
  | null
  | bool (value : Bool)
  /-- A number without a fraction or an exponent. -/
  | int (value : Int)
  /-- Any other number, as written. -/
  | real (digits : String)
  | text (value : String)
  | list (items : List Value)
  | object (fields : List (String × Value))

namespace Value

/-- A field of an object. -/
def get : Value → String → Option Value
  | object fields, key => (fields.find? fun field => field.1 == key).map Prod.snd
  | _, _ => none

/-- Set a field of an object, there or not. -/
def set : Value → String → Value → Value
  | object fields, key, value =>
    object ((key, value) :: fields.filter fun field => field.1 != key)
  | other, _, _ => other

def asStr : Value → Option String
  | text value => some value
  | _ => none

def asI64 : Value → Option Int
  | int value => checked value
  | _ => none

def asBool : Value → Option Bool
  | bool value => some value
  | _ => none

def asArray : Value → Option (List Value)
  | list items => some items
  | _ => none

end Value

/-! ### Events -/

inductive EventKind where
  | taskCreated
  | taskStatusChanged
  | taskHeld
  | taskReleased
  | taskHoldEnded
  | runClaimed
  | agentStarted
  | firstCommitObserved
  | receiptObserved
  | validationFinished
  | runPhaseChanged
  | runIntegrated
  | pushFinished
  | pushFailed
  | pushSkipped
  | slotsFullStarted
  | slotsFullEnded
  | claimHeld
  | claimResumed
  | landingHeld
  | landingResumed
  | claimDeferred
  | claimDeferralEnded
  | supervisorStopped
  | other (name : String)
  deriving DecidableEq, Repr

structure RunEvent where
  id : Nat
  taskId : Option Nat := none
  runId : Option String := none
  kind : EventKind
  payload : Value := .object []
  createdAt : String := ""

/-- A text of the payload. -/
def RunEvent.text (event : RunEvent) (key : String) : Option String :=
  (event.payload.get key).bind Value.asStr

/-- The time of an event, when it can be read. -/
def RunEvent.millis (event : RunEvent) : Option Int := timestampMillis event.createdAt

/-- Events by ascending id. -/
def Ascending (events : List RunEvent) : Prop :=
  events.Pairwise fun first second => first.id < second.id

/-- The ids of events have a bound. -/
theorem ids_below (events : List RunEvent) : ∃ upto, ∀ event ∈ events, event.id < upto := by
  refine ⟨(events.map (·.id)).sum + 1, fun event member => Nat.lt_succ_of_le ?_⟩
  exact List.single_le_sum (fun _ _ => Nat.zero_le _) _ (List.mem_map_of_mem member)

end Dagq.Ledger
