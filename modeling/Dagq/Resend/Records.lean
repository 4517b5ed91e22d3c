/-
This file models which calls of the queue service are records of results, sent
again under one identity until the queue takes them, and which kept records may
be sent.
-/

import Dagq.Ledger.Event

namespace Dagq.Resend

open Dagq.Ledger

inductive UseCase where
  | supervisor
  | other (name : String)
  deriving DecidableEq, Repr

/-- The operations that record a result and that the queue takes once however often they are
sent. -/
def resentOps : List String :=
  ["record_runtime_event", "record_queue_event", "open_update_ask", "finish_integration",
    "register_follow_ups", "close_approve_landing_asks", "close_run_asks", "close_blocked_asks",
    "close_ended_landing_asks", "record_finding"]

/-- The kinds of events whose callers record again themselves what they could not record. -/
def ownRetryKinds : List String :=
  ["queue_service_down", "run_env_program_missing", "run_env_program_found", "run_env_changed",
    "container_runtime_unavailable", "container_runtime_available", "claim_held", "claim_resumed",
    "landing_held", "landing_resumed", "landing_recheck_main_failed", "landing_recheck_main_passed",
    "landing_recheck_target_unwritable", "landing_recheck_target_writable", "queue_broker_down",
    "queue_relay_down", "queue_relay_running"]

def jobEndOp : String := "end_headless_job"

/-- The operation of a call. -/
def op (params : Value) : Option String := (params.get "op").bind Value.asStr

/-- Whether a kept record may be sent. -/
def keptOp (params : Value) : Bool :=
  (op params).any fun op => resentOps.contains op || op == jobEndOp

/-- Whether a call is the record of a result, sent again while the service does not answer. -/
def resent (useCase : UseCase) (params : Value) : Bool :=
  let kind := ((params.get "args").bind Value.asArray).bind fun args => args.head?.bind Value.asStr
  let ownRetry := op params == some "record_queue_event" &&
    kind.any fun kind => ownRetryKinds.contains kind
  decide (useCase = .supervisor) && !ownRetry && (op params).any fun op => resentOps.contains op

/-- The params as the record of this identity; one given an identity keeps it. -/
def withRecord (params : Value) (record : String) : Value :=
  match params.get "record" with
  | none | some .null => params.set "record" (.text record)
  | some _ => params

/-- The identity of a record, which the queue takes once. -/
def identity (params : Value) : Option Value :=
  match params.get "record" with
  | none | some .null => none
  | some named => some named

/-- Why the records kept wait to be sent. -/
inductive Behind where
  | busy
  | unanswered
  deriving DecidableEq, Repr

/-- What a sending is answered; an answer lost may leave it done. -/
inductive Answer where
  | ok
  | refused
  | busy
  | unreachable (done : Bool)
  deriving DecidableEq, Repr

/-- Why a record was not taken, to be sent again. -/
def Answer.notTaken : Answer → Option Behind
  | busy => some .busy
  | unreachable _ => some .unanswered
  | ok | refused => none

/-- The record of a result may be sent when it is kept. -/
theorem keptOp_of_resent {useCase : UseCase} {params : Value}
    (isRecord : resent useCase params = true) : keptOp params = true := by
  have named := (Bool.and_eq_true_iff.mp isRecord).2
  unfold keptOp
  cases isOp : op params with
  | none =>
    rw [isOp] at named
    cases named
  | some name =>
    rw [isOp] at named
    show (resentOps.contains name || name == jobEndOp) = true
    rw [show resentOps.contains name = true from named]
    rfl

/-- A record of a result has an identity. -/
theorem identity_withRecord {params : Value} (uuid : String)
    (isRecord : resent .supervisor params = true) :
    ∃ named, identity (withRecord params uuid) = some named := by
  have fresh : ∃ named, identity (params.set "record" (.text uuid)) = some named := by
    cases params with
    | object fields => exact ⟨.text uuid, rfl⟩
    | _ => cases isRecord
  unfold withRecord
  split
  · exact fresh
  · exact fresh
  · next named isNull isNamed =>
    refine ⟨named, ?_⟩
    unfold identity
    rw [isNamed]
    cases named with
    | null => exact absurd rfl isNull
    | _ => rfl

/-- The identity of a record does not change its operation. -/
theorem op_withRecord (params : Value) (record : String) :
    op (withRecord params record) = op params := by
  have set_op : op (params.set "record" (.text record)) = op params := by
    cases params with
    | object fields =>
      unfold op Value.get Value.set
      have skips : ("record" == "op") = false := by decide
      simp only [List.find?_cons, skips]
      rw [List.find?_filter]
      congr 3
      funext field
      by_cases isOp : field.1 = "op"
      · simp [isOp]
      · simp [isOp]
    | _ => rfl
  unfold withRecord
  split
  · exact set_op
  · exact set_op
  · rfl

/-- Given an identity, the record of a result may still be sent when it is kept. -/
theorem keptOp_withRecord {params : Value} (uuid : String)
    (isRecord : resent .supervisor params = true) : keptOp (withRecord params uuid) = true := by
  have isKept := keptOp_of_resent isRecord
  unfold keptOp at isKept ⊢
  rw [op_withRecord]
  exact isKept

end Dagq.Resend
