/-
This file models why a supervisor passes over a candidate, one judgement at a
time: its worker cannot run, the supervisor's build lacks what it waits for, its
files meet a run in flight on a hotspot, or the claim order holds its class. Each
judgement keeps a deferral of its own and writes its start and its end as records
of the task, told apart by their reason.
-/

import Dagq.Ledger.Event
import Dagq.Runs.Row

namespace Dagq.Defer

open Dagq.Ledger

/-- A record to write of a task: its kind and its payload. -/
abbrev Record := EventKind × Value

/-- What to do with a candidate: hand it on or pass over it, and what to record. -/
inductive Decision where
  | claim (event : Option Record)
  | defer (event : Option Record)

/-- The end of a deferral of `reason`. -/
def deferralEnded (reason why : String) (since now : Int) (token : String) : Record :=
  (.claimDeferralEnded, .object
    [("reason", .text reason), ("why", .text why), ("deferred_secs", .int (max (now - since) 0)),
      ("supervisor", .text token)])

/-! ### The hotspots -/

def hotFiles : String := "hot_files"

/-- A task's deferral on the hotspots: since when, and whether it ran out. -/
structure Deferral where
  since : Int
  expired : Bool
  deriving DecidableEq, Repr

structure OverlapRun where
  runId : String
  taskId : Nat

/-- Where a candidate's files meet the runs in flight on hotspots. -/
structure Overlap where
  files : List String
  runs : List OverlapRun

def message (overlap : Overlap) (maxSecs : Int) : String :=
  let runs := overlap.runs.map fun run => "task " ++ toString run.taskId ++ " (run " ++ run.runId ++ ")"
  "the task's files meet those of " ++ ", ".intercalate runs ++ " on the conflict hotspots " ++
    ", ".intercalate overlap.files ++ ": not claimed until they land or for " ++ toString maxSecs ++
    " seconds"

def hotDeferred (overlap : Overlap) (maxSecs : Int) (token : String) : Record :=
  (.claimDeferred, .object
    [("reason", .text hotFiles), ("files", .list (overlap.files.map .text)),
      ("runs", .list (overlap.runs.map fun run =>
        .object [("run_id", .text run.runId), ("task_id", .int run.taskId)])),
      ("max_secs", .int maxSecs), ("message", .text (message overlap maxSecs)),
      ("supervisor", .text token)])

/-- Why a candidate's files meet no run that counts though they meet runs in flight. -/
inductive LeftOut where
  | noCommit
  | ownerWaiting
  deriving DecidableEq, Repr

def LeftOut.asStr : LeftOut → String
  | noCommit => "no_commit"
  | ownerWaiting => "owner_waiting"

/-- Judge a candidate by the hotspots, with the deferral in place. -/
def decide (interrupt : Bool) (overlap : Option Overlap) (leftOut : Option LeftOut)
    (deferral : Option Deferral) (now maxSecs : Int) (token : String) :
    Decision × Option Deferral :=
  match (if interrupt then none else overlap), deferral with
  | some _, some placed =>
    if placed.expired then (.claim none, deferral)
    else if maxSecs ≤ now - placed.since then
      (.claim (some (deferralEnded hotFiles "expired" placed.since now token)),
        some ⟨placed.since, true⟩)
    else (.defer none, deferral)
  | some overlap, none =>
    -- No limit left to wait for: nothing is deferred.
    if maxSecs ≤ 0 then (.claim none, none)
    else (.defer (some (hotDeferred overlap maxSecs token)), some ⟨now, false⟩)
  | none, some placed =>
    -- An expired deferral stays so until the task leaves the candidates.
    if placed.expired then (.claim none, deferral)
    else
      (.claim (some (deferralEnded hotFiles
        (((if interrupt then none else leftOut).map LeftOut.asStr).getD "cleared") placed.since now
        token)), none)
  | none, none => (.claim none, none)

/-- What ends the deferral of a task that left the candidates, if it was open. -/
def left (deferral : Deferral) (now : Int) (token : String) : Option Record :=
  if deferral.expired then none
  else some (deferralEnded hotFiles "not_candidate" deferral.since now token)

/-! ### The worker -/

/-- Why a supervisor cannot run a worker. -/
inductive WorkerReason where
  | providerUnavailable
  | modeUnavailable
  | fallbackOff
  | containerUnavailable
  | containerProvider
  | containerMemory
  deriving DecidableEq, Repr

def WorkerReason.asStr : WorkerReason → String
  | providerUnavailable => "provider_unavailable"
  | modeUnavailable => "mode_unavailable"
  | fallbackOff => "provider_fallback_off"
  | containerUnavailable => "container_unavailable"
  | containerProvider => "container_provider_unsupported"
  | containerMemory => "container_memory_wait"

def workerMessage (reason : WorkerReason) (worker : Runs.Worker) : String :=
  let provider := Runs.providerStr worker.provider
  let mode := worker.mode.asStr
  match reason with
  | .containerUnavailable =>
    "dagq.toml sets the worker's runtime to the container, which cannot be used now (" ++
      reason.asStr ++ "): not claimed until it can, never on the host instead"
  | .containerMemory =>
    "dagq.toml sets the worker's runtime to the container, and a worker's container would wait " ++
      "for the dagq machine's memory now (" ++ reason.asStr ++
      "): not claimed until it fits, never on the host instead"
  | .containerProvider =>
    "dagq.toml sets the worker's runtime to the container, which runs no " ++ provider ++
      " worker (" ++ reason.asStr ++ "): not claimed while the task would run on " ++ provider
  | .fallbackOff =>
    provider ++ " cannot be used now and [provider_fallback] workers is false, so the " ++
      provider ++ " " ++ mode ++ " worker does not start on the other provider (" ++
      reason.asStr ++ "): not claimed until " ++ provider ++ " can be used again"
  | _ =>
    "this supervisor cannot run a " ++ provider ++ " " ++ mode ++ " worker (" ++ reason.asStr ++
      "): not claimed until one can"

def workerDeferred (reason : WorkerReason) (worker : Runs.Worker) (token : String) : Record :=
  (.claimDeferred, .object
    [("reason", .text reason.asStr), ("provider", .text (Runs.providerStr worker.provider)),
      ("worker_mode", .text worker.mode.asStr), ("message", .text (workerMessage reason worker)),
      ("supervisor", .text token)])

inductive WorkerStep where
  /-- Deferred, with the events to record: the candidate is passed over. -/
  | deferred (events : List Record)
  /-- The deferral ended: the candidate goes on. -/
  | cleared (event : Record)
  | goesOn

/-- The deferral of a task for its worker, given why it cannot run and what is in place. -/
def workerStep (reason : Option (Runs.Worker × WorkerReason)) (inPlace : Option (String × Int))
    (now : Int) (token : String) : WorkerStep × Option (String × Int) :=
  match reason, inPlace with
  | some (worker, why), some (was, since) =>
    if why.asStr ≠ was then
      (.deferred [deferralEnded was "reason_changed" since now token,
        workerDeferred why worker token], some (why.asStr, now))
    else (.deferred [], inPlace)
  | some (worker, why), none =>
    (.deferred [workerDeferred why worker token], some (why.asStr, now))
  | none, some (why, since) => (.cleared (deferralEnded why "cleared" since now token), none)
  | none, none => (.goesOn, none)

/-! ### The build -/

def notInBuild : String := "not_in_build"

structure Landing where
  taskId : Nat
  commit : String

def buildDeferred (build : String) (missing : List Landing) (token : String) : Record :=
  let lacking := missing.map fun landing =>
    "task " ++ toString landing.taskId ++ " (" ++ landing.commit ++ ")"
  (.claimDeferred, .object
    [("reason", .text notInBuild), ("build", .text build),
      ("missing", .list (missing.map fun landing =>
        .object [("task_id", .int landing.taskId), ("commit", .text landing.commit)])),
      ("message", .text ("this supervisor's build " ++ build ++
        " does not contain the landing of " ++ ", ".intercalate lacking ++
        ": not claimed until a build that does takes over")),
      ("supervisor", .text token)])

/-- Judge a candidate's wait for the build: a wait that starts replaces an open deferral on a
hotspot. -/
def buildDecide (lacking : Option (List Landing)) (workerCleared : Bool) (wait : Option Int)
    (hot : Option Deferral) (build : String) (now : Int) (token : String) :
    Decision × Option Int × Option Deferral :=
  match lacking, (if workerCleared then none else wait) with
  | some _, some since => (.defer none, some since, hot)
  | some missing, none =>
    (.defer (some (buildDeferred build missing token)), some now,
      hot.filter fun placed => placed.expired)
  | none, some since =>
    (.claim (some (deferralEnded notInBuild "cleared" since now token)), none, hot)
  | none, none => (.claim none, none, hot)

/-! ### The claim order -/

def spikeLimit : String := "spike_limit"
def investigationLimit : String := "investigation_limit"
def lightRoom : String := "light_room"

/-- The reasons of the claim order's deferrals. -/
def orderDeferrals : List String := [spikeLimit, investigationLimit, lightRoom]

/-- The key of a claim order's record that carries the task's expired hotspot deferral. -/
def hotExpiredSince : String := "hot_expired_since"

/-- What the claim order holds a task for, with what it records of it. -/
inductive OrderHold where
  | spikes (max : Option Nat) (running : Nat)
  | investigations (counted max : Nat)
  | light

def OrderHold.asStr : OrderHold → String
  | spikes _ _ => spikeLimit
  | investigations _ _ => investigationLimit
  | light => lightRoom

def orderDeferred (hold : OrderHold) (token : String) : Record :=
  match hold with
  | .spikes max running =>
    (.claimDeferred, .object
      [("reason", .text spikeLimit), ("limit", (max.map fun most => Value.int most).getD .null),
        ("running", .int running),
        ("message", .text (toString running ++ " Spikes hold a slot, the limit of [supervisor] " ++
          "max_spikes: not claimed until one leaves its slot")),
        ("supervisor", .text token)])
  | .investigations counted max =>
    (.claimDeferred, .object
      [("reason", .text investigationLimit), ("limit", .int max), ("running", .int counted),
        ("message", .text (toString counted ++ " investigations are open, the limit of " ++
          "[supervisor] max_investigations (" ++ toString max ++
          "): a Spike that opens another is not claimed until one ends")),
        ("supervisor", .text token)])
  | .light =>
    (.claimDeferred, .object
      [("reason", .text lightRoom),
        ("message", .text ("only the room the landing queue leaves is free, which takes the " ++
          "light changes that declare their paths: not claimed until a slot is free")),
        ("supervisor", .text token)])

def lightRoomKeptSecs : Int := 300

inductive ClassDeferralStep where
  | stays
  | superseded
  | ended (why : String)

/-- What a pass makes of an order's deferral in place of `why`. -/
def classDeferralStep (why : String) (reason : Option String) (candidate passed : Bool)
    (normalSecs : Option Int) : ClassDeferralStep :=
  let kept := why == lightRoom && reason.isNone &&
    normalSecs.any fun secs => secs < lightRoomKeptSecs
  if reason == some why || (candidate && passed && kept) then .stays
  else if candidate && !passed then .superseded
  else if candidate then .ended "cleared"
  else .ended "not_candidate"

/-- An order's record, carrying the start of an expired hotspot deferral. -/
def carrying (hot : Option Deferral) (record : Record) : Record :=
  match hot with
  | some placed =>
    if placed.expired then (record.1, record.2.set hotExpiredSince (.int placed.since)) else record
  | none => record

/-! ### What the records tell -/

/-- The hotspot deferral a task's latest record tells. -/
def deferralInPlace (event : RunEvent) : Option Deferral :=
  let secs := event.millis.map fun millis => millis.tdiv 1000
  let reason := event.text "reason"
  if (reason.map fun reason => orderDeferrals.contains reason) = some true then
    ((event.payload.get hotExpiredSince).bind Value.asI64).map fun since => ⟨since, true⟩
  -- A deferral for the worker or the build is kept apart.
  else if (reason.map fun reason => reason != hotFiles) = some true then none
  else if event.kind = .claimDeferred then secs.map fun since => ⟨since, false⟩
  else if event.kind = .claimDeferralEnded ∧ event.text "why" = some "expired" then
    secs.map fun since => ⟨since, true⟩
  else none

/-- An open deferral of a task's latest record, of the reasons in `kept`. -/
def reasonInPlace (kept : String → Bool) (event : RunEvent) : Option (String × Int) :=
  if event.kind = .claimDeferred then do
    let reason ← event.text "reason"
    let millis ← event.millis
    if kept reason then some (reason, millis.tdiv 1000) else none
  else none

/-- The deferral for the worker a task's latest record tells. -/
def workerDeferralInPlace : RunEvent → Option (String × Int) :=
  reasonInPlace fun reason =>
    reason != hotFiles && reason != notInBuild && !orderDeferrals.contains reason

/-- The wait for the build a task's latest record tells. -/
def buildDeferralInPlace (event : RunEvent) : Option Int :=
  (reasonInPlace (· == notInBuild) event).map Prod.snd

/-- The claim order's deferral a task's latest record tells. -/
def classDeferralInPlace : RunEvent → Option (String × Int) :=
  reasonInPlace fun reason => orderDeferrals.contains reason

end Dagq.Defer
