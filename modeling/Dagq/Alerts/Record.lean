/-
This file models a supervisor's stream of records of the judgments of now: a
baseline of every input at its first success, then an input's new value only
where it changed, each moving the stream's version on by one, the alerts that
started and ended, and a reach that confirms the version, on the return from a
failure and once an interval passed. A recorder that is reset starts with a
baseline again.
-/

import Dagq.Alerts.Inputs
import Dagq.Lib.Ordered
import Mathlib.Data.Finset.Sort
import Mathlib.Data.String.Basic
import Mathlib.Order.WithBot

namespace Dagq.Alerts

open Dagq.Ledger Dagq.Lib Dagq.Runs

/-! ### Inputs as recorded -/

def slotsCodec : Codec SlotSnapshot where
  encode slots := .object [("free_slots", Codec.i64.encode slots.freeSlots),
    ("candidates", Codec.usize.encode slots.candidates), ("ready", Codec.usize.encode slots.ready)]
  decode value := do
    let freeSlots ← Codec.i64.field value "free_slots"
    let candidates ← Codec.usize.field value "candidates"
    let ready ← Codec.usize.field value "ready"
    some { freeSlots, candidates, ready }
  decode_encode slots := by simp [Codec.field]
  encode_ne_null := nofun

/-- The thresholds as recorded: their seconds by key, and where they came from. -/
def configValue (report : StallConfigReport) : Value :=
  .object [("idle_without_receipt_secs", Codec.i64.encode report.config.idleWithoutReceiptSecs),
    ("send_confirm_secs", Codec.i64.encode report.config.sendConfirmSecs),
    ("background_alert_secs", Codec.i64.encode report.config.backgroundAlertSecs),
    ("idle_process_secs", Codec.i64.encode report.config.idleProcessSecs),
    ("screen_idle_secs", Codec.i64.encode report.config.screenIdleSecs),
    ("turn_silence_secs", Codec.i64.encode report.config.turnSilenceSecs),
    ("turn_limit_secs", Codec.i64.encode report.config.turnLimitSecs),
    ("source", .text report.source.asStr)]

/-- The thresholds a record holds; what is missing keeps its default. -/
def configOf (value : Value) : StallConfigReport where
  config := StallConfig.keys.foldl (fun config key =>
    match Codec.i64.field value key with
    | some secs => (config.set key secs).getD config
    | none => config) {}
  source :=
    match (value.get "source").bind Value.asStr with
    | some "supervisor" => .supervisor
    | some "file" => .file
    | _ => .default

@[simp] theorem configOf_configValue (report : StallConfigReport) :
    configOf (configValue report) = report := by
  obtain ⟨config, source⟩ := report
  cases source <;>
    simp [configOf, configValue, StallConfig.keys, StallConfig.set, Codec.field, Value.asStr, ConfigSource.asStr]

theorem configValue_ne_null (report : StallConfigReport) : configValue report ≠ .null :=
  Value.object_ne_null _

def taskCodec : Codec BackgroundTask where
  encode task := .object [("id", .text task.id), ("description", .text task.description),
    ("command", .text task.command)]
  decode value := do
    let id ← Codec.text.field value "id"
    let description ← Codec.text.field value "description"
    let command ← Codec.text.field value "command"
    some { id, description, command }
  decode_encode task := by simp [Codec.field, Codec.text, Value.asStr]
  encode_ne_null := nofun

def statusCodec : Codec RunStatus where
  encode status := .text status.asStr
  decode value := value.asStr.bind fun text => (parseStatus text).toOption
  decode_encode status := by simp [Value.asStr, parseStatus_asStr, Except.toOption]
  encode_ne_null := nofun

def idleCodec : Codec (Int64 × List BackgroundTask) := Codec.i64.pair taskCodec.list

/-- One run's input as recorded: what is read of it, its threshold of work and its position. -/
structure RunInput where
  runId : String
  taskId : Int64
  status : RunStatus
  workspaceId : Option String
  idle : Option (Int64 × List BackgroundTask)
  receipt : Option Int64
  input : Option Int64
  backgroundSince : Option Int64
  backgroundAlive : Option Bool
  outlierThreshold : Option Int64
  position : Option UInt64

def RunInput.of (run : LiveRun) (inputs : LiveInputs) : RunInput where
  runId := run.runId.text
  taskId := run.taskId
  status := run.status
  workspaceId := run.workspaceId
  idle := run.idle
  receipt := run.receipt
  input := run.input
  backgroundSince := run.backgroundSince
  backgroundAlive := run.backgroundAlive
  outlierThreshold := inputs.outliers run.runId
  position := inputs.positions run.runId

def RunInput.live (input : RunInput) : Option (LiveRun × Option Int64 × Option UInt64) := do
  let runId ← RunId.new input.runId
  some ({ runId
          taskId := input.taskId
          status := input.status
          workspaceId := input.workspaceId
          idle := input.idle
          receipt := input.receipt
          input := input.input
          backgroundSince := input.backgroundSince
          backgroundAlive := input.backgroundAlive },
    input.outlierThreshold, input.position)

@[simp] theorem RunInput.live_of (run : LiveRun) (inputs : LiveInputs) :
    (RunInput.of run inputs).live =
      some (run, inputs.outliers run.runId, inputs.positions run.runId) := by
  simp [live, of]

def RunInput.encode (input : RunInput) : Value :=
  .object [("run_id", .text input.runId), ("task_id", Codec.i64.encode input.taskId),
    ("status", statusCodec.encode input.status),
    ("workspace_id", Codec.text.encodeOption input.workspaceId),
    ("idle", idleCodec.encodeOption input.idle),
    ("receipt", Codec.i64.encodeOption input.receipt),
    ("input", Codec.i64.encodeOption input.input),
    ("background_since", Codec.i64.encodeOption input.backgroundSince),
    ("background_alive", Codec.bool.encodeOption input.backgroundAlive),
    ("outlier_threshold", Codec.i64.encodeOption input.outlierThreshold),
    ("position", Codec.usize.encodeOption input.position)]

def RunInput.decode (value : Value) : Option RunInput := do
  let runId ← Codec.text.field value "run_id"
  let taskId ← Codec.i64.field value "task_id"
  let status ← statusCodec.field value "status"
  let workspaceId ← Codec.text.optional value "workspace_id"
  let idle ← idleCodec.optional value "idle"
  let receipt ← Codec.i64.optional value "receipt"
  let input ← Codec.i64.optional value "input"
  let backgroundSince ← Codec.i64.optional value "background_since"
  let backgroundAlive ← Codec.bool.optional value "background_alive"
  let outlierThreshold ← Codec.i64.optional value "outlier_threshold"
  let position ← Codec.usize.optional value "position"
  some { runId, taskId, status, workspaceId, idle, receipt, input, backgroundSince,
         backgroundAlive, outlierThreshold, position }

theorem RunInput.decode_encode (input : RunInput) : decode input.encode = some input := by
  have named : Codec.text.field input.encode "run_id" = some input.runId := by
    simp only [encode, Codec.field, Value.get_cons, if_true, Option.bind_some]
    rfl
  have task : Codec.i64.field input.encode "task_id" = some input.taskId := by
    simp [encode, Codec.field]
  have status : statusCodec.field input.encode "status" = some input.status := by
    simp [encode, Codec.field]
  have workspace : Codec.text.optional input.encode "workspace_id" = some input.workspaceId := by
    simp [encode, Codec.optional]
  have idle : idleCodec.optional input.encode "idle" = some input.idle := by
    simp [encode, Codec.optional]
  have receipt : Codec.i64.optional input.encode "receipt" = some input.receipt := by
    simp [encode, Codec.optional]
  have taken : Codec.i64.optional input.encode "input" = some input.input := by
    simp [encode, Codec.optional]
  have since : Codec.i64.optional input.encode "background_since" =
      some input.backgroundSince := by
    simp [encode, Codec.optional]
  have alive : Codec.bool.optional input.encode "background_alive" =
      some input.backgroundAlive := by
    simp [encode, Codec.optional]
  have outlier : Codec.i64.optional input.encode "outlier_threshold" =
      some input.outlierThreshold := by
    simp [encode, Codec.optional]
  have position : Codec.usize.optional input.encode "position" = some input.position := by
    simp [encode, Codec.optional]
  rw [decode, named, task, status, workspace, idle, receipt, taken, since, alive, outlier, position]
  rfl

def runInputCodec : Codec RunInput where
  encode := RunInput.encode
  decode := RunInput.decode
  decode_encode := RunInput.decode_encode
  encode_ne_null _ := Value.object_ne_null _

/-! ### Targets and alerts -/

/-- What an input is of. -/
inductive Target where
  | slots
  | config
  | run (id : String)

/-- The order of the targets: the slots, the thresholds, the runs by their texts. -/
def Target.key : Target → ℕ ×ₗ String
  | slots => toLex (0, "")
  | config => toLex (1, "")
  | run id => toLex (2, id)

theorem Target.key_injective : Function.Injective Target.key := by
  intro first second same
  cases first <;> cases second <;> simp_all [Target.key]

instance : LinearOrder Target := LinearOrder.lift' Target.key Target.key_injective

/-- What tells one alert from another. -/
structure AlertKey where
  judgment : String
  kind : String
  runId : Option String
  reason : Option String

def AlertKey.key (alert : AlertKey) : String ×ₗ String ×ₗ WithBot String ×ₗ WithBot String :=
  toLex (alert.judgment, toLex (alert.kind, toLex (alert.runId, alert.reason)))

theorem AlertKey.key_injective : Function.Injective AlertKey.key := by
  rintro ⟨_, _, _, _⟩ ⟨_, _, _, _⟩ same
  simp only [AlertKey.key, EmbeddingLike.apply_eq_iff_eq, Prod.mk.injEq] at same
  obtain ⟨rfl, rfl, rfl, rfl⟩ := same
  rfl

instance : LinearOrder AlertKey := LinearOrder.lift' AlertKey.key AlertKey.key_injective

def AlertKey.fields (alert : AlertKey) : List (String × Value) :=
  [("judgment", .text alert.judgment), ("kind", .text alert.kind)] ++
    (alert.runId.map fun run => ("run_id", .text run)).toList ++
    (alert.reason.map fun reason => ("reason", .text reason)).toList

/-- Every input with its recorded value, the runs in order. -/
def targets (inputs : LiveInputs) : List (Target × Value) :=
  [(.slots, slotsCodec.encode inputs.slots), (.config, configValue inputs.config)] ++
    inputs.runs.map fun run => (.run run.runId.text, runInputCodec.encode (.of run inputs))

/-! ### Records -/

inductive RecordKind where
  | baseline
  | inputChanged
  | reached
  | started
  | ended
  deriving DecidableEq, Repr

def RecordKind.asStr : RecordKind → String
  | baseline => "live_alert_baseline"
  | inputChanged => "live_alert_input_changed"
  | reached => "live_alert_reached"
  | started => "live_alert_started"
  | ended => "live_alert_ended"

/-- The kinds of the record of the judgments of now. -/
def RecordKind.all : List RecordKind := [baseline, inputChanged, reached, started, ended]

def RecordKind.event (kind : RecordKind) : EventKind := .other kind.asStr

/-- The kind of record an event is, if it is one. -/
def RecordKind.of (kind : EventKind) : Option RecordKind := all.find? fun one => one.event = kind

@[simp] theorem RecordKind.of_event (kind : RecordKind) : of kind.event = some kind := by
  cases kind <;> decide

abbrev Record := RecordKind × Value

/-- The record of a target's new value at a version. -/
def inputPayload (supervisor : String) (version : Nat) (target : Target) (value : Value) : Value :=
  .object ([("supervisor", .text supervisor), ("version", .int version), ("value", value)] ++
    match target with
    | .slots => [("target", .text "slots")]
    | .config => [("target", .text "config")]
    | .run id => [("target", .text "run"), ("run_id", .text id)])

def keyPayload (supervisor : String) (alert : AlertKey) : Value :=
  .object (alert.fields ++ [("supervisor", .text supervisor)])

def baselinePayload (supervisor : String) (inputs : LiveInputs) (alerts : Finset AlertKey) :
    Value :=
  .object [("supervisor", .text supervisor), ("version", .int 1),
    ("slots", slotsCodec.encode inputs.slots), ("config", configValue inputs.config),
    ("runs", .list (inputs.runs.map fun run => runInputCodec.encode (.of run inputs))),
    ("open", .list (alerts.sort.map fun alert => .object alert.fields))]

/-- A reach of a version, or the reason an observation failed. -/
def reachPayload (supervisor : String) (version : Nat) (failure : Option String) : Value :=
  .object ([("supervisor", .text supervisor), ("ok", .bool failure.isNone),
    ("version", .int version)] ++ (failure.map fun reason => ("reason", .text reason)).toList)

/-! ### The recorder -/

/-- How often a supervisor whose inputs do not change records a reach. -/
def reachIntervalSecs : Int := 300

/-- One observation of a supervisor's pass. -/
inductive Observation where
  | seen (inputs : LiveInputs) (alerts : Finset AlertKey)
  | failed (reason : String)

/-- What a supervisor's stream has recorded so far. -/
structure Stream where
  version : Nat
  values : Ordered Target Value
  open_ : Finset AlertKey

structure LiveRecorder where
  stream : Option Stream := none
  failing : Option String := none
  lastReachMs : Option Int := none

/-- The stream a baseline starts. -/
def Stream.ofBaseline (inputs : LiveInputs) (alerts : Finset AlertKey) : Stream where
  version := 1
  values := (targets inputs).foldl (fun map entry => map.insert entry.1 entry.2) Ordered.empty
  open_ := alerts

/-- Record one input's new value, null for a run that is gone. -/
def Stream.change (stream : Stream) (target : Target) (value : Value) : Stream :=
  { stream with
    version := stream.version + 1
    values := if value = .null then stream.values.erase target
      else stream.values.insert target value }

/-- The records of the inputs that changed, in order, and the stream after them. -/
def Stream.changeAll (supervisor : String) :
    Stream → List (Target × Value) → List Record × Stream
  | stream, [] => ([], stream)
  | stream, (target, value) :: rest =>
    let (records, last) := (stream.change target value).changeAll supervisor rest
    ((.inputChanged, inputPayload supervisor (stream.version + 1) target value) :: records, last)

/-- What changed since the stream's last record: the runs that are gone, then the new values. -/
def Stream.changes (stream : Stream) (values : List (Target × Value)) : List (Target × Value) :=
  ((stream.values.entries.map Prod.fst).filter fun target =>
      target ∉ values.map Prod.fst).map (fun target => (target, .null)) ++
    values.filter fun entry => stream.values.get? entry.1 ≠ some entry.2

namespace LiveRecorder

/-- A reach is due. -/
def isDue (recorder : LiveRecorder) (nowMs : Int) : Bool :=
  match recorder.lastReachMs with
  | none => true
  | some last => reachIntervalSecs * 1000 ≤ nowMs - last

/-- The records of a supervisor's observation, to write in order, and the recorder after it. -/
def observe (recorder : LiveRecorder) (supervisor : String) (nowMs : Int) :
    Observation → List Record × LiveRecorder
  | .failed reason =>
    if recorder.failing ≠ some reason ∨ recorder.isDue nowMs then
      ([(.reached, reachPayload supervisor (recorder.stream.elim 0 Stream.version) (some reason))],
        { recorder with failing := some reason, lastReachMs := some nowMs })
    else ([], { recorder with failing := some reason })
  | .seen inputs alerts =>
    match recorder.stream with
    | none =>
      ([(.baseline, baselinePayload supervisor inputs alerts)],
        { stream := some (.ofBaseline inputs alerts)
          failing := none
          lastReachMs := some nowMs })
    | some stream =>
      let (changed, last) := stream.changeAll supervisor (stream.changes (targets inputs))
      let ended := (stream.open_ \ alerts).sort.map fun alert =>
        (RecordKind.ended, keyPayload supervisor alert)
      let started := (alerts \ stream.open_).sort.map fun alert =>
        (RecordKind.started, keyPayload supervisor alert)
      if recorder.failing.isSome ∨ recorder.isDue nowMs then
        (changed ++ ended ++ started ++ [(.reached, reachPayload supervisor last.version none)],
          { stream := some { last with open_ := alerts }
            failing := none
            lastReachMs := some nowMs })
      else
        (changed ++ ended ++ started,
          { recorder with stream := some { last with open_ := alerts }, failing := none })

end LiveRecorder

/-! ### What is recorded -/

theorem mem_targets_run {inputs : LiveInputs} {id : String} {value : Value} :
    (.run id, value) ∈ targets inputs ↔
      ∃ run ∈ inputs.runs, run.runId.text = id ∧ runInputCodec.encode (.of run inputs) = value := by
  simp [targets]

/-- Each target has one value. -/
theorem LiveInputs.Listed.targets_distinct {inputs : LiveInputs} (listed : inputs.Listed) :
    ((targets inputs).map Prod.fst).Nodup := by
  have runs : (inputs.runs.map fun run => Target.run run.runId.text).Nodup := by
    have texts := listed.distinct.map RunId.text_injective
    have tagged := texts.map fun first second same => Target.run.inj same
    rw [List.map_map, List.map_map] at tagged
    exact tagged
  simp only [targets, List.map_append, List.map_cons, List.map_nil, List.map_map]
  refine List.nodup_append.mpr ⟨by simp, runs, ?_⟩
  intro first isFirst second isSecond
  obtain ⟨run, _, rfl⟩ := List.mem_map.mp isSecond
  rcases List.mem_cons.mp isFirst with rfl | isConfig
  · exact nofun
  · rw [List.mem_singleton.mp isConfig]
    exact nofun

theorem targets_ne_null {inputs : LiveInputs} {entry : Target × Value}
    (member : entry ∈ targets inputs) : entry.2 ≠ .null := by
  rcases List.mem_append.mp member with isFirst | isRun
  · rcases List.mem_cons.mp isFirst with rfl | isConfig
    · exact slotsCodec.encode_ne_null _
    · rw [List.mem_singleton.mp isConfig]
      exact nofun
  · obtain ⟨run, _, rfl⟩ := List.mem_map.mp isRun
    exact runInputCodec.encode_ne_null _

end Dagq.Alerts
