/-
This file models how the judgments of now are taken back from the events alone: the
records of each supervisor are folded to the inputs it recorded last, and at the end
of a window the stream with the latest successful observation within a grace stands
for the queue, unless a record of it is missing. Where none stands, it says why.
-/

import Dagq.Alerts.Record
import Dagq.Lib.Journal
import Dagq.Lib.Least
import Dagq.PreClaim.Life

namespace Dagq.Alerts

open Dagq.Ledger Dagq.Lib Dagq.PreClaim

/-! ### One stream -/

/-- One stream as the fold reads it. -/
structure StreamFold where
  slots : Option Value := none
  config : Option Value := none
  /-- The runs' inputs, in the order they appeared. -/
  runs : List (String × Value) := []
  baselined : Bool := false
  version : Nat := 0
  /-- An input's record came out of order: the stream is broken until its next baseline. -/
  broken : Bool := false
  /-- The latest version a reach confirmed. -/
  confirmed : Nat := 0
  /-- The time and id of the last successful observation. -/
  lastOk : Option (Int × Nat) := none
  failing : Bool := false

/-- Set a run's input in its place, or last where there is none; null takes it out. -/
def putRun (id : String) (value : Value) : List (String × Value) → List (String × Value)
  | [] => if value = .null then [] else [(id, value)]
  | entry :: rest =>
    if entry.1 = id then if value = .null then rest else (entry.1, value) :: rest
    else entry :: putRun id value rest

/-- The runs with their thresholds and positions, as they are read one after another. -/
structure RunsRead where
  runs : List LiveRun := []
  outliers : RunId → Option Int64 := fun _ => none
  positions : RunId → Option UInt64 := fun _ => none

def RunsRead.add (read : RunsRead) (value : Value) : Option RunsRead := do
  let input ← runInputCodec.decode value
  let (run, outlier, position) ← input.live
  some
    { runs := read.runs ++ [run]
      outliers := outlier.elim read.outliers fun outlier =>
        Function.update read.outliers run.runId (some outlier)
      positions := position.elim read.positions fun position =>
        Function.update read.positions run.runId (some position) }

namespace StreamFold

/-- A record of the stream is missing. -/
def gap (stream : StreamFold) : Bool := stream.broken || decide (stream.version < stream.confirmed)

def apply (stream : StreamFold) (target : String) (runId : Option String) (value : Value) :
    StreamFold :=
  match target, runId with
  | "slots", _ => { stream with slots := some value }
  | "config", _ => { stream with config := some value }
  | "run", some run => { stream with runs := putRun run value stream.runs }
  | _, _ => { stream with broken := true }

/-- The inputs recorded, the runs put where the queue's list of every run has them. -/
def inputs (stream : StreamFold) : Option LiveInputs := do
  let slots ← stream.slots.bind slotsCodec.decode
  let config ← stream.config
  let read ← (stream.runs.map Prod.snd).foldlM RunsRead.add {}
  some
    { slots
      config := configOf config
      runs := read.runs.insertionSort fun first second =>
        placeOf read.positions first ≤ placeOf read.positions second
      outliers := read.outliers
      positions := read.positions }

/-- Read a record of the stream, written at a time under an id. -/
def record (stream : StreamFold) (kind : RecordKind) (payload : Value) (time : Int) (id : Nat) :
    StreamFold :=
  let version := (payload.get "version").bind Value.asU64
  match kind with
  | .baseline =>
    { slots := payload.get "slots"
      config := payload.get "config"
      runs := (((payload.get "runs").bind Value.asArray).getD []).filterMap fun run =>
        ((run.get "run_id").bind Value.asStr).map fun id => (id, run)
      baselined := true
      version := version.getD 1
      broken := false
      confirmed := version.getD 1
      lastOk := some (time, id)
      failing := false }
  | .inputChanged =>
    if stream.baselined then
      if version = some (stream.version + 1) ∧ stream.broken = false then
        { stream.apply (((payload.get "target").bind Value.asStr).getD "")
            ((payload.get "run_id").bind Value.asStr) ((payload.get "value").getD .null) with
          version := stream.version + 1
          lastOk := some (time, id) }
      else
        { stream with
          broken := true
          version := max stream.version (version.getD 0)
          lastOk := some (time, id) }
    else stream
  | .started | .ended =>
    if stream.baselined then { stream with lastOk := some (time, id) } else stream
  | .reached =>
    if (payload.get "ok").bind Value.asBool = some true then
      { stream with
        failing := false
        confirmed := max stream.confirmed (version.getD 0)
        lastOk := if stream.baselined then some (time, id) else stream.lastOk }
    else { stream with failing := true }

/-- Read an event, if it is a record written at a time that can be read. -/
def read (stream : StreamFold) (event : RunEvent) : StreamFold :=
  match RecordKind.of event.kind, event.millis with
  | some kind, some time => stream.record kind event.payload time event.id
  | _, _ => stream

end StreamFold

/-! ### The streams of a window -/

/-- The supervisor whose stream an event is of, and the record it carries. -/
def carried (event : RunEvent) : Option (String × Record) :=
  match RecordKind.of event.kind, event.text "supervisor", event.millis with
  | some kind, some supervisor, some _ => some (supervisor, kind, event.payload)
  | _, _, _ => none

def readStreams (streams : Ordered String StreamFold) (event : RunEvent) :
    Ordered String StreamFold :=
  match carried event with
  | some (supervisor, _) =>
    streams.insert supervisor (((streams.get? supervisor).getD {}).read event)
  | none => streams

/-- The stream of each supervisor the events have a record of. -/
def streamsOf (events : List RunEvent) : Ordered String StreamFold :=
  events.foldl readStreams Ordered.empty

/-- How long after its last successful observation a stream stands for the queue: three reaches. -/
def graceSecs : Int := 3 * reachIntervalSecs

def StreamFold.isWithin (stream : StreamFold) (endMs : Int) : Bool :=
  stream.lastOk.any fun last => endMs - last.1 ≤ graceSecs * 1000

/-- The order of the streams by their last successful observations, none of them first. -/
def StreamFold.lastOkKey (stream : StreamFold) : WithBot (ℤ ×ₗ ℕ) :=
  stream.lastOk.map fun last => toLex last

/-- The last of the streams whose last successful observation is the latest. -/
def latestStream (streams : List (String × StreamFold)) : Option (String × StreamFold) :=
  leastBy (fun entry => OrderDual.toDual entry.2.lastOkKey) streams.reverse

/-- Why a judgment has no observation at the end of a window. -/
inductive Missing where
  | noBaseline
  | supervisorStopped
  | observationFailed
  | recordGap
  | stale
  deriving DecidableEq, Repr

/-- How a judgment was observed at the end of a window. -/
inductive ObservationState where
  | observed (supervisor : String) (version : Nat) (lastOkMs : Int)
  | missing (reason : Missing) (version : Option Nat) (lastOkMs : Option Int)
  deriving DecidableEq, Repr

/-- The streams that may stand for the queue. -/
def standing (streams : Ordered String StreamFold) (endMs : Int) : List (String × StreamFold) :=
  streams.entries.filter fun entry =>
    entry.2.baselined && !entry.2.gap && entry.2.isWithin endMs

/-- The stream that stands for the queue, with its inputs. -/
def taken (streams : Ordered String StreamFold) (endMs : Int) :
    Option (String × StreamFold × LiveInputs) :=
  (latestStream (standing streams endMs)).bind fun entry =>
    entry.2.inputs.map fun inputs => (entry.1, entry.2, inputs)

/-- Why no stream stands for the queue: the reason of the one observed last. -/
def missing (events : List RunEvent) (streams : Ordered String StreamFold) (endMs : Int) :
    ObservationState :=
  match latestStream (streams.entries.filter fun entry => entry.2.baselined) with
  | none => .missing .noBaseline none none
  | some (_, latest) =>
    let stopped := streams.entries.all fun entry =>
      ((Lives.of events).endAt entry.1 endMs).isSome
    let reason :=
      if latest.gap then Missing.recordGap
      else if stopped then .supervisorStopped
      else if latest.failing then .observationFailed
      else .stale
    .missing reason (some latest.version) (latest.lastOk.map Prod.fst)

/-- What was judged at the end of a window, if it was observed, and how it was. -/
structure Folded (Judged : Type) where
  value : Option Judged
  state : ObservationState

/-- The judgments of a window that ends at `windowEnd` from its events alone, by the functions
that judge inputs. -/
def foldWithin {Judged : Type} (judge : List RunEvent → Int → LiveInputs → Judged)
    (events : List RunEvent) (within : RunEvent → Bool) (windowEnd : Int) : Folded Judged :=
  let upto := events.filter within
  let streams := streamsOf upto
  match taken streams (windowEnd * 1000) with
  | some (supervisor, stream, inputs) =>
    { value := some (judge upto windowEnd inputs)
      state := .observed supervisor stream.version (stream.lastOk.elim 0 Prod.fst) }
  | none => { value := none, state := missing upto streams (windowEnd * 1000) }

/-! ### The journal of the supervisors -/

/-- The runs of an observation are in the queue's order. -/
def Observation.Listed : Observation → Prop
  | .seen inputs _ => inputs.Listed
  | .failed _ => True

/-- The supervisors' recorders and the fold of their records, where some records may be lost. -/
def journalWith (Losable : Record → Prop) :
    Journal String (Int × Observation) Record RunEvent LiveRecorder StreamFold where
  fresh := {}
  observe supervisor recorder observation := recorder.observe supervisor observation.1 observation.2
  Admits observation := observation.2.Listed
  carried := carried
  Losable := Losable
  start := {}
  read := StreamFold.read

/-- A record that is not refused is written in its turn. -/
abbrev journal : Journal String (Int × Observation) Record RunEvent LiveRecorder StreamFold :=
  journalWith fun _ => False

theorem readStreams_get? (streams : Ordered String StreamFold) (event : RunEvent)
    (supervisor : String) :
    (readStreams streams event).get? supervisor =
      if journal.isOf supervisor event then some (((streams.get? supervisor).getD {}).read event)
      else streams.get? supervisor := by
  unfold readStreams Journal.isOf
  change _ = if (carried event).any _ then _ else _
  cases carries : carried event with
  | none => rfl
  | some own =>
    rw [Option.any_some, Ordered.get?_insert]
    by_cases same : supervisor = own.1
    · rw [if_pos same, if_pos (decide_eq_true same.symm), same]
    · rw [if_neg same, if_neg (by simpa using Ne.symm same)]

/-- The stream of a supervisor is what a reader of its records alone makes of them. -/
theorem streamsOf_get? (events : List RunEvent) (supervisor : String) :
    (streamsOf events).get? supervisor =
      if events.any (journal.isOf supervisor) then some (journal.reading supervisor events)
      else none := by
  induction events using List.reverseRecOn with
  | nil => rfl
  | append_singleton events event inductionHypothesis =>
    rw [streamsOf, List.foldl_append, List.foldl_cons, List.foldl_nil, readStreams_get?,
      List.any_append]
    change (if _ then some (((streamsOf events).get? supervisor).getD {} |>.read event)
      else (streamsOf events).get? supervisor) = _
    rw [inductionHypothesis]
    cases isOwn : journal.isOf supervisor event with
    | false => simp [isOwn, journal.reading_of_not isOwn]
    | true =>
      obtain ⟨own, carries, same⟩ : ∃ own, journal.carried event = some own ∧ own.1 = supervisor := by
        simpa [Journal.isOf, Option.any_eq_true] using isOwn
      have carriesOwn : journal.carried event = some (supervisor, own.2) := by
        rw [carries, ← same]
      rw [journal.reading_of carriesOwn]
      cases any : events.any (journal.isOf supervisor) with
      | true => simp [isOwn]; rfl
      | false =>
        have nothing : events.filter (journal.isOf supervisor) = [] :=
          List.filter_eq_nil_iff.mpr fun event member => by
            simpa using List.any_eq_false.mp any event member
        simp [isOwn, Journal.reading, nothing]
        rfl

end Dagq.Alerts
