/-
This file models what the judgments of now read besides the events: the slots of
the queue, the thresholds, the runs not finished yet with each one's threshold of
work and its position in the list of every run. It models how each is written as
JSON by the record of these judgments and read back from it, and how a
supervisor lists the runs.
-/

import Dagq.Ledger.Codec
import Dagq.Lib.Text
import Dagq.Runs.Row

namespace Dagq.Alerts

open Dagq.Ledger Dagq.Lib Dagq.Runs

/-! ### The slots and the thresholds -/

structure SlotSnapshot where
  freeSlots : Int64
  candidates : UInt64
  ready : UInt64
  deriving DecidableEq

structure StallConfig where
  idleWithoutReceiptSecs : Int64 := 1200
  sendConfirmSecs : Int64 := 60
  backgroundAlertSecs : Int64 := 1800
  idleProcessSecs : Int64 := 1800
  screenIdleSecs : Int64 := 120
  turnSilenceSecs : Int64 := 900
  turnLimitSecs : Int64 := 14400
  deriving DecidableEq

/-- The setting names of the `[stall]` table. -/
def StallConfig.keys : List String :=
  ["idle_without_receipt_secs", "send_confirm_secs", "background_alert_secs", "idle_process_secs",
    "screen_idle_secs", "turn_silence_secs", "turn_limit_secs"]

/-- The thresholds with one setting set, if the table has its key. -/
def StallConfig.set (config : StallConfig) (key : String) (secs : Int64) : Option StallConfig :=
  match key with
  | "idle_without_receipt_secs" => some { config with idleWithoutReceiptSecs := secs }
  | "send_confirm_secs" => some { config with sendConfirmSecs := secs }
  | "background_alert_secs" => some { config with backgroundAlertSecs := secs }
  | "idle_process_secs" => some { config with idleProcessSecs := secs }
  | "screen_idle_secs" => some { config with screenIdleSecs := secs }
  | "turn_silence_secs" => some { config with turnSilenceSecs := secs }
  | "turn_limit_secs" => some { config with turnLimitSecs := secs }
  | _ => none

/-- Where the thresholds came from. -/
inductive ConfigSource where
  | supervisor
  | file
  | default
  deriving DecidableEq, Repr

def ConfigSource.asStr : ConfigSource → String
  | supervisor => "supervisor"
  | file => "file"
  | default => "default"

structure StallConfigReport where
  config : StallConfig
  source : ConfigSource
  deriving DecidableEq

/-! ### The runs -/

/-- The ID of a run, never blank. -/
structure RunId where
  text : String
  notBlank : isBlank text = false
  deriving DecidableEq

def RunId.new (text : String) : Option RunId :=
  if notBlank : isBlank text = false then some ⟨text, notBlank⟩ else none

@[simp] theorem RunId.new_text (run : RunId) : RunId.new run.text = some run := by
  rw [RunId.new, dif_pos run.notBlank]

theorem RunId.text_injective : Function.Injective RunId.text := by
  rintro ⟨first, _⟩ ⟨second, _⟩ same
  cases same
  rfl

/-- A task an idle marker lists as running. -/
structure BackgroundTask where
  id : String
  description : String
  command : String
  deriving DecidableEq, Repr

/-- What is read of a run not finished yet. -/
structure LiveRun where
  runId : RunId
  taskId : Int64
  status : RunStatus
  workspaceId : Option String
  idle : Option (Int64 × List BackgroundTask)
  receipt : Option Int64
  input : Option Int64
  backgroundSince : Option Int64
  backgroundAlive : Option Bool
  deriving DecidableEq

/-- Everything the judgments of now read besides the events. -/
structure LiveInputs where
  slots : SlotSnapshot
  config : StallConfigReport
  runs : List LiveRun
  outliers : RunId → Option Int64
  positions : RunId → Option UInt64

/-- Where a run is put: one without a position after the rest. -/
def placeOf (positions : RunId → Option UInt64) (run : LiveRun) : Nat :=
  ((positions run.runId).map UInt64.toNat).getD (2 ^ 64 - 1)

/-- The runs are in the order of the queue's list of every run, and the thresholds and the
positions are of these runs. -/
structure LiveInputs.Listed (inputs : LiveInputs) : Prop where
  ascending : inputs.runs.Pairwise fun first second =>
    placeOf inputs.positions first < placeOf inputs.positions second
  outliersOf : ∀ run, run ∉ inputs.runs.map LiveRun.runId → inputs.outliers run = none
  positionsOf : ∀ run, run ∉ inputs.runs.map LiveRun.runId → inputs.positions run = none

theorem LiveInputs.Listed.distinct {inputs : LiveInputs} (listed : inputs.Listed) :
    (inputs.runs.map LiveRun.runId).Nodup := by
  rw [List.Nodup, List.pairwise_map]
  refine listed.ascending.imp fun before same => ?_
  rw [placeOf, placeOf, same] at before
  exact lt_irrefl _ before

/-! ### Listing the runs -/

/-- A run as the queue's list of every run has it. -/
structure QueueRun where
  id : RunId
  taskId : Int64
  status : RunStatus

def isFinished : RunStatus → Bool
  | .integrated | .succeeded | .failed | .interrupted => true
  | _ => false

/-- The runs from a position on that are not finished, `read` being what is read of one outside the
queue, and the position of each. -/
def liveRunsFrom (read : QueueRun → Except String LiveRun) :
    UInt64 → List QueueRun → Except String (List LiveRun × (RunId → Option UInt64))
  | _, [] => .ok ([], fun _ => none)
  | position, run :: rest =>
    if isFinished run.status then liveRunsFrom read (position + 1) rest
    else do
      let live ← read run
      let (lives, positions) ← liveRunsFrom read (position + 1) rest
      .ok (live :: lives, Function.update positions run.id (some position))

/-- The runs not finished yet, in the order of the list, and each one's position in it. -/
def liveRuns (read : QueueRun → Except String LiveRun) (all : List QueueRun) :
    Except String (List LiveRun × (RunId → Option UInt64)) := liveRunsFrom read 0 all

/-- What is listed from a position on. -/
structure ListedFrom (position : UInt64) (all : List QueueRun)
    (found : List LiveRun × (RunId → Option UInt64)) : Prop where
  ascending : found.1.Pairwise fun first second => placeOf found.2 first < placeOf found.2 second
  among : ∀ live ∈ found.1, ∃ run ∈ all, live.runId = run.id
  from_ : ∀ run place, found.2 run = some place →
    position.toNat ≤ place.toNat ∧ place.toNat < position.toNat + all.length
  placed : ∀ live ∈ found.1, ∃ place, found.2 live.runId = some place
  positionsOf : ∀ run, run ∉ found.1.map LiveRun.runId → found.2 run = none

theorem listedFrom {read : QueueRun → Except String LiveRun}
    (named : ∀ run live, read run = .ok live → live.runId = run.id) {all : List QueueRun}
    (distinct : (all.map QueueRun.id).Nodup) {position : UInt64}
    (small : position.toNat + all.length < 2 ^ 64)
    {found : List LiveRun × (RunId → Option UInt64)}
    (isFound : liveRunsFrom read position all = .ok found) : ListedFrom position all found := by
  induction all generalizing position found with
  | nil =>
    rw [liveRunsFrom, Except.ok.injEq] at isFound
    subst isFound
    exact ⟨.nil, fun _ member => absurd member List.not_mem_nil,
      fun _ _ held => absurd held (Option.some_ne_none _).symm,
      fun _ member => absurd member List.not_mem_nil, fun _ _ => rfl⟩
  | cons run rest inductionHypothesis =>
    rw [List.map_cons, List.nodup_cons] at distinct
    rw [List.length_cons] at small
    have next : (position + 1).toNat = position.toNat + 1 := by
      have one : (1 : UInt64).toNat = 1 := rfl
      have fits : position.toNat + 1 < 2 ^ 64 := by omega
      rw [UInt64.toNat_add, one, Nat.mod_eq_of_lt fits]
    have nextSmall : (position + 1).toNat + rest.length < 2 ^ 64 := by omega
    rw [liveRunsFrom] at isFound
    split at isFound
    · have listed := inductionHypothesis distinct.2 nextSmall isFound
      refine ⟨listed.ascending, fun live member => ?_, fun other place held => ?_, listed.placed,
        listed.positionsOf⟩
      · obtain ⟨other, inside, same⟩ := listed.among live member
        exact ⟨other, List.mem_cons_of_mem _ inside, same⟩
      · obtain ⟨low, high⟩ := listed.from_ other place held
        rw [List.length_cons]
        omega
    · cases isRead : read run with
      | error reason => rw [isRead] at isFound; cases isFound
      | ok live =>
        cases isRest : liveRunsFrom read (position + 1) rest with
        | error reason => rw [isRead, isRest] at isFound; cases isFound
        | ok others =>
          rw [isRead, isRest] at isFound
          have isPair : (live :: others.1, Function.update others.2 run.id (some position)) =
              found := Except.ok.inj isFound
          subst isPair
          have listed := inductionHypothesis distinct.2 nextSmall isRest
          have isOwn := named run live isRead
          -- the run is none of those after it
          have apart : ∀ other ∈ others.1, other.runId ≠ run.id := fun other member same => by
            obtain ⟨listedRun, inside, isListed⟩ := listed.among other member
            exact distinct.1 (List.mem_map.mpr ⟨listedRun, inside, isListed.symm.trans same⟩)
          have placeSame : ∀ other ∈ others.1,
              placeOf (Function.update others.2 run.id (some position)) other =
                placeOf others.2 other := fun other member => by
            rw [placeOf, placeOf, Function.update_of_ne (apart other member)]
          refine ⟨List.pairwise_cons.mpr ⟨fun other member => ?_, ?_⟩, ?_, ?_, ?_, ?_⟩
          · obtain ⟨place, held⟩ := listed.placed other member
            obtain ⟨low, _⟩ := listed.from_ other.runId place held
            dsimp only
            rw [placeSame other member, placeOf, placeOf, isOwn, Function.update_self, held,
              Option.map_some, Option.map_some, Option.getD_some, Option.getD_some]
            omega
          · refine listed.ascending.imp_of_mem fun {first second} firstIn secondIn before => ?_
            rw [placeSame first firstIn, placeSame second secondIn]
            exact before
          · intro other member
            rcases List.mem_cons.mp member with rfl | inRest
            · exact ⟨run, List.mem_cons_self, isOwn⟩
            · obtain ⟨listedRun, inside, same⟩ := listed.among other inRest
              exact ⟨listedRun, List.mem_cons_of_mem _ inside, same⟩
          · intro other place held
            rw [List.length_cons]
            dsimp only at held
            by_cases same : other = run.id
            · rw [same, Function.update_self, Option.some.injEq] at held
              rw [held]
              omega
            · rw [Function.update_of_ne same] at held
              obtain ⟨low, high⟩ := listed.from_ other place held
              omega
          · intro other member
            rcases List.mem_cons.mp member with rfl | inRest
            · exact ⟨position, by dsimp only; rw [isOwn, Function.update_self]⟩
            · obtain ⟨place, held⟩ := listed.placed other inRest
              exact ⟨place, by dsimp only; rw [Function.update_of_ne (apart other inRest), held]⟩
          · intro other outside
            rw [List.map_cons, List.mem_cons, not_or, isOwn] at outside
            dsimp only
            rw [Function.update_of_ne outside.1]
            exact listed.positionsOf other outside.2

/-- The inputs a supervisor lists are in the queue's order, and name its own runs only. -/
theorem liveRuns_listed {read : QueueRun → Except String LiveRun}
    (named : ∀ run live, read run = .ok live → live.runId = run.id) {all : List QueueRun}
    (distinct : (all.map QueueRun.id).Nodup) (small : all.length < 2 ^ 64)
    {inputs : LiveInputs} (listed : liveRuns read all = .ok (inputs.runs, inputs.positions))
    (outliersOf : ∀ run, run ∉ inputs.runs.map LiveRun.runId → inputs.outliers run = none) :
    inputs.Listed := by
  have found := listedFrom named distinct (by simpa using small) listed
  exact ⟨found.ascending, outliersOf, found.positionsOf⟩

end Dagq.Alerts
