/-
This file models the passes of a supervisor over the candidates: each candidate
is judged by its worker, the build and the hotspots in turn, those that pass by
the claim order, and every record is written of its task. What a supervisor keeps
between its passes is in its memory alone; one that starts again makes it from
the latest record of each task.

Beside what the code keeps, the system watches two things: what the supervisor
held of each task at the end of its last pass, and the deferral of each task on
the hotspots as its records tell it from the start.
-/

import Dagq.Defer.Decide
import Dagq.Lib.Transition

namespace Dagq.Defer

open Dagq.Ledger Dagq.Lib

/-! ### A pass over one task -/

/-- A time of the queue: the text its records carry, and what it reads as. -/
structure Moment where
  text : String
  millis : Int
  reads : timestampMillis text = some millis
  fits : checked (millis.tdiv 1000) = some (millis.tdiv 1000)

def Moment.secs (moment : Moment) : Int := moment.millis.tdiv 1000

/-- What a pass is made with. -/
structure Settings where
  moment : Moment
  maxSecs : Int
  /-- How long the passes have had a free normal slot. -/
  normalSecs : Option Int
  build : String
  token : String

/-- What a pass finds of a task. -/
structure Look where
  candidate : Bool
  worker : Option (Runs.Worker × WorkerReason) := none
  lacking : Option (List Landing) := none
  interrupt : Bool := false
  overlap : Option Overlap := none
  leftOut : Option LeftOut := none
  order : Option OrderHold := none

/-- What a supervisor keeps of a task between its passes. -/
structure Kept where
  hot : Option Deferral := none
  worker : Option (String × Int) := none
  build : Option Int := none
  order : Option (String × Int) := none

inductive Outcome where
  | notCandidate
  | forWorker
  | forBuild
  | forHotspot
  | passed
  deriving DecidableEq, Repr

structure Judged where
  records : List Record
  kept : Kept
  outcome : Outcome

section Pass

variable (settings : Settings) (look : Look)

def hotStep (records : List Record) (kept : Kept) : Judged :=
  match decide look.interrupt look.overlap look.leftOut kept.hot settings.moment.secs
    settings.maxSecs settings.token with
  | (.claim event, hot) => ⟨records ++ event.toList, { kept with hot := hot }, .passed⟩
  | (.defer event, hot) => ⟨records ++ event.toList, { kept with hot := hot }, .forHotspot⟩

/-- Before the hotspots: a task the build cannot serve waits whatever its files meet. -/
def buildStep (records : List Record) (workerCleared : Bool) (kept : Kept) : Judged :=
  match buildDecide look.lacking workerCleared kept.build kept.hot settings.build
    settings.moment.secs settings.token with
  | (.defer event, build, hot) =>
    ⟨records ++ event.toList, { kept with build := build, hot := hot }, .forBuild⟩
  | (.claim event, build, hot) =>
    hotStep settings look (records ++ event.toList) { kept with build := build, hot := hot }

def candidateStep (kept : Kept) : Judged :=
  match workerStep look.worker kept.worker settings.moment.secs settings.token with
  | (.deferred records, worker) => ⟨records, { kept with worker := worker }, .forWorker⟩
  | (.cleared record, worker) =>
    buildStep settings look [record] true { kept with worker := worker }
  | (.goesOn, worker) => buildStep settings look [] false { kept with worker := worker }

/-- A task that left the candidates ends its deferrals. -/
def goneStep (kept : Kept) : Judged where
  records :=
    (kept.worker.map fun placed => deferralEnded placed.1 "not_candidate" placed.2
      settings.moment.secs settings.token).toList ++
    (kept.build.map fun since => deferralEnded notInBuild "not_candidate" since
      settings.moment.secs settings.token).toList ++
    (kept.hot.bind fun placed => left placed settings.moment.secs settings.token).toList
  kept := { order := kept.order }
  outcome := .notCandidate

/-- The order's deferral of a task, once the other judgements are made. -/
def orderStep (judged : Judged) : Judged :=
  let candidate := judged.outcome != .notCandidate
  let passed := judged.outcome == .passed
  let hold := if passed then look.order else none
  let (ended, kept) : List Record × Option (String × Int) :=
    match judged.kept.order with
    | none => ([], none)
    | some (why, since) =>
      match classDeferralStep why (hold.map OrderHold.asStr) candidate passed
        settings.normalSecs with
      | .stays => ([], some (why, since))
      | .superseded => ([], none)
      | .ended end_ =>
        ([carrying judged.kept.hot (deferralEnded why end_ since settings.moment.secs
          settings.token)], none)
  match hold, kept with
  | some hold, none =>
    ⟨judged.records ++ ended ++ [carrying judged.kept.hot (orderDeferred hold settings.token)],
      { judged.kept with order := some (hold.asStr, settings.moment.secs) }, judged.outcome⟩
  | _, _ => ⟨judged.records ++ ended, { judged.kept with order := kept }, judged.outcome⟩

def judge (kept : Kept) : Judged :=
  orderStep settings look
    (if look.candidate then candidateStep settings look kept else goneStep settings kept)

end Pass

/-! ### The system -/

/-- A record as the queue stores it. -/
def stamp (settings : Settings) (task id : Nat) (record : Record) : RunEvent where
  id := id
  taskId := some task
  kind := record.1
  payload := record.2
  createdAt := settings.moment.text

/-- The records of a task with those of a pass after them. -/
def written (settings : Settings) (task : Nat) (log : List RunEvent) (records : List Record) :
    List RunEvent :=
  records.foldl (fun log record => log ++ [stamp settings task log.length record]) log

def reasonOf (record : Record) : Option String := (record.2.get "reason").bind Value.asStr

def whyOf (record : Record) : Option String := (record.2.get "why").bind Value.asStr

/-- A deferral on the hotspots as its records tell it: one that ran out stays, and a wait for
the build replaces an open one. -/
def watch (now : Int) (begun : Option Deferral) (record : Record) : Option Deferral :=
  if record.1 = .claimDeferred then
    if reasonOf record = some hotFiles then some ⟨now, false⟩
    else if reasonOf record = some notInBuild then begun.filter fun deferral => deferral.expired
    else begun
  else if record.1 = .claimDeferralEnded ∧ reasonOf record = some hotFiles then
    if whyOf record = some "expired" then begun.map fun deferral => ⟨deferral.since, true⟩
    else none
  else begun

structure System where
  /-- The records of each task's deferrals and claims, in order. -/
  records : Nat → List RunEvent := fun _ => []
  /-- The memory of the supervisor, once its first pass made it. -/
  memory : Option (Nat → Kept) := none
  /-- Watched: the hotspot deferral of each task at the end of the last pass. -/
  held : Nat → Option Deferral := fun _ => none
  /-- Watched: the hotspot deferral that began of each task, as its records tell it. -/
  begun : Nat → Option Deferral := fun _ => none

namespace System

variable (system : System)

def latest (task : Nat) : Option RunEvent := (system.records task).getLast?

/-- What a supervisor starts from. -/
def rebuilt (task : Nat) : Kept where
  hot := (system.latest task).bind deferralInPlace
  worker := (system.latest task).bind workerDeferralInPlace
  build := (system.latest task).bind buildDeferralInPlace
  order := (system.latest task).bind classDeferralInPlace

def kept (task : Nat) : Kept := (system.memory.getD system.rebuilt) task

def judged (settings : Settings) (looks : Nat → Look) (task : Nat) : Judged :=
  judge settings (looks task) (system.kept task)

def pass (settings : Settings) (looks : Nat → Look) : System where
  records task := written settings task (system.records task)
    (system.judged settings looks task).records
  memory := some fun task => (system.judged settings looks task).kept
  held task := (system.judged settings looks task).kept.hot
  begun task :=
    if (looks task).candidate then
      (system.judged settings looks task).records.foldl (watch settings.moment.secs)
        (system.begun task)
    else none

/-- A task is claimed, by whichever supervisor. -/
def claimed (task : Nat) (event : RunEvent) : System :=
  { system with
    records := Function.update system.records task (system.records task ++ [event])
    begun := Function.update system.begun task none }

def restart : System := { system with memory := none }

end System

/-- A record of another judgement than the hotspots' and the claim order's. -/
def Hides (event : RunEvent) : Prop :=
  ∃ reason, event.text "reason" = some reason ∧ reason ≠ hotFiles ∧ reason ∉ orderDeferrals

/-- No deferral that began on the hotspots is behind a record of the worker's or the build's. -/
def Shown (system : System) : Prop :=
  ∀ task, system.begun task ≠ none → ∀ event, system.latest task = some event → ¬Hides event

/-- What happens: a pass, the first one of a supervisor where the records show the deferrals; a
claim; and a restart. -/
inductive Step : System → System → Prop
  | pass {system : System} (settings : Settings) (looks : Nat → Look)
      (shown : system.memory = none → Shown system) : Step system (system.pass settings looks)
  | claimed {system : System} (task : Nat) (event : RunEvent) (kind : event.kind = .runClaimed)
      (owner : event.taskId = some task) : Step system (system.claimed task event)
  | restart {system : System} : Step system system.restart

end Dagq.Defer
