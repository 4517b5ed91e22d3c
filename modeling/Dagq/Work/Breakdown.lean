/-
This file models how the time of a session is broken down: the tool calls of its
transcript become commands with a start and an end, the model's time lies between a
record and the `assistant` record after it, and the span is cut wherever one of these
starts or ends, each piece counted to one category. A breakdown made to one end is
made to another without the transcript.
-/

import Mathlib.Data.List.Dedup
import Mathlib.Data.List.Sort
import Mathlib.Data.Prod.Lex
import Mathlib.Data.String.Basic
import Dagq.Lib.Ordered
import Dagq.Lib.Pieces

namespace Dagq.Work

open Lib

/-! ### Transcripts -/

inductive RecordRole where
  | input
  | output
  | other
  deriving DecidableEq, Repr

structure ToolUse where
  id : String
  name : String
  command : Option String := none
  background : Bool := false
  deriving DecidableEq, Repr

structure ToolResult where
  toolUseId : String
  isError : Bool := false
  exitCode : Option Int := none
  failedTests : List String := []
  deriving DecidableEq, Repr

/-- The end of a background command or a subagent, announced. -/
structure Notification where
  toolUseId : String
  status : Option String := none
  exitCode : Option Int := none
  deriving DecidableEq, Repr

/-- What a breakdown reads of a transcript's record; its time in milliseconds. -/
structure TranscriptRecord where
  at_ : Int
  role : RecordRole := .output
  sidechain : Bool := false
  assistant : Bool := false
  toolUses : List ToolUse := []
  toolResults : List ToolResult := []
  notification : Option Notification := none
  deriving DecidableEq, Repr

/-! ### Classifying commands -/

inductive RuleSource where
  | project
  | profile (name : String)
  | common
  deriving DecidableEq, Repr

/-- The rule a command matched. -/
structure Matched where
  class_ : String
  group : String
  source : RuleSource
  deriving DecidableEq, Repr

/-- What a breakdown asks of the rules that classify commands: the rule a command's
earliest-matched part matched, the classes of its parts, whether a rule gives a class of
`integrate`'s checks, and whether failed tests are named. -/
structure CommandClassifier where
  classifyText : String → Option Matched
  partClasses : String → List String
  countsChecks : Bool
  namesFailedTests : Bool

def model : String := "model"

def otherCommand : String := "other_command"

def wait : String := "wait"

def tool : String := "tool"

def subagent : String := "subagent"

def idle : String := "idle"

/-- Every category of the runtime's own, in the order that breaks ties. -/
def categories : List String :=
  [model, "chain", "e2e", "llvm_cov", "test", "build", "fmt", wait, "dagq", "git", otherCommand,
    tool, subagent, idle]

/-- The place of a category; one of a project's own comes after all. -/
def order (category : String) : Nat := categories.idxOf category

/-- The category of a shell command, and whether it is one of the heavy commands. -/
def label (command : String) (rules : CommandClassifier) : String × Bool :=
  match rules.classifyText command with
  | some matched => (matched.group, matched.source != .common)
  | none => (otherCommand, false)

def fullTest : String := "full_test"

def llvmCov : String := "llvm_cov"

/-- The classes of `integrate`'s checks. -/
def checkClassNames : List String := [fullTest, llvmCov, "e2e"]

/-- The classes of `integrate`'s checks a command runs, each once. -/
def checkClasses (command : String) (rules : CommandClassifier) : List String :=
  let classes := (rules.partClasses command).filter (checkClassNames.contains ·)
  (classes.insertionSort (· ≤ ·)).dedup

/-- What a command runs that a breakdown counts. -/
structure Runs where
  classes : List String := []
  fullTest : Bool := false
  llvmCov : Bool := false
  deriving DecidableEq, Repr

def runsOf (command : String) (rules : CommandClassifier) : Runs where
  classes := checkClasses command rules
  fullTest := (rules.partClasses command).contains Work.fullTest
  llvmCov := (rules.partClasses command).contains Work.llvmCov

/-! ### Commands -/

/-- One tool call of the span; `finished` when its end was seen. -/
structure Command where
  toolUseId : String
  tool : String
  category : String
  heavy : Bool
  start : Int
  end_ : Int
  finished : Bool
  background : Bool
  exitCode : Option Int
  failed : Option Bool
  status : Option String
  command : Option String
  failedTests : List String
  deriving DecidableEq, Repr

def Command.priority (command : Command) : Nat :=
  if command.category = subagent then 3
  else if command.background then 2
  else 1

/-- Tools that only wait. -/
def waitTools : List String := ["ScheduleWakeup", "Monitor", "TaskOutput", "BashOutput"]

/-- The first result of a tool use, with its time. -/
def resultOf (records : List TranscriptRecord) (id : String) : Option (Int × ToolResult) :=
  (records.flatMap fun record => record.toolResults.map fun result => (record.at_, result)).find?
    fun result => result.2.toolUseId = id

/-- The first notification of a tool use's end, with its time. -/
def noticeOf (records : List TranscriptRecord) (id : String) : Option (Int × Notification) :=
  (records.flatMap fun record =>
    record.notification.toList.map fun notice => (record.at_, notice)).find?
      fun notice => notice.2.toolUseId = id

/-- Of a tool use: its category, whether it is heavy, whether it runs in the background, and
when it ended. A background command ends at its notification. -/
def endOf (toolUse : ToolUse) (result : Option (Int × ToolResult))
    (notice : Option (Int × Notification)) (rules : CommandClassifier) :
    (String × Bool) × Bool × Option Int :=
  let shellLabel := label (toolUse.command.getD "") rules
  if toolUse.name = "Agent" then
    ((subagent, false), notice.isSome, (notice.map (·.1)).or (result.map (·.1)))
  else if toolUse.command.isSome && (toolUse.background || notice.isSome) then
    (shellLabel, true, notice.map (·.1))
  else if toolUse.command.isSome then (shellLabel, false, result.map (·.1))
  else if toolUse.name ∈ waitTools then ((wait, false), false, result.map (·.1))
  else ((tool, false), false, result.map (·.1))

/-- The exit code of a tool use, whether it failed, and its status. -/
def outcomeOf (background : Bool) (result : Option ToolResult) (notice : Option Notification) :
    Option Int × Option Bool × Option String :=
  match background, notice, result with
  | true, some notice, _ =>
    (notice.exitCode,
      if notice.status = some "failed" then some true
      else if notice.status = some "completed" then some (notice.exitCode.any (· != 0))
      else none,
      notice.status)
  | false, _, some result =>
    (result.exitCode, some (result.isError || result.exitCode.any (· != 0)), none)
  | _, _, _ => (none, none, none)

/-- The command of a tool use of the record at `at_`, cut at the span's end `to_`. -/
def commandOf (records : List TranscriptRecord) (to_ : Int) (rules : CommandClassifier)
    (at_ : Int) (toolUse : ToolUse) : Command :=
  let result := resultOf records toolUse.id
  let notice := noticeOf records toolUse.id
  let ended := endOf toolUse result notice rules
  let outcome := outcomeOf ended.2.1 (result.map (·.2)) (notice.map (·.2))
  { toolUseId := toolUse.id
    tool := toolUse.name
    category := ended.1.1
    heavy := ended.1.2
    start := at_
    end_ := match ended.2.2 with
      | some end_ => max at_ (min end_ to_)
      | none => to_
    finished := ended.2.2.isSome
    background := ended.2.1
    exitCode := outcome.1
    failed := outcome.2.1
    status := outcome.2.2
    command := toolUse.command
    failedTests :=
      if !ended.2.1 && toolUse.command.isSome && (ended.1.2 && rules.namesFailedTests) then
        (result.map (·.2.failedTests)).getD []
      else [] }

/-- The tool calls that start in the span. -/
def commandsOf (records : List TranscriptRecord) (from_ to_ : Int) (rules : CommandClassifier) :
    List Command :=
  (records.filter fun record =>
    !record.sidechain && decide (from_ ≤ record.at_) && decide (record.at_ < to_)).flatMap
      fun record => record.toolUses.map (commandOf records to_ rules record.at_)

/-- The model's time: from a record of the main session to the `assistant` record after it. -/
def modelIntervals (records : List TranscriptRecord) : List (Int × Int) :=
  let main := records.filter fun record => !record.sidechain && record.role != .other
  let main := main.insertionSort fun first second => first.at_ ≤ second.at_
  ((main.zip main.tail).filter fun pair => pair.2.assistant).map fun pair =>
    (pair.1.at_, pair.2.at_)

/-! ### The breakdown -/

/-- A stretch of time that counts to a category by its priority. -/
structure Interval where
  start : Int
  end_ : Int
  priority : Nat
  category : String
  deriving DecidableEq, Repr

namespace Interval

/-- The interval within the span. -/
def cut (from_ to_ : Int) (interval : Interval) : Interval :=
  { interval with start := max interval.start from_, end_ := min interval.end_ to_ }

/-- What intervals are sorted by before their ends: the priority, the category's place, and the
start. -/
def rank (interval : Interval) : ℕ ×ₗ ℕ ×ₗ ℤ :=
  toLex (interval.priority, toLex (order interval.category, interval.start))

end Interval

/-- The intervals of the span's commands and the model, cut to the span. -/
def intervalsOf (commands : List Command) (modelTime : List (Int × Int)) (from_ to_ : Int) :
    List Interval :=
  let ofCommands := commands.map fun command =>
    Interval.mk command.start command.end_ command.priority command.category
  let ofModel := modelTime.map fun time => Interval.mk time.1 time.2 4 model
  ((ofCommands ++ ofModel).map (Interval.cut from_ to_)).filter fun interval =>
    interval.start < interval.end_

/-- Where the span is cut. -/
def boundsOf (intervals : List Interval) (from_ to_ : Int) : List Int :=
  ((intervals.flatMap (fun interval => [interval.start, interval.end_]) ++
    [from_, to_]).insertionSort (· ≤ ·)).dedup

/-- The pieces of the span, each with the category of the first interval over it. -/
def windowsOf (intervals : List Interval) (from_ to_ : Int) : List (Int × Int × String) :=
  let sorted := intervals.insertionSort fun first second =>
    toLex (first.rank, first.end_) ≤ toLex (second.rank, second.end_)
  let bounds := boundsOf intervals from_ to_
  (bounds.zip bounds.tail).map fun (start, end_) =>
    (start, end_, ((sorted.find? fun interval =>
      interval.start ≤ start && end_ ≤ interval.end_).map Interval.category).getD idle)

/-- The work of one span. -/
structure Breakdown where
  totalMillis : Int
  millis : Ordered String Int
  commands : List Command
  verificationRepeats : Option Nat
  fullTests : Option Nat
  llvmCovRuns : Option Nat
  to_ : Int
  windows : List (Int × Int × String)
  runs : Option (List Runs)
  wanted : List String
  rules : CommandClassifier

namespace Breakdown

def countRepeats (breakdown : Breakdown) : Breakdown :=
  { breakdown with
    verificationRepeats := breakdown.runs.map fun runs =>
      (runs.filter fun run => run.classes.any (breakdown.wanted.contains ·)).length }

/-- Count what its commands repeat of `integrate`'s checks. -/
def verify (breakdown : Breakdown) (verification : List String) : Breakdown :=
  { breakdown with
    wanted := verification.flatMap fun command =>
      checkClasses command breakdown.rules }.countRepeats

/-- The milliseconds of each category. -/
def millisOf (windows : List (Int × Int × String)) : Ordered String Int :=
  windows.foldl (fun millis (start, end_, category) =>
    millis.insert category ((millis.get? category).getD 0 + (end_ - start))) Ordered.empty

/-- Count its milliseconds by category, and what its commands run. -/
def count (breakdown : Breakdown) : Breakdown :=
  { breakdown with
    millis := millisOf breakdown.windows
    fullTests := breakdown.runs.map fun (runs : List Runs) => (runs.filter Runs.fullTest).length
    llvmCovRuns := breakdown.runs.map fun (runs : List Runs) =>
      (runs.filter Runs.llvmCov).length }.countRepeats

end Breakdown

def assemble (commands : List Command) (modelTime : List (Int × Int)) (from_ to_ : Int)
    (verification : List String) (rules : CommandClassifier) : Breakdown :=
  let made : Breakdown :=
    { totalMillis := to_ - from_
      millis := Ordered.empty
      commands := commands
      verificationRepeats := none
      fullTests := none
      llvmCovRuns := none
      to_ := to_
      windows := windowsOf (intervalsOf commands modelTime from_ to_) from_ to_
      runs := if rules.countsChecks then some (commands.map fun command =>
        match command.command with
        | some text => runsOf text rules
        | none => {}) else none
      wanted := []
      rules := rules }
  made.count.verify verification

/-- The breakdown of the span of `records`. -/
def breakdown (records : List TranscriptRecord) (from_ to_ : Int) (verification : List String)
    (rules : CommandClassifier) : Breakdown :=
  let to_ := max to_ from_
  assemble (commandsOf records from_ to_ rules) (modelIntervals records) from_ to_ verification
    rules

namespace Breakdown

/-- The runs of the commands kept. -/
def retainRuns : List Bool → List Runs → List Runs
  | true :: kept, run :: runs => run :: retainRuns kept runs
  | false :: kept, _ :: runs => retainRuns kept runs
  | _, _ => []

/-- Cut at an earlier end, whatever the records. -/
def cutTo (breakdown : Breakdown) (to_ : Int) : Breakdown :=
  { breakdown with
    runs := breakdown.runs.map
      (retainRuns (breakdown.commands.map fun command => decide (command.start < to_)))
    commands := (breakdown.commands.filter fun command => command.start < to_).map fun command =>
      { command with end_ := min command.end_ to_ }
    windows := endLast (min · to_) (breakdown.windows.filter fun window => window.1 < to_) }

/-- Stretched to a later end: the commands not ended and the last window are longer. -/
def stretchTo (breakdown : Breakdown) (from_ to_ : Int) : Breakdown :=
  { breakdown with
    commands := breakdown.commands.map fun command =>
      if command.finished then command else { command with end_ := to_ }
    windows := match breakdown.windows with
      | [] => [(from_, to_, idle)]
      | windows => endLast (fun _ => to_) windows }

/-- Make it the breakdown to `to_` instead, the last record of its transcript at `last`; whether
it did. -/
def retarget (breakdown : Breakdown) (last : Option Int) (to_ : Int) : Bool × Breakdown :=
  let from_ := breakdown.to_ - breakdown.totalMillis
  let to_ := max to_ from_
  if to_ = breakdown.to_ then (true, breakdown)
  else if to_ < breakdown.to_ then
    (true, { breakdown.cutTo to_ with totalMillis := to_ - from_, to_ := to_ }.count)
  else if last.any (breakdown.to_ ≤ ·) then (false, breakdown)
  else (true, { breakdown.stretchTo from_ to_ with totalMillis := to_ - from_, to_ := to_ }.count)

end Breakdown

end Dagq.Work
