/-
This file models the paragraph that a recheck of a waiting run's landing puts in the
run's open questions: one text for each finding, in place of the paragraph of the
finding before. The log of main's own failure is read again from the paragraph.
-/

import Dagq.Lib.Debug
import Dagq.Lib.Paragraphs
import Dagq.Runs.Run

namespace Dagq.Recheck

open Lib Runs

/-- The identity of a run: never blank. -/
structure RunId where
  text : String
  visible : isBlank text = false

/-- The run and the task whose landing moved main. -/
structure Landed where
  runId : RunId
  taskId : Int

/-! ### The paragraphs of the findings -/

def askNotePrefix : List Char := "Landing recheck: ".toList

def mainFailedSee : List Char := " The command fails on main alone too (see ".toList

def mainFailedEnd : List Char :=
  "): the run is not resumed and keeps waiting to land.".toList

/-- What a finding starts with: the landing that moved main. -/
def after : Option Landed → List Char
  | some landed =>
    "after task ".toList ++ (toString landed.taskId).toList ++ " (run ".toList ++
      landed.runId.text.toList ++ ") landed, the landing recheck found".toList
  | none => "after main moved without a dagq landing, the landing recheck found".toList

/-- A failure of the code, after which the run is resumed or parked. -/
def askNote (reason : List Char) (resumed : Bool) : List Char :=
  let next :=
    if resumed then
      "The supervisor resumes the run to bring it onto main without waiting for this answer; once it waits again, the answer applies to the rebased run.".toList
    else
      "The supervisor parks the run for a resume instead of landing it once its session has exited.".toList
  askNotePrefix ++ reason ++ ". ".toList ++ next

/-- A failure on the host. -/
def skippedAskNote (reason : List Char) : List Char :=
  askNotePrefix ++ reason ++
    ". The host kept the command from judging the code: the run is not resumed and keeps waiting to land.".toList

/-- A command refused its container. -/
def refusedAskNote (reason : List Char) : List Char :=
  askNotePrefix ++ reason ++
    ". Nothing judged the code: the run is not resumed and keeps waiting to land.".toList

/-- A run that still lands. -/
def cleanAskNote (printable : Char → Bool) (landed : Option Landed) (main : CommitSha)
    (command : Option (List Char)) : List Char :=
  let short := main.text.toList.take 12
  let checked :=
    match command with
    | some command =>
      "git merges it without a conflict and ".toList ++ debugText printable command ++
        " passes on main with the run merged in".toList
    | none => "git merges it without a conflict (no command was run)".toList
  askNotePrefix ++ after landed ++ " that the run still lands cleanly on main ".toList ++ short ++
    ": ".toList ++ checked ++ ".".toList

/-- A failure that main has by itself, and the log of it. -/
def mainFailedAskNote (reason mainLog : List Char) : List Char :=
  askNotePrefix ++ reason ++ ".".toList ++ mainFailedSee ++ mainLog ++ mainFailedEnd

/-! ### The paragraph in a question -/

/-- Whether a paragraph is a recheck's. -/
def isRecheck (paragraph : List Char) : Bool := askNotePrefix.isPrefixOf (trimStart paragraph)

/-- The question with the note as its recheck's paragraph, at its end. -/
def notedQuestion (question note : List Char) : List Char :=
  trimEnd (joined ((paragraphs question).filter fun paragraph => !isRecheck paragraph)) ++
    "\n\n".toList ++ note

/-- The text without an ending, when it has it. -/
def stripSuffix (ending text : List Char) : Option (List Char) :=
  if ending.isSuffixOf text then some (text.take (text.length - ending.length)) else none

/-- The log that the recheck's paragraph of a question points at. -/
def askedMainLog (question : List Char) : Option (List Char) := do
  let paragraph ← (paragraphsFromEnd question).find? isRecheck
  let body ← stripSuffix mainFailedEnd (trimEnd paragraph)
  let (_, log) ← splitAtLast mainFailedSee body
  some log

/-! ### The notes that are made -/

/-- What a note is made from. -/
inductive Note where
  | ask (reason : List Char) (resumed : Bool)
  | skipped (reason : List Char)
  | refused (reason : List Char)
  | clean (landed : Option Landed) (main : CommitSha) (command : Option (List Char))
  | mainFailed (reason mainLog : List Char)

def Note.text (printable : Char → Bool) : Note → List Char
  | ask reason resumed => askNote reason resumed
  | skipped reason => skippedAskNote reason
  | refused reason => refusedAskNote reason
  | clean landed main command => cleanAskNote printable landed main command
  | mainFailed reason mainLog => mainFailedAskNote reason mainLog

/-- The log that a note points at. -/
def Note.mainLog : Note → Option (List Char)
  | mainFailed _ mainLog => some mainLog
  | _ => none

end Dagq.Recheck
