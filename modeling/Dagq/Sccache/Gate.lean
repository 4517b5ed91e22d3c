/-
This file models the gate of a turn's sccache server: the text that says whether
the agent compiles through the guard, how it is read back, and what each of the
two sides that write and read it does next.
-/

import Dagq.Lib.Text
import Mathlib.Tactic

namespace Dagq.Sccache

open Dagq.Lib

/-- How a text and a time span show in a message. -/
structure Shown where
  text : String → String
  span : Nat → String

/-! ### The gate and its text -/

/-- What the gate of a turn's container says. -/
inductive ContainerGate where
  /-- The agent compiles through the guard. -/
  | started
  /-- The server was not started, or the guard not made. -/
  | failed (why : String)
  /-- The launcher found no gate within its wait. -/
  | timedOut (why : String)
  deriving DecidableEq, Repr

namespace ContainerGate

/-- The file's text. -/
def text : ContainerGate → String
  | started => "started"
  | failed why => "failed: " ++ why
  | timedOut why => "timed out: " ++ why

/-- The gate a file's text says; none for an empty one. -/
def parse (shown : Shown) (text : String) : Option ContainerGate :=
  let text := trim text
  if text = "" then none
  else if text = "started" then some started
  else match text.toList.dropPrefix? "failed: ".toList with
    | some why => some (failed (String.ofList why))
    | none => match text.toList.dropPrefix? "timed out: ".toList with
      | some why => some (timedOut (String.ofList why))
      | none => some (failed ("the gate " ++ shown.text text ++ " is not one"))

/-- Why the agent runs without the guard, if it does. -/
def why : ContainerGate → Option String
  | started => none
  | failed why | timedOut why => some why

/-- A gate whose reason says something, and has no white space around it. -/
def tidy (gate : ContainerGate) : Bool := gate.why.all isTidy

end ContainerGate

/-! ### The launcher -/

/-- What the launcher's wait for the gate does next. -/
inductive GateStep where
  | wait
  | obey (gate : ContainerGate)
  | claim
  | abort (why : String)
  deriving DecidableEq, Repr

/-- The longest time span, in nanoseconds. -/
def spanMax : Nat := (2 ^ 64 - 1) * 1000000000 + 999999999

/-- Twice a time span, while there is one so long. -/
def twice (wait : Nat) : Nat := min (wait * 2) spanMax

/-- The launcher's next step after `waited` of its wait, the gate's text being `read`: none while
there is none, empty for one that cannot be read. -/
def gateStep (shown : Shown) (read : Option String) (waited wait : Nat) : GateStep :=
  match read.map (ContainerGate.parse shown) with
  | some (some gate) => .obey gate
  | some none =>
    if waited ≥ twice wait then
      .abort ("the sccache gate stayed empty for " ++ shown.span waited)
    else .wait
  | none => if waited ≥ wait then .claim else .wait

/-- Why the launcher's own gate timed out; its token is no other gate's. -/
def foundNoGate (shown : Shown) (wait : Nat) (token : String) : String :=
  "the container's launcher found no sccache gate within " ++ shown.span wait ++ " (gate " ++ token ++
    ")"

def wrapperVar : String := "RUSTC_WRAPPER"
/-- What the supervisor does at a turn's request, by the gate it finds. -/
inductive RequestStep where
  | start
  | record (gate : ContainerGate)
  | wait
  deriving DecidableEq, Repr

def RequestStep.of (shown : Shown) (gate : Option String) : RequestStep :=
  match gate.map (ContainerGate.parse shown) with
  | none => .start
  | some (some gate) => .record gate
  | some none => .wait

/-- The supervisor's verdict: started only when the server started and the guard was made. -/
def containerVerdict (started guard : Except String Unit) : ContainerGate :=
  match started, guard with
  | .error why, _ => .failed ("the container's sccache server was not started: " ++ why)
  | .ok _, .error why => .failed ("the guard was not made in the container: " ++ why)
  | .ok _, .ok _ => .started

/-- How the supervisor's write of its gate went. -/
inductive GateClaim where
  | won
  /-- A gate was there first, read with this text. -/
  | lost (text : String)
  | failed (why : String)
  deriving DecidableEq, Repr

/-- Why the agent runs without the wrapper once the supervisor wrote its verdict; none where it
compiles through the guard or another writer records it. -/
def removedAfter (shown : Shown) (verdict : ContainerGate) (claim : GateClaim) : Option String :=
  match claim with
  | .won => verdict.why
  | .lost text => match ContainerGate.parse shown text with
    | some (.timedOut why) => some why
    | _ => none
  | .failed why =>
    some ("the sccache gate could not be written: " ++ why ++ "; the agent runs without " ++
      wrapperVar ++ ", or none runs")

/-! ### What is read back -/

theorem isTidy_text {gate : ContainerGate} (tidy : gate.tidy = true) : isTidy gate.text = true := by
  cases gate with
  | started => decide
  | failed why => exact isTidy_append (by decide) tidy
  | timedOut why => exact isTidy_append (by decide) tidy

/-- A gate's text says that gate. -/
theorem parse_text (shown : Shown) {gate : ContainerGate} (tidy : gate.tidy = true) :
    ContainerGate.parse shown gate.text = some gate := by
  have whole := isTidy_text tidy
  unfold ContainerGate.parse
  simp only
  rw [trim_of_tidy whole, if_neg (ne_empty_of_tidy whole)]
  cases gate with
  | started => rfl
  | failed why =>
    have other : ContainerGate.text (.failed why) ≠ "started" := by
      intro same
      have chars := congrArg String.toList same
      rw [ContainerGate.text, String.toList_append] at chars
      exact absurd (Option.some.inj (congrArg List.head? chars)) (by decide : ¬ 'f' = 's')
    rw [if_neg other, ContainerGate.text, String.toList_append,
      List.dropPrefix?_append_of_beq _ BEq.rfl]
    simp only [String.ofList_toList]
  | timedOut why =>
    have other : ContainerGate.text (.timedOut why) ≠ "started" := by
      intro same
      have chars := congrArg String.toList same
      rw [ContainerGate.text, String.toList_append] at chars
      exact absurd (Option.some.inj (congrArg List.head? chars)) (by decide : ¬ 't' = 's')
    rw [if_neg other, ContainerGate.text, String.toList_append]
    have notFailed : ("timed out: ".toList ++ why.toList).dropPrefix? "failed: ".toList = none := rfl
    rw [notFailed]
    simp only
    rw [List.dropPrefix?_append_of_beq _ BEq.rfl]
    simp only [String.ofList_toList]

/-- A text that cannot be read says no gate. -/
theorem parse_empty (shown : Shown) : ContainerGate.parse shown "" = none := rfl

/-- The verdict of results with tidy reasons is tidy. -/
theorem tidy_containerVerdict {started guard : Except String Unit}
    (startedTidy : ∀ why, started = .error why → isTidy why = true)
    (guardTidy : ∀ why, guard = .error why → isTidy why = true) :
    (containerVerdict started guard).tidy = true := by
  cases started with
  | error why => exact isTidy_append (by decide) (startedTidy why rfl)
  | ok _ =>
    cases guard with
    | error why => exact isTidy_append (by decide) (guardTidy why rfl)
    | ok _ => rfl

theorem tidy_foundNoGate (shown : Shown) (wait : Nat) (token : String) :
    (ContainerGate.timedOut (foundNoGate shown wait token)).tidy = true := by
  have ends : isTidy ")" = true := by decide
  show isTidy (_ ++ ")") = true
  refine isTidy_append ?_ ends
  rw [String.toList_append, String.toList_append, String.toList_append]
  rfl

theorem containerVerdict_started {started guard : Except String Unit}
    (isStarted : containerVerdict started guard = .started) : started = .ok () ∧ guard = .ok () := by
  cases started with
  | error => cases isStarted
  | ok _ =>
    cases guard with
    | error => cases isStarted
    | ok _ => exact ⟨rfl, rfl⟩

/-- The launcher obeys what it read there. -/
theorem gateStep_obey {shown : Shown} {read : Option String} {waited wait : Nat}
    {gate : ContainerGate} (obeys : gateStep shown read waited wait = .obey gate) :
    read.map (ContainerGate.parse shown) = some (some gate) := by
  unfold gateStep at obeys
  split at obeys
  · rename_i found said
    rw [said, GateStep.obey.inj obeys]
  · split at obeys <;> cases obeys
  · split at obeys <;> cases obeys

end Dagq.Sccache
