/-
This file runs one turn's gate: the launcher, which looks until a gate is there
or its wait ends and then writes its own, and supervisor processes one after
another, which answer the request with the results of a start and of a guard, in
any order and each stopped anywhere. A gate is linked into place whole, and only
where none is.

Whatever the order, one gate stands, both sides read it back as its writer wrote
it, and what the agent is given and what a supervisor records agree with it.
-/

import Dagq.Lib.Transition
import Dagq.Sccache.Gate

namespace Dagq.Sccache

open Dagq.Lib

/-- Who wrote a gate, a supervisor with the results it had. -/
inductive Writer where
  | launcher
  | supervisor (started guard : Except String Unit)

/-- What stands in the gate's place: its text, and, watched, the gate and who wrote it. -/
structure Entry where
  text : String
  gate : ContainerGate
  writer : Writer

inductive Launcher where
  | looking (waited : Nat)
  | claiming (waited : Nat)
  /-- It gave the agent what the gate says. -/
  | obeyed (gate : ContainerGate)
  /-- It ended without an agent. -/
  | noAgent (why : String)

inductive Supervisor where
  | idle
  | starting
  | decided (started guard : Except String Unit)
  | wrote (verdict : ContainerGate) (claim : GateClaim)
  /-- It records what the gate it found says. -/
  | recording (gate : ContainerGate)

structure GateTurn where
  file : Option Entry
  launcher : Launcher
  supervisor : Supervisor

namespace GateTurn

def start : GateTurn := ⟨none, .looking 0, .idle⟩

/-- What a look at the gate reads: what stands, or an empty text where it cannot be read. -/
def Reads (turn : GateTurn) (read : Option String) : Prop :=
  read = turn.file.map Entry.text ∨ read = some ""

/-- What a supervisor whose gate came second says stands there. -/
def LostTo (entry : Entry) (text : String) : Prop :=
  text = entry.text ∨ text = "" ∨ ∃ why, text = "unreadable: " ++ why

/-- The launcher after a look. -/
def looked (turn : GateTurn) (step : GateStep) (waited : Nat) : GateTurn :=
  { turn with
    launcher := match step with
      | .wait => .looking waited
      | .obey gate => .obeyed gate
      | .claim => .claiming waited
      | .abort why => .noAgent why }

/-- The supervisor after a look at the request. -/
def requested (turn : GateTurn) (step : RequestStep) : GateTurn :=
  { turn with
    supervisor := match step with
      | .start => .starting
      | .record gate => .recording gate
      | .wait => .idle }

/-- The launcher's gate is in place, and obeyed. -/
def claimed (turn : GateTurn) (gate : ContainerGate) : GateTurn :=
  { turn with file := some ⟨gate.text, gate, .launcher⟩, launcher := .obeyed gate }

/-- The supervisor's verdict is in place. -/
def written (turn : GateTurn) (started guard : Except String Unit) : GateTurn :=
  let verdict := containerVerdict started guard
  { turn with
    file := some ⟨verdict.text, verdict, .supervisor started guard⟩
    supervisor := .wrote verdict .won }

end GateTurn

/-- A result whose reason, if it failed, says something with no white space around it. -/
def TidyResult (result : Except String Unit) : Prop :=
  ∀ why, result = .error why → isTidy why = true

/-- A step of one of the two sides. -/
inductive GateTurnStep (shown : Shown) (wait : Nat) : GateTurn → GateTurn → Prop where
  | look (turn : GateTurn) (before waited : Nat) (read : Option String)
      (looking : turn.launcher = .looking before) (later : before ≤ waited)
      (reads : turn.Reads read) :
      GateTurnStep shown wait turn (turn.looked (gateStep shown read waited wait) waited)
  | claim (turn : GateTurn) (waited : Nat) (token : String)
      (claiming : turn.launcher = .claiming waited) (free : turn.file = none) :
      GateTurnStep shown wait turn (turn.claimed (.timedOut (foundNoGate shown wait token)))
  /-- A gate was there first: the launcher looks again. -/
  | claimLost (turn : GateTurn) (waited : Nat) (entry : Entry)
      (claiming : turn.launcher = .claiming waited) (taken : turn.file = some entry) :
      GateTurnStep shown wait turn { turn with launcher := .looking waited }
  | claimFailed (turn : GateTurn) (waited : Nat) (why : String)
      (claiming : turn.launcher = .claiming waited) :
      GateTurnStep shown wait turn { turn with launcher := .noAgent why }
  | request (turn : GateTurn) (read : Option String) (idle : turn.supervisor = .idle)
      (reads : turn.Reads read) :
      GateTurnStep shown wait turn (turn.requested (RequestStep.of shown read))
  | serve (turn : GateTurn) (started guard : Except String Unit)
      (starting : turn.supervisor = .starting) (startedTidy : TidyResult started)
      (guardTidy : TidyResult guard) :
      GateTurnStep shown wait turn { turn with supervisor := .decided started guard }
  | write (turn : GateTurn) (started guard : Except String Unit)
      (decided : turn.supervisor = .decided started guard) (free : turn.file = none) :
      GateTurnStep shown wait turn (turn.written started guard)
  | writeLost (turn : GateTurn) (started guard : Except String Unit) (entry : Entry)
      (text : String) (decided : turn.supervisor = .decided started guard)
      (taken : turn.file = some entry) (lost : GateTurn.LostTo entry text) :
      GateTurnStep shown wait turn
        { turn with supervisor := .wrote (containerVerdict started guard) (.lost text) }
  | writeFailed (turn : GateTurn) (started guard : Except String Unit) (why : String)
      (decided : turn.supervisor = .decided started guard) :
      GateTurnStep shown wait turn
        { turn with supervisor := .wrote (containerVerdict started guard) (.failed why) }
  /-- A supervisor process ends or is stopped, and another goes on. -/
  | stop (turn : GateTurn) : GateTurnStep shown wait turn { turn with supervisor := .idle }

variable {shown : Shown} {wait : Nat}

/-! ### The gate that stands -/

/-- A gate that stands is told by its text, and one that is started had its server and its guard. -/
structure Entry.Sound (entry : Entry) : Prop where
  text : entry.text = entry.gate.text
  tidy : entry.gate.tidy = true
  started : entry.gate = .started → entry.writer = .supervisor (.ok ()) (.ok ())
  verdict : ∀ started guard, entry.writer = .supervisor started guard →
    entry.gate = containerVerdict started guard

theorem Entry.Sound.parse {entry : Entry} (sound : entry.Sound) (shown : Shown) :
    ContainerGate.parse shown entry.text = some entry.gate := by
  rw [sound.text]
  exact parse_text shown sound.tidy

/-- What a supervisor that lost makes of what it read there says no more than that gate. -/
theorem Entry.Sound.lost {entry : Entry} (sound : entry.Sound) {text why : String}
    {verdict : ContainerGate} (lost : GateTurn.LostTo entry text)
    (removed : removedAfter shown verdict (.lost text) = some why) :
    entry.gate.why = some why := by
  unfold removedAfter at removed
  simp only at removed
  rcases lost with rfl | rfl | ⟨reason, rfl⟩
  · rw [sound.parse shown] at removed
    split at removed
    · rename_i isTimedOut
      rw [Option.some.inj isTimedOut]
      exact removed
    · cases removed
  · cases removed
  · -- a text of a read that failed is no gate
    obtain ⟨kept, isKept⟩ := @trim_cons ("unreadable: " ++ reason) 'u'
      ("nreadable: ".toList ++ reason.toList) (by rw [String.toList_append]; rfl) (by decide)
    have notEmpty : trim ("unreadable: " ++ reason) ≠ "" := by
      intro same
      rw [same] at isKept
      cases isKept
    have notStarted : trim ("unreadable: " ++ reason) ≠ "started" := by
      intro same
      rw [same] at isKept
      exact absurd (List.cons.inj isKept).1 (by decide)
    have notFailed : ('u' :: kept).dropPrefix? "failed: ".toList = none := rfl
    have notTimedOut : ('u' :: kept).dropPrefix? "timed out: ".toList = none := rfl
    unfold ContainerGate.parse at removed
    simp only [if_neg notEmpty, if_neg notStarted, isKept, notFailed, notTimedOut] at removed
    cases removed

/-- What holds at every point of a turn's gate. -/
structure Settled (turn : GateTurn) (shown : Shown) : Prop where
  sound : ∀ entry, turn.file = some entry → entry.Sound
  obeyed : ∀ gate, turn.launcher = .obeyed gate → ∃ entry, turn.file = some entry ∧ entry.gate = gate
  decided : ∀ started guard, turn.supervisor = .decided started guard →
    TidyResult started ∧ TidyResult guard
  removed : ∀ verdict claim why, turn.supervisor = .wrote verdict claim →
    (∀ reason, claim ≠ .failed reason) → removedAfter shown verdict claim = some why →
      ∃ entry, turn.file = some entry ∧ entry.gate.why = some why

/-- A step leaves a gate that stands in its place. -/
theorem GateTurnStep.file {before after : GateTurn} (step : GateTurnStep shown wait before after)
    {entry : Entry} (stands : before.file = some entry) : after.file = some entry := by
  cases step with
  | claim _ _ _ free =>
    rw [free] at stands
    cases stands
  | write _ _ _ free =>
    rw [free] at stands
    cases stands
  | _ => exact stands

/-- What a look at a gate obeys, or records, is the gate that stands. -/
theorem Settled.read {turn : GateTurn} (held : Settled turn shown) {read : Option String}
    (reads : turn.Reads read) {gate : ContainerGate}
    (said : read.map (ContainerGate.parse shown) = some (some gate)) :
    ∃ entry, turn.file = some entry ∧ entry.gate = gate := by
  rcases reads with rfl | rfl
  · cases file : turn.file with
    | none =>
      rw [file] at said
      cases said
    | some entry =>
      rw [file, Option.map_some, Option.map_some, (held.sound entry file).parse shown] at said
      exact ⟨entry, rfl, Option.some.inj (Option.some.inj said)⟩
  · rw [Option.map_some, parse_empty] at said
    cases said

theorem Settled.step {before after : GateTurn} (held : Settled before shown)
    (step : GateTurnStep shown wait before after) : Settled after shown := by
  cases step with
  | look earlier waited read looking later reads =>
    refine ⟨held.sound, fun gate isObeyed => ?_, held.decided, held.removed⟩
    unfold GateTurn.looked at isObeyed
    cases next : gateStep shown read waited wait <;> simp only [next] at isObeyed <;> cases isObeyed
    exact held.read reads (gateStep_obey next)
  | claim waited token claiming free =>
    refine ⟨fun entry stands => ?_, fun gate isObeyed => ?_, held.decided,
      fun verdict claim why wrote kind removed => ?_⟩
    · cases stands
      exact ⟨rfl, tidy_foundNoGate shown wait token, nofun, nofun⟩
    · cases isObeyed
      exact ⟨_, rfl, rfl⟩
    · obtain ⟨entry, stands, _⟩ := held.removed verdict claim why wrote kind removed
      rw [free] at stands
      cases stands
  | claimLost waited entry claiming taken =>
    exact ⟨held.sound, nofun, held.decided, held.removed⟩
  | claimFailed waited why claiming =>
    exact ⟨held.sound, nofun, held.decided, held.removed⟩
  | request read idle reads =>
    refine ⟨held.sound, held.obeyed, fun started guard isDecided => ?_,
      fun verdict claim why wrote => ?_⟩
    · unfold GateTurn.requested at isDecided
      cases next : RequestStep.of shown read <;> simp only [next] at isDecided <;> cases isDecided
    · unfold GateTurn.requested at wrote
      cases next : RequestStep.of shown read <;> simp only [next] at wrote <;> cases wrote
  | serve started guard starting startedTidy guardTidy =>
    refine ⟨held.sound, held.obeyed, fun other another isDecided => ?_, nofun⟩
    cases isDecided
    exact ⟨startedTidy, guardTidy⟩
  | write started guard decided free =>
    obtain ⟨startedTidy, guardTidy⟩ := held.decided started guard decided
    refine ⟨fun entry stands => ?_, fun gate isObeyed => ?_, nofun,
      fun verdict claim why wrote kind removed => ?_⟩
    · cases stands
      refine ⟨rfl, tidy_containerVerdict startedTidy guardTidy, fun isStarted => ?_,
        fun _ _ writer => ?_⟩
      · obtain ⟨rfl, rfl⟩ := containerVerdict_started isStarted
        rfl
      · cases writer
        rfl
    · obtain ⟨entry, stands, _⟩ := held.obeyed gate isObeyed
      rw [free] at stands
      cases stands
    · cases wrote
      exact ⟨_, rfl, removed⟩
  | writeLost started guard entry text decided taken lost =>
    refine ⟨held.sound, held.obeyed, nofun, fun verdict claim why wrote kind removed => ?_⟩
    cases wrote
    exact ⟨entry, taken, (held.sound entry taken).lost lost removed⟩
  | writeFailed started guard why decided =>
    refine ⟨held.sound, held.obeyed, nofun, fun verdict claim why wrote kind removed => ?_⟩
    cases wrote
    exact absurd rfl (kind _)
  | stop => exact ⟨held.sound, held.obeyed, nofun, nofun⟩

/-- A time span. -/
abbrev Span := { nanos : Nat // nanos ≤ spanMax }

end Dagq.Sccache
