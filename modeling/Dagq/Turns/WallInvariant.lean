/-
This file fixes what each look at a wall leaves in a run, and proves it kept by
every step but a look.

A look that answers its turn leaves something that the next look at the same
turn finds: the switch, the record of its request, or that request not recorded
while its turn has not ended. A look that held or waited leaves the record of
the wait, or a switch. A later turn ends under a later number.
-/

import Dagq.Turns.Wall

namespace Dagq.Turns

/-! ### More events -/

theorem switches_append (events : List RunEvent) (event : RunEvent) :
    switches (events ++ [event]) =
      switches events + if event.kind = .providerSwitched then 1 else 0 := by
  unfold switches
  rw [List.filter_append, List.length_append]
  by_cases switched : event.kind = .providerSwitched <;> simp [switched]

theorem switchOfTurn_ne_none_iff (events : List RunEvent) (turn : Nat) :
    switchOfTurn events turn ≠ none ↔
      ∃ event ∈ events, event.kind = .providerSwitched ∧ event.payload.turn = some turn := by
  unfold switchOfTurn
  rw [Ne, List.find?_eq_none]
  push Not
  constructor
  · rintro ⟨event, member, switched⟩
    exact ⟨event, List.mem_reverse.mp member, by simpa using switched⟩
  · rintro ⟨event, member, switched⟩
    exact ⟨event, List.mem_reverse.mpr member, by simpa using switched⟩

theorem waitingOn_iff (events : List RunEvent) (turn : Nat) :
    waitingOn events turn = true ↔
      ∃ event ∈ events, event.kind = .providerWaiting ∧ event.payload.turn = some turn := by
  unfold waitingOn
  rw [List.any_eq_true]
  simp

theorem lastFinished_ne_none {events : List RunEvent} {event : RunEvent} (member : event ∈ events)
    (isFinished : event.isFinished = true) : lastFinished events ≠ none := by
  induction events with
  | nil => cases member
  | cons first rest inductionHypothesis =>
    rw [lastFinished]
    split
    · exact Option.some_ne_none _
    · rename_i absent
      rcases List.mem_cons.mp member with rfl | later
      · rw [if_pos isFinished]
        exact Option.some_ne_none _
      · exact absurd absent (inductionHypothesis later)

namespace HeadlessRun

/-- The number of the last turn that ended. -/
def lastTurn (run : HeadlessRun) : Option Nat :=
  (lastFinished run.events).bind fun last => last.2.payload.turn

/-- A request of a look at the last turn: recorded after that turn ended, or not recorded. -/
def CallStands (run : HeadlessRun) (seq : Nat) : Prop :=
  (∃ finishedAt finished, lastFinished run.events = some (finishedAt, finished) ∧
    ∃ event ∈ run.events.drop finishedAt, event.kind = .turnRequested ∧
      event.payload.seq = some seq) ∨
  seq ∈ run.unrecorded

/-- What a look that answered its turn left: the switch, or its request while no later turn
ended. -/
def Answered (run : HeadlessRun) (look : Look) : Prop :=
  (∃ event ∈ run.events, event.kind = .providerSwitched ∧ event.payload.turn = some look.turn) ∨
  (∃ last, run.lastTurn = some last ∧ look.turn < last) ∨
  ∃ seq, look.request = some seq ∧ run.CallStands seq

/-- What a look that held the provider or recorded its wait left. -/
def Waited (run : HeadlessRun) (look : Look) : Prop :=
  (∃ event ∈ run.events, event.kind = .providerSwitched ∧ event.payload.turn = some look.turn) ∨
  ∃ event ∈ run.events, event.kind = .providerWaiting ∧ event.payload.turn = some look.turn

/-- The turns of the events are numbered as they start, and end in that order. -/
structure Numbered (run : HeadlessRun) : Prop where
  started : ∀ event ∈ run.events, event.isStarted = true →
    ∃ turn, event.payload.turn = some turn ∧ turn ≤ run.turns
  unique : ∀ event ∈ run.events, event.isStarted = true → ∀ other ∈ run.events,
    other.isStarted = true → event.payload.turn = other.payload.turn → event = other
  finished : ∀ event ∈ run.events, event.isFinished = true →
    ∃ turn last, event.payload.turn = some turn ∧ run.lastTurn = some last ∧ turn ≤ last
  last : ∀ last, run.lastTurn = some last → last ≤ run.turns
  running : ∀ turn, run.running = some turn → turn = run.turns ∧
    ∀ last, run.lastTurn = some last → last < turn
  mark : ∀ mark, run.mark = some mark → ∃ finishedAt finished,
    lastFinished run.events = some (finishedAt, finished) ∧
      finished.payload.turn = some mark.turn ∧
      finished.atWall = mark.outcome.atWall mark.failure
  listed : ∀ event ∈ run.events, event.isStarted = true → ∀ request,
    event.payload.request = some request → request < nextSeq run.directory.names

/-- What each look left, while every order of the steps goes on. -/
structure Kept (run : HeadlessRun) : Prop where
  /-- Each look was at a turn that ended at the wall. -/
  ended : ∀ look ∈ run.looks, ∃ event ∈ run.events, event.isFinished = true ∧
    event.payload.turn = some look.turn ∧ event.atWall = true
  /-- The request of a look is past those of the turns until its own. -/
  past : ∀ look ∈ run.looks, ∀ seq, look.request = some seq → ∀ event ∈ run.events,
    event.isStarted = true → ∀ turn, event.payload.turn = some turn → turn ≤ look.turn →
      ∀ request, event.payload.request = some request → request < seq
  calls : ∀ look ∈ run.looks, look.answers = true → ∃ seq, look.request = some seq
  answered : ∀ look ∈ run.looks, look.answers = true → run.Answered look
  waited : ∀ look ∈ run.looks, look.held = true ∨ look.waits = true → run.Waited look
  answersOnce : ∀ turn, (run.looks.filter fun look => look.turn == turn && look.answers).length ≤ 1
  holdsOnce : ∀ turn, (run.looks.filter fun look => look.turn == turn && look.held).length ≤ 1
  waitsOnce : ∀ turn, (run.looks.filter fun look => look.turn == turn && look.waits).length ≤ 1
  switches : switches run.events ≤ maxProviderSwitches

/-! ### Steps that start and end no turn -/

theorem lastFinished_append_quiet (events more : List RunEvent)
    (quiet : ∀ event ∈ more, event.isFinished = false) :
    lastFinished (events ++ more) = lastFinished events := by
  induction more using List.reverseRecOn with
  | nil => rw [List.append_nil]
  | append_singleton rest event inductionHypothesis =>
    have last := quiet event (List.mem_append_right _ (List.mem_singleton.mpr rfl))
    rw [← List.append_assoc, lastFinished_append, last, if_neg (by decide)]
    exact inductionHypothesis fun earlier member => quiet earlier (List.mem_append_left _ member)

/-- `after` has the events of `run` and `more`, which start and end no turn; a request of a look is
unrecorded still, or recorded by them. -/
structure Quieter (run after : HeadlessRun) (more : List RunEvent) : Prop where
  events : after.events = run.events ++ more
  started : ∀ event ∈ more, event.isStarted = false
  finished : ∀ event ∈ more, event.isFinished = false
  unrecorded : ∀ seq ∈ run.unrecorded, seq ∈ after.unrecorded ∨
    ∃ event ∈ more, event.kind = .turnRequested ∧ event.payload.seq = some seq

namespace Quieter

variable {run after : HeadlessRun} {more : List RunEvent}

theorem last (quieter : Quieter run after more) :
    lastFinished after.events = lastFinished run.events := by
  rw [quieter.events, lastFinished_append_quiet run.events more quieter.finished]

theorem lastTurn (quieter : Quieter run after more) : after.lastTurn = run.lastTurn := by
  unfold HeadlessRun.lastTurn
  rw [quieter.last]

theorem kept (quieter : Quieter run after more) {event : RunEvent} (member : event ∈ run.events) :
    event ∈ after.events := by
  rw [quieter.events]
  exact List.mem_append_left _ member

theorem mem_started (quieter : Quieter run after more) {event : RunEvent}
    (member : event ∈ after.events) (isStarted : event.isStarted = true) : event ∈ run.events := by
  rw [quieter.events] at member
  rcases List.mem_append.mp member with before | new
  · exact before
  · rw [quieter.started event new] at isStarted
    cases isStarted

theorem mem_finished (quieter : Quieter run after more) {event : RunEvent}
    (member : event ∈ after.events) (isFinished : event.isFinished = true) :
    event ∈ run.events := by
  rw [quieter.events] at member
  rcases List.mem_append.mp member with before | new
  · exact before
  · rw [quieter.finished event new] at isFinished
    cases isFinished

theorem turns (quieter : Quieter run after more) : after.turns = run.turns := by
  have none : more.filter RunEvent.isStarted = [] :=
    List.filter_eq_nil_iff.mpr fun event member => by simp [quieter.started event member]
  unfold HeadlessRun.turns
  rw [quieter.events, List.filter_append, none, List.append_nil]

theorem answered (quieter : Quieter run after more) {look : Look}
    (someFinished : lastFinished run.events ≠ none) (answered : run.Answered look) :
    after.Answered look := by
  rcases answered with ⟨event, member, switched⟩ | ⟨last, isLast, later⟩ | ⟨seq, written, stands⟩
  · exact Or.inl ⟨event, quieter.kept member, switched⟩
  · exact Or.inr (Or.inl ⟨last, quieter.lastTurn.trans isLast, later⟩)
  · refine Or.inr (Or.inr ⟨seq, written, ?_⟩)
    obtain ⟨⟨finishedAt, finished⟩, last⟩ := Option.ne_none_iff_exists'.mp someFinished
    have place := (lastFinished_spec last).1.le
    have dropped : after.events.drop finishedAt = run.events.drop finishedAt ++ more := by
      rw [quieter.events, List.drop_append_of_le_length place]
    rcases stands with ⟨otherAt, other, same, event, recorded, named⟩ | waits
    · rw [last] at same
      cases same
      refine Or.inl ⟨finishedAt, finished, quieter.last.trans last, event, ?_, named⟩
      rw [dropped]
      exact List.mem_append_left _ recorded
    · rcases quieter.unrecorded seq waits with still | ⟨event, new, named⟩
      · exact Or.inr still
      · refine Or.inl ⟨finishedAt, finished, quieter.last.trans last, event, ?_, named⟩
        rw [dropped]
        exact List.mem_append_right _ new

theorem waited (quieter : Quieter run after more) {look : Look} (waited : run.Waited look) :
    after.Waited look := by
  rcases waited with ⟨event, member, switched⟩ | ⟨event, member, waiting⟩
  · exact Or.inl ⟨event, quieter.kept member, switched⟩
  · exact Or.inr ⟨event, quieter.kept member, waiting⟩

theorem numbered (quieter : Quieter run after more) (numbered : run.Numbered)
    (running : after.running = run.running) (mark : after.mark = run.mark)
    (next : nextSeq run.directory.names ≤ nextSeq after.directory.names) : after.Numbered where
  started event member isStarted := by
    rw [quieter.turns]
    exact numbered.started event (quieter.mem_started member isStarted) isStarted
  unique event member isStarted other otherMember otherStarted :=
    numbered.unique event (quieter.mem_started member isStarted) isStarted other
      (quieter.mem_started otherMember otherStarted) otherStarted
  finished event member isFinished := by
    rw [quieter.lastTurn]
    exact numbered.finished event (quieter.mem_finished member isFinished) isFinished
  last last isLast := by
    rw [quieter.turns]
    exact numbered.last last (quieter.lastTurn.symm.trans isLast)
  running turn isRunning := by
    rw [quieter.turns, quieter.lastTurn]
    exact numbered.running turn (running.symm.trans isRunning)
  mark own isMark := by
    rw [quieter.last]
    exact numbered.mark own (mark.symm.trans isMark)
  listed event member isStarted request named :=
    (numbered.listed event (quieter.mem_started member isStarted) isStarted request named).trans_le
      next

/-- A step that looks at nothing and records no switch. -/
theorem keeps (quieter : Quieter run after more) (kept : run.Kept) (looks : after.looks = run.looks)
    (unswitched : ∀ event ∈ more, event.kind ≠ .providerSwitched) : after.Kept where
  ended look member := by
    obtain ⟨event, ended, rest⟩ := kept.ended look (looks ▸ member)
    exact ⟨event, quieter.kept ended, rest⟩
  past look member seq written event started isStarted :=
    kept.past look (looks ▸ member) seq written event (quieter.mem_started started isStarted)
      isStarted
  calls look member := kept.calls look (looks ▸ member)
  answered look member answers := by
    have before := looks ▸ member
    obtain ⟨event, ended, isFinished, _⟩ := kept.ended look before
    exact quieter.answered (lastFinished_ne_none ended isFinished)
      (kept.answered look before answers)
  waited look member left := quieter.waited (kept.waited look (looks ▸ member) left)
  answersOnce turn := by
    rw [looks]
    exact kept.answersOnce turn
  holdsOnce turn := by
    rw [looks]
    exact kept.holdsOnce turn
  waitsOnce turn := by
    rw [looks]
    exact kept.waitsOnce turn
  switches := by
    have none : more.filter (fun event => event.kind == .providerSwitched) = [] :=
      List.filter_eq_nil_iff.mpr fun event member => by simpa using unswitched event member
    have same : Turns.switches after.events = Turns.switches run.events := by
      unfold Turns.switches
      rw [quieter.events, List.filter_append, none, List.append_nil]
    rw [same]
    exact kept.switches

end Quieter

/-! ### A turn started, and ended -/

/-- A look's turn is not past the last that ended. -/
theorem Kept.turn_le {run : HeadlessRun} (kept : run.Kept) (numbered : run.Numbered) {look : Look}
    (member : look ∈ run.looks) : ∃ last, run.lastTurn = some last ∧ look.turn ≤ last := by
  obtain ⟨event, ended, isFinished, named, _⟩ := kept.ended look member
  obtain ⟨turn, last, isTurn, isLast, bound⟩ := numbered.finished event ended isFinished
  rw [named] at isTurn
  cases isTurn
  exact ⟨last, isLast, bound⟩

theorem lastTurn_append_started (run : HeadlessRun) (event : RunEvent)
    (unfinished : event.isFinished = false) : (run.note event).lastTurn = run.lastTurn := by
  show (lastFinished (run.events ++ [event])).bind _ = _
  rw [lastFinished_append, unfinished]
  rfl

section Start

variable {run : HeadlessRun} {file : Option ListedRequest}

def startOf (run : HeadlessRun) (file : Option ListedRequest) : RunEvent :=
  .turnStarted (run.turns + 1) (file.map fun own => own.request.seq)
    (whatOf (file.map ListedRequest.request))

def starting (run : HeadlessRun) (file : Option ListedRequest) : HeadlessRun :=
  { run.note (run.startOf file) with
    directory := file.elim run.directory fun own => run.directory.rename own.request.seq .taken
    running := some (run.turns + 1) }

theorem starting_turns (run : HeadlessRun) (file : Option ListedRequest) :
    (run.starting file).turns = run.turns + 1 := by
  show ((run.events ++ [run.startOf file]).filter RunEvent.isStarted).length = _
  rw [List.filter_append, List.length_append]
  rfl

theorem starting_last (run : HeadlessRun) (file : Option ListedRequest) :
    lastFinished (run.starting file).events = lastFinished run.events := by
  show lastFinished (run.events ++ [run.startOf file]) = _
  rw [lastFinished_append]
  rfl

theorem nextSeq_starting (run : HeadlessRun) (file : Option ListedRequest) :
    nextSeq run.directory.names ≤ nextSeq (run.starting file).directory.names := by
  cases file with
  | none => exact le_rfl
  | some own => exact run.directory.nextSeq_rename own.request.seq .taken

theorem Numbered.start (numbered : run.Numbered)
    (listed : ∀ own, file = some own → own ∈ run.directory.files) :
    (run.starting file).Numbered where
  started event member isStarted := by
    rw [starting_turns]
    rcases List.mem_append.mp member with before | new
    · obtain ⟨turn, named, bound⟩ := numbered.started event before isStarted
      exact ⟨turn, named, bound.trans (Nat.le_succ _)⟩
    · rw [List.mem_singleton.mp new]
      exact ⟨_, rfl, le_rfl⟩
  unique event member isStarted other otherMember otherStarted same := by
    have newer {earlier : RunEvent} (before : earlier ∈ run.events)
        (started : earlier.isStarted = true) :
        earlier.payload.turn ≠ (run.startOf file).payload.turn := by
      obtain ⟨turn, named, bound⟩ := numbered.started earlier before started
      rw [named]
      intro next
      have isNext : turn = run.turns + 1 := Option.some.inj next
      omega
    rcases List.mem_append.mp member with before | new <;>
      rcases List.mem_append.mp otherMember with otherBefore | otherNew
    · exact numbered.unique event before isStarted other otherBefore otherStarted same
    · rw [List.mem_singleton.mp otherNew] at same
      exact absurd same (newer before isStarted)
    · rw [List.mem_singleton.mp new] at same
      exact absurd same.symm (newer otherBefore otherStarted)
    · rw [List.mem_singleton.mp new, List.mem_singleton.mp otherNew]
  finished event member isFinished := by
    rcases List.mem_append.mp member with before | new
    · obtain ⟨turn, last, named, isLast, bound⟩ := numbered.finished event before isFinished
      refine ⟨turn, last, named, ?_, bound⟩
      exact (lastTurn_append_started run (run.startOf file) rfl).trans isLast
    · rw [List.mem_singleton.mp new] at isFinished
      cases isFinished
  last last isLast := by
    rw [starting_turns]
    have before := (lastTurn_append_started run (run.startOf file) rfl).symm.trans isLast
    exact (numbered.last last before).trans (Nat.le_succ _)
  running turn isRunning := by
    rw [starting_turns]
    cases isRunning
    refine ⟨rfl, fun last isLast => ?_⟩
    have before := (lastTurn_append_started run (run.startOf file) rfl).symm.trans isLast
    exact Nat.lt_succ_of_le (numbered.last last before)
  mark mark isMark := by
    rw [starting_last]
    exact numbered.mark mark isMark
  listed event member isStarted request named := by
    refine lt_of_lt_of_le ?_ (nextSeq_starting run file)
    rcases List.mem_append.mp member with before | new
    · exact numbered.listed event before isStarted request named
    · rw [List.mem_singleton.mp new] at named
      obtain ⟨own, isOwn, rfl⟩ := Option.map_eq_some_iff.mp named
      exact run.directory.seq_lt_nextSeq (listed own isOwn)

theorem Answered.start {look : Look} (answered : run.Answered look) :
    (run.starting file).Answered look := by
  rcases answered with ⟨event, member, switched⟩ | ⟨last, isLast, later⟩ | ⟨seq, written, stands⟩
  · exact Or.inl ⟨event, List.mem_append_left _ member, switched⟩
  · exact Or.inr (Or.inl ⟨last,
      (lastTurn_append_started run (run.startOf file) rfl).trans isLast, later⟩)
  · refine Or.inr (Or.inr ⟨seq, written, stands.imp_left ?_⟩)
    rintro ⟨finishedAt, finished, last, event, recorded, named⟩
    refine ⟨finishedAt, finished, (starting_last run file).trans last, event, ?_, named⟩
    show event ∈ (run.events ++ [run.startOf file]).drop finishedAt
    rw [List.drop_append_of_le_length (lastFinished_spec last).1.le]
    exact List.mem_append_left _ recorded

theorem Waited.append {after : HeadlessRun} {look : Look} (waited : run.Waited look)
    (kept : ∀ event ∈ run.events, event ∈ after.events) : after.Waited look := by
  rcases waited with ⟨event, member, switched⟩ | ⟨event, member, waiting⟩
  · exact Or.inl ⟨event, kept event member, switched⟩
  · exact Or.inr ⟨event, kept event member, waiting⟩

theorem Kept.start (kept : run.Kept) (numbered : run.Numbered) : (run.starting file).Kept where
  ended look member := by
    obtain ⟨event, ended, rest⟩ := kept.ended look member
    exact ⟨event, List.mem_append_left _ ended, rest⟩
  past look member seq written event started isStarted turn named bound := by
    rcases List.mem_append.mp started with before | new
    · exact kept.past look member seq written event before isStarted turn named bound
    · -- The turn that starts is past every one looked at.
      obtain ⟨last, isLast, looked⟩ := kept.turn_le numbered member
      have most := numbered.last last isLast
      rw [List.mem_singleton.mp new] at named
      have next : run.turns + 1 = turn := Option.some.inj named
      omega
  calls := kept.calls
  answered look member answers := (kept.answered look member answers).start
  waited look member left :=
    (kept.waited look member left).append fun _ before => List.mem_append_left _ before
  answersOnce := kept.answersOnce
  holdsOnce := kept.holdsOnce
  waitsOnce := kept.waitsOnce
  switches := by
    show Turns.switches (run.events ++ [run.startOf file]) ≤ _
    rw [switches_append]
    exact kept.switches

end Start

section Finish

variable {run : HeadlessRun} {mark : TurnMark} {message : Option String}

def finishing (run : HeadlessRun) (mark : TurnMark) (message : Option String) : HeadlessRun :=
  { run.note (.turnFinished mark.turn mark.outcome mark.failure message) with
    mark := some mark
    running := none }

theorem finishing_last (run : HeadlessRun) (mark : TurnMark) (message : Option String) :
    lastFinished (run.finishing mark message).events =
      some (run.events.length, .turnFinished mark.turn mark.outcome mark.failure message) := by
  show lastFinished (run.events ++ [.turnFinished mark.turn mark.outcome mark.failure message]) = _
  rw [lastFinished_append]
  rfl

theorem finishing_lastTurn (run : HeadlessRun) (mark : TurnMark) (message : Option String) :
    (run.finishing mark message).lastTurn = some mark.turn := by
  unfold lastTurn
  rw [finishing_last]
  rfl

theorem finishing_turns (run : HeadlessRun) (mark : TurnMark) (message : Option String) :
    (run.finishing mark message).turns = run.turns := by
  show ((run.events ++ [RunEvent.turnFinished mark.turn mark.outcome mark.failure message]).filter
    RunEvent.isStarted).length = _
  rw [List.filter_append, List.length_append]
  rfl

theorem finishing_mem_started {event : RunEvent}
    (member : event ∈ (run.finishing mark message).events) (isStarted : event.isStarted = true) :
    event ∈ run.events := by
  rcases List.mem_append.mp member with before | new
  · exact before
  · rw [List.mem_singleton.mp new] at isStarted
    cases isStarted

theorem Numbered.finish (numbered : run.Numbered) (running : run.running = some mark.turn) :
    (run.finishing mark message).Numbered where
  started event member isStarted := by
    rw [finishing_turns]
    exact numbered.started event (finishing_mem_started member isStarted) isStarted
  unique event member isStarted other otherMember otherStarted :=
    numbered.unique event (finishing_mem_started member isStarted) isStarted other
      (finishing_mem_started otherMember otherStarted) otherStarted
  finished event member isFinished := by
    rw [finishing_lastTurn]
    rcases List.mem_append.mp member with before | new
    · obtain ⟨turn, last, named, isLast, bound⟩ := numbered.finished event before isFinished
      exact ⟨turn, mark.turn, named, rfl,
        bound.trans ((numbered.running mark.turn running).2 last isLast).le⟩
    · rw [List.mem_singleton.mp new]
      exact ⟨mark.turn, mark.turn, rfl, rfl, le_rfl⟩
  last last isLast := by
    rw [finishing_lastTurn] at isLast
    rw [finishing_turns, ← Option.some.inj isLast]
    exact (numbered.running mark.turn running).1.le
  running turn isRunning := by cases isRunning
  mark own isMark := by
    cases isMark
    exact ⟨_, _, finishing_last run mark message, rfl, RunEvent.turnFinished_atWall _ _ _ _⟩
  listed event member isStarted request named :=
    numbered.listed event (finishing_mem_started member isStarted) isStarted request named

theorem Kept.finish (kept : run.Kept) (numbered : run.Numbered)
    (running : run.running = some mark.turn) : (run.finishing mark message).Kept where
  ended look member := by
    obtain ⟨event, ended, rest⟩ := kept.ended look member
    exact ⟨event, List.mem_append_left _ ended, rest⟩
  past look member seq written event started isStarted :=
    kept.past look member seq written event (finishing_mem_started started isStarted) isStarted
  calls := kept.calls
  answered look member _ := by
    -- The turn that ends is past every one looked at.
    obtain ⟨last, isLast, looked⟩ := kept.turn_le numbered member
    have later := (numbered.running mark.turn running).2 last isLast
    exact Or.inr (Or.inl ⟨mark.turn, finishing_lastTurn run mark message, looked.trans_lt later⟩)
  waited look member left :=
    (kept.waited look member left).append fun _ before => List.mem_append_left _ before
  answersOnce := kept.answersOnce
  holdsOnce := kept.holdsOnce
  waitsOnce := kept.waitsOnce
  switches := by
    show Turns.switches (run.events ++
      [.turnFinished mark.turn mark.outcome mark.failure message]) ≤ _
    rw [switches_append]
    exact kept.switches

end Finish

end HeadlessRun

end Dagq.Turns
