/-
This file proves when a session is awaited, in any order of the supervisor's and
the wrapper's steps.

The marker is of the last turn that ended, so it is behind the events exactly
while a turn runs; but the first turn of a run has no marker to be behind, and
a session without one is judged by its requests alone. Nothing reads the answer
then: a session is watched for its idle only once it has a marker. The requests
are compared by number alone, which holds in any order.
-/

import Dagq.Turns.Session

namespace Dagq.Turns

/-! ### The answer as a fact of what is read -/

theorem lt_max?_iff (numbers : List Nat) (bound : Nat) :
    (numbers.max?.any fun last => bound < last) = true ↔ ∃ number ∈ numbers, bound < number := by
  cases largest : numbers.max? with
  | none => simp [List.max?_eq_none_iff.mp largest]
  | some last =>
    obtain ⟨member, most⟩ := List.max?_eq_some_iff.mp largest
    simp only [Option.any_some, decide_eq_true_eq]
    refine ⟨fun above => ⟨last, member, above⟩, ?_⟩
    rintro ⟨number, listed, above⟩
    exact above.trans_le (most number listed)

theorem max?_lt_iff (numbers : List Nat) (bound : Nat) :
    (numbers.max?.all fun last => bound > last) = true ↔ ∀ number ∈ numbers, number < bound := by
  cases largest : numbers.max? with
  | none => simp [List.max?_eq_none_iff.mp largest]
  | some last =>
    obtain ⟨member, most⟩ := List.max?_eq_some_iff.mp largest
    simp only [Option.all_some, decide_eq_true_eq]
    refine ⟨fun below number listed => (most number listed).trans_lt below, ?_⟩
    exact fun below => below last member

/-- A turn of the events is past `turn`. -/
def StartedPast (events : List RunEvent) (turn : Nat) : Prop :=
  ∃ event ∈ events, event.isStarted = true ∧ ∃ later, event.payload.turn = some later ∧ turn < later

theorem turnAwaited_iff (listed : List ListedRequest) (events : List RunEvent)
    (mark : Option TurnMark) :
    turnAwaited listed events mark = true ↔
      (∃ ended, mark = some ended ∧ StartedPast events ended.turn) ∨
      ∃ file ∈ listed, file.state ≠ .dropped ∧ NoneFrom events file.request.seq := by
  have past (turn : Nat) : (∃ later ∈ (events.filter RunEvent.isStarted).filterMap
      (fun event => event.payload.turn), turn < later) ↔ StartedPast events turn := by
    simp only [StartedPast, List.mem_filterMap, List.mem_filter]
    constructor
    · rintro ⟨later, ⟨event, ⟨member, started⟩, named⟩, above⟩
      exact ⟨event, member, started, later, named, above⟩
    · rintro ⟨event, member, started, later, named, above⟩
      exact ⟨later, ⟨event, ⟨member, started⟩, named⟩, above⟩
  have behind : ((mark.bind fun mark => ((events.filter RunEvent.isStarted).filterMap
      fun event => event.payload.turn).max?.map fun last => (mark, last)).any
      fun pair => pair.1.turn < pair.2) = true ↔
      ∃ ended, mark = some ended ∧ StartedPast events ended.turn := by
    cases mark with
    | none => simp
    | some ended =>
      rw [Option.bind_some, Option.any_map]
      refine (lt_max?_iff _ ended.turn).trans ((past ended.turn).trans ?_)
      simp
  have ahead (file : ListedRequest) : (((events.filter RunEvent.isStarted).filterMap
      fun event => event.payload.request).max?.all fun started => file.request.seq > started) =
      true ↔ NoneFrom events file.request.seq := by
    rw [max?_lt_iff]
    simp only [NoneFrom, List.mem_filterMap, List.mem_filter]
    constructor
    · exact fun below event member started request named =>
        below request ⟨event, ⟨member, started⟩, named⟩
    · rintro below request ⟨event, ⟨member, started⟩, named⟩
      exact below event member started request named
  unfold turnAwaited
  dsimp only
  split
  · rename_i late
    exact iff_of_true rfl (Or.inl (behind.mp late))
  · rename_i caught
    rw [List.any_eq_true]
    have onTime : ¬ ∃ ended, mark = some ended ∧ StartedPast events ended.turn :=
      fun late => caught (behind.mpr late)
    rw [or_iff_right onTime]
    constructor
    · rintro ⟨file, kept, above⟩
      obtain ⟨member, state⟩ := List.mem_filter.mp kept
      exact ⟨file, member, by simpa using state, (ahead file).mp above⟩
    · rintro ⟨file, member, state, above⟩
      exact ⟨file, List.mem_filter.mpr ⟨member, by simpa using state⟩, (ahead file).mpr above⟩

/-! ### What every order of the steps keeps -/

/-- Where the marker stands when `turns` turns started: of the last one, or of none. -/
def Marked (mark : Option TurnMark) (turns : Nat) : Prop :=
  (mark = none ∧ turns = 0) ∨ ∃ ended, mark = some ended ∧ ended.turn = turns

/-- Where the wrapper stands: between turns the marker is of the last turn, and while one runs it
is of the turn before. -/
def Session.Placed (session : Session) : Prop :=
  match session.wrapper with
  | .closed => Marked session.mark session.turns
  | .waiting turns | .toStart turns _ => turns = session.turns ∧ Marked session.mark turns
  | .running turn _ => turn = session.turns ∧ ∃ before, turn = before + 1 ∧ Marked session.mark before
  | .ending mark _ =>
    mark.turn = session.turns ∧ ∃ before, mark.turn = before + 1 ∧ Marked session.mark before

structure Session.Counted (session : Session) : Prop where
  /-- Each turn is recorded under a number up to the count of the turns. -/
  numbered : ∀ event ∈ session.events, event.isStarted = true →
    ∃ turn, event.payload.turn = some turn ∧ turn ≤ session.turns
  /-- The last turn is recorded under their count. -/
  last : 0 < session.turns →
    ∃ event ∈ session.events, event.isStarted = true ∧ event.payload.turn = some session.turns
  placed : session.Placed

namespace Session

/-- An event of another kind starts no turn. -/
theorem filter_started_append (events : List RunEvent) (event : RunEvent)
    (unrelated : event.kind ≠ .turnStarted) :
    (events ++ [event]).filter RunEvent.isStarted = events.filter RunEvent.isStarted := by
  have quiet : event.isStarted = false := by simpa [RunEvent.isStarted] using unrelated
  rw [List.filter_append]
  simp [quiet]

theorem Counted.between {session : Session} (counted : session.Counted)
    (between : ¬ session.turnRuns) : Marked session.mark session.turns := by
  have placed := counted.placed
  unfold Placed at placed
  unfold turnRuns at between
  cases wrapper : session.wrapper <;> rw [wrapper] at placed between
  · exact placed
  · exact placed.1 ▸ placed.2
  · exact placed.1 ▸ placed.2
  · exact absurd trivial between
  · exact absurd trivial between

/-- A step that leaves the turns of the events and the marker, to a place the marker is right in. -/
theorem Counted.unchanged {session after : Session} (counted : session.Counted)
    (events : after.events.filter RunEvent.isStarted = session.events.filter RunEvent.isStarted)
    (placed : after.Placed) : after.Counted := by
  have same : after.turns = session.turns := congrArg List.length events
  have started (event : RunEvent) : (event ∈ after.events ∧ event.isStarted = true) ↔
      (event ∈ session.events ∧ event.isStarted = true) := by
    rw [← List.mem_filter, ← List.mem_filter, events]
  refine ⟨fun event member isStarted => ?_, fun some => ?_, placed⟩
  · rw [same]
    have before := (started event).mp ⟨member, isStarted⟩
    exact counted.numbered event before.1 before.2
  · rw [same] at some ⊢
    obtain ⟨event, member, isStarted, named⟩ := counted.last some
    have now := (started event).mpr ⟨member, isStarted⟩
    exact ⟨event, now.1, now.2, named⟩

theorem Counted.start {session : Session} (counted : session.Counted) {turns : Nat}
    {request : Option TurnRequest} (ready : session.wrapper = .toStart turns request) :
    Counted { session with
      events := session.events ++
        [.turnStarted (turns + 1) (request.map TurnRequest.seq) (whatOf request)]
      wrapper := .running (turns + 1) request } := by
  have placed := counted.placed
  simp only [Placed, ready] at placed
  obtain ⟨rfl, marked⟩ := placed
  generalize record : RunEvent.turnStarted (session.turns + 1) (request.map TurnRequest.seq)
    (whatOf request) = started
  have isStarted : started.isStarted = true := record ▸ rfl
  have named : started.payload.turn = some (session.turns + 1) := record ▸ rfl
  let after : Session := { session with
    events := session.events ++ [started], wrapper := .running (session.turns + 1) request }
  have more : after.turns = session.turns + 1 := by
    show ((session.events ++ [started]).filter RunEvent.isStarted).length = _
    rw [List.filter_append, List.filter_singleton, isStarted, cond_true, List.length_append]
    rfl
  show after.Counted
  refine ⟨fun event member isStarted => ?_, fun _ => ?_, more.symm, session.turns, rfl, marked⟩
  · rw [more]
    rcases List.mem_append.mp member with earlier | new
    · obtain ⟨turn, named, bound⟩ := counted.numbered event earlier isStarted
      exact ⟨turn, named, bound.trans (Nat.le_succ _)⟩
    · rw [List.mem_singleton.mp new]
      exact ⟨_, named, le_rfl⟩
  · rw [more]
    exact ⟨started, List.mem_append_right _ (List.mem_singleton.mpr rfl), isStarted, named⟩

theorem Counted.step {session after : Session} (counted : session.Counted)
    (next : SessionStep session after) : after.Counted := by
  have placed := counted.placed
  cases next with
  | write what prompt => exact counted.unchanged rfl placed
  | prepare closed => exact counted.unchanged rfl placed
  | launch resume closed =>
    simp only [Placed, closed] at placed
    refine counted.unchanged rfl ?_
    cases resume <;> exact ⟨rfl, placed⟩
  | take turns file later waiting oldest listed =>
    simp only [Placed, waiting] at placed
    exact counted.unchanged rfl placed
  | start turns request ready => exact counted.start ready
  | finish mark request message running =>
    simp only [Placed, running] at placed
    have quiet := filter_started_append session.events
      (.turnFinished mark.turn mark.outcome mark.failure message) (by simp [RunEvent.turnFinished])
    exact counted.unchanged quiet ⟨placed.1.trans (congrArg List.length quiet).symm, placed.2⟩
  | idle mark request missing ending =>
    simp only [Placed, ending] at placed
    refine counted.unchanged rfl ?_
    have ended : Marked (some mark) mark.turn := Or.inr ⟨mark, rfl, rfl⟩
    unfold afterTurn
    split
    · exact ⟨placed.1, ended⟩
    split
    · exact ⟨placed.1, ended⟩
    · show Marked (some mark) session.turns
      exact placed.1 ▸ ended
  | stop between => exact counted.unchanged rfl (counted.between between)
  | note event unrelated =>
    have quiet := filter_started_append session.events event unrelated
    refine counted.unchanged quiet ?_
    have same : turns { session with events := session.events ++ [event] } = session.turns :=
      congrArg List.length quiet
    unfold Placed at placed ⊢
    rw [same]
    exact placed

theorem Counted.of_reached {session : Session} (reached : session.Reached) : session.Counted := by
  refine reached.invariant Counted ?_ fun _ _ _ counted next => counted.step next
  refine ⟨fun event member _ => (by cases member), fun some => ?_, Or.inl ⟨rfl, rfl⟩⟩
  exact absurd some (by decide)

/-! ### When a session is awaited -/

/-- While a turn runs the marker is of the turn before it. -/
theorem Counted.running {session : Session} (counted : session.Counted)
    (runs : session.turnRuns) :
    ∃ before, session.turns = before + 1 ∧ Marked session.mark before := by
  have placed := counted.placed
  unfold Placed at placed
  unfold turnRuns at runs
  cases wrapper : session.wrapper <;> rw [wrapper] at placed runs
  · exact runs.elim
  · exact runs.elim
  · exact runs.elim
  · exact placed.1 ▸ placed.2
  · exact placed.1 ▸ placed.2

/-- A turn after the first is past the marker of the one before it. -/
theorem Counted.startedPast {session : Session} (counted : session.Counted)
    (runs : session.turnRuns) (later : 1 < session.turns) :
    ∃ ended, session.mark = some ended ∧ StartedPast session.events ended.turn := by
  obtain ⟨before, count, marked⟩ := counted.running runs
  rcases marked with ⟨_, first⟩ | ⟨ended, isMark, turn⟩
  · rw [count, first] at later
    exact absurd later (lt_irrefl 1)
  · obtain ⟨event, member, started, named⟩ := counted.last (Nat.zero_lt_of_lt later)
    refine ⟨ended, isMark, event, member, started, _, named, ?_⟩
    rw [turn, count]
    exact Nat.lt_succ_self before

/-- Between turns no turn is past the marker. -/
theorem Counted.not_startedPast {session : Session} (counted : session.Counted)
    (between : ¬ session.turnRuns) {mark : TurnMark} (marked : session.mark = some mark) :
    ¬ StartedPast session.events mark.turn := by
  rintro ⟨event, member, started, later, named, above⟩
  obtain ⟨turn, same, bound⟩ := counted.numbered event member started
  rw [named] at same
  cases same
  rcases counted.between between with ⟨none, _⟩ | ⟨ended, same, turn⟩
  · rw [marked] at none
    cases none
  · rw [marked] at same
    cases same
    omega

end Session

/-- In any order of the steps a session is awaited while a turn after the run's first runs, and
while a request is not dropped and no turn started from it or a later one; it is not awaited while
no turn runs and a turn started from each request not dropped or from a later one. -/
theorem turnAwaited_reached (session : Session) (reached : session.Reached) :
    (session.turnRuns → 1 < session.turns → session.awaited = true) ∧
    (∀ file ∈ session.directory.files, file.state ≠ .dropped →
      NoneFrom session.events file.request.seq → session.awaited = true) ∧
    (¬ session.turnRuns →
      (∀ file ∈ session.directory.files, file.state ≠ .dropped →
        ¬ NoneFrom session.events file.request.seq) → session.awaited = false) := by
  have counted := Session.Counted.of_reached reached
  have read := turnAwaited_iff session.directory.listedRequests session.events session.mark
  rw [session.directory.listedRequests_eq] at read
  refine ⟨fun runs later => ?_, fun file listed kept ahead => ?_, fun between behind => ?_⟩
  · unfold Session.awaited
    rw [session.directory.listedRequests_eq]
    exact read.mpr (Or.inl (counted.startedPast runs later))
  · unfold Session.awaited
    rw [session.directory.listedRequests_eq]
    exact read.mpr (Or.inr ⟨file, listed, kept, ahead⟩)
  · unfold Session.awaited
    rw [session.directory.listedRequests_eq, Bool.eq_false_iff]
    intro awaits
    rcases read.mp awaits with ⟨mark, isMark, past⟩ | ⟨file, listed, kept, ahead⟩
    · exact counted.not_startedPast between isMark past
    · exact behind file listed kept ahead

/-- The first turn of a run, started from the task's prompt. -/
def firstTurn : Session :=
  { Session.new with events := [.turnStarted 1 none "the task's prompt"], wrapper := .running 1 none }

theorem firstTurn_reached : firstTurn.Reached :=
  (Lib.Reachable.start.step (SessionStep.launch Session.new false rfl)).step
    (SessionStep.start _ 0 none rfl)

/-- The first turn runs, and the session is not awaited: it has no marker yet. -/
theorem firstTurn_not_awaited :
    firstTurn.Reached ∧ firstTurn.turnRuns ∧ firstTurn.awaited = false :=
  ⟨firstTurn_reached, trivial, rfl⟩

/-- The first turn ended, and a request written since. -/
def nudged : Session :=
  { firstTurn with
    directory := Directory.empty.write "nudge" "go on"
    events := firstTurn.events ++ [.turnFinished 1 .succeeded none none]
    mark := some ⟨1, .succeeded, none, 0⟩
    wrapper := .waiting 1 }

theorem nudged_reached : nudged.Reached :=
  ((firstTurn_reached.step (SessionStep.finish firstTurn ⟨1, .succeeded, none, 0⟩ none none rfl)).step
    (SessionStep.idle _ ⟨1, .succeeded, none, 0⟩ none false rfl)).step
      (SessionStep.write _ "nudge" "go on")

theorem nudged_awaited : nudged.awaited = true := by
  obtain ⟨_, ahead, _⟩ := turnAwaited_reached nudged nudged_reached
  refine ahead ⟨.pending, ⟨1, "nudge", "go on"⟩⟩ (by decide) (by decide) ?_
  intro event member started request named
  have none : event.payload.request = Option.none := by
    have cases := List.mem_cons.mp member
    rcases cases with rfl | last
    · rfl
    · rw [List.mem_singleton.mp last]
      rfl
  rw [none] at named
  cases named

end Dagq.Turns
