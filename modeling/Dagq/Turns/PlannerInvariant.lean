/-
This file fixes what every order of a planner's steps keeps, and proves it of the
steps that start and end no turn.

A turn that met the wall is followed by a retry of its call and by nothing else,
so the turns fall into runs of one call each, every run but the last ended
otherwise than at the wall, and the scan of a request follows the run of its
call. A retry is written only while no other waits or runs: one that does is
recorded after the last end of a turn and answers it, or is not recorded yet,
and the supervisor does not look.
-/

import Dagq.Turns.Scan

namespace Dagq.Turns

namespace Planner

/-! ### A retry in the air -/

/-- A turn that makes `call` ended otherwise than at the wall. -/
def Carried (planner : Planner) (call : Option Nat) : Prop :=
  ∃ started ∈ planner.events, started.isStarted = true ∧
    planner.callOf started.payload.request = call ∧
    ∃ finished ∈ planner.events, finished.isFinished = true ∧
      finished.payload.turn = started.payload.turn ∧ finished.atWall = false

/-- Retry `retry` answers the last end of a turn: it is past the requests of the turns until then,
and it is recorded after that end or not recorded yet. -/
def Answering (planner : Planner) (retry : Nat) : Prop :=
  ∃ finishedAt finished, lastFinished planner.events = some (finishedAt, finished) ∧
    (∀ event ∈ planner.events.take finishedAt, event.isStarted = true →
      ∀ request, event.payload.request = some request → request < retry) ∧
    (.turnRequested retry providerRetry ∈ planner.events.drop finishedAt ∨
      (retry, providerRetry) ∈ planner.unrecorded)

/-- While a retry answers the last end of a turn and its own turn has not ended, none is due. -/
theorem Answering.not_due {planner : Planner} {retry : Nat} (answering : planner.Answering retry)
    (settled : planner.Settled) (unended : ¬ planner.TurnEnded retry) (held : Bool) :
    planner.retryDue held = false := by
  obtain ⟨finishedAt, finished, last, past, recorded | written⟩ := answering
  · have answered : wallAnswered planner.events finishedAt = true := by
      unfold wallAnswered
      refine List.any_eq_true.mpr ⟨_, recorded, ?_⟩
      rw [Bool.and_eq_true]
      refine ⟨?_, by rfl⟩
      unfold requestedPast
      rw [Bool.and_eq_true, Bool.not_eq_true', Option.any_eq_false]
      refine ⟨rfl, fun taken isTaken => ?_⟩
      obtain ⟨started, found, named⟩ := Option.bind_eq_some_iff.mp isTaken
      have member := List.mem_reverse.mp (List.mem_of_find?_eq_some found)
      have matched := List.find?_some found
      have isStarted := (Bool.and_eq_true_iff.mp matched).1
      have below := past started member isStarted taken named
      simpa [RunEvent.turnRequested] using below
    unfold retryDue
    rw [last]
    simp [answered]
  · exact absurd (settled retry written) unended

/-! ### What every step keeps -/

/-- A turn started from a request that was taken, and is recorded as what that is. -/
structure Listed (planner : Planner) : Prop where
  taken : ∀ event ∈ planner.events, event.isStarted = true →
    ∀ seq, event.payload.request = some seq → ∃ file ∈ planner.directory.files,
      file.request.seq = seq ∧ file.state = .taken ∧ event.payload.what = some file.request.what

/-- The turn about to start is of a request that was taken. -/
def NextTaken (planner : Planner) : Prop :=
  ∀ request, planner.wrapper = .toStart (some request) →
    ⟨.taken, request⟩ ∈ planner.directory.files

structure Known (planner : Planner) : Prop extends Listed planner where
  /-- Only a retry makes another call than its own. -/
  own : ∀ seq, planner.call seq ≠ some seq → ∃ file ∈ planner.directory.files,
    file.request.seq = seq ∧ file.request.what = providerRetry
  /-- A turn of the call that a retry makes started before. -/
  retried : ∀ seq, planner.call seq ≠ some seq → ∃ event ∈ planner.events,
    event.isStarted = true ∧ event.payload.what ≠ some providerRetry ∧
      event.payload.request = planner.call seq
  read : ∀ seq, scan planner.events seq = .read ↔ planner.Carried (planner.call seq)
  counted : ∀ event ∈ planner.events, event.isStarted = true ∨ event.isFinished = true →
    ∃ turn, event.payload.turn = some turn ∧ turn ≤ planner.turns

/-- No turn is under way, and the last did not meet the wall. -/
structure Idle (planner : Planner) : Prop where
  scans : ∀ seq, scan planner.events seq = .seeking ∨ scan planner.events seq = .read
  noRetry : ∀ file ∈ planner.directory.files, file.state = .pending →
    file.request.what ≠ providerRetry
  noWall : ∀ finishedAt finished, lastFinished planner.events = some (finishedAt, finished) →
    finished.atWall = false
  wrapper : match planner.wrapper with
    | .waiting afterWall => afterWall = false
    | .toStart none => ∀ event ∈ planner.events, event.isStarted = false
    | .toStart (some request) => request.what ≠ providerRetry ∧
        scan planner.events request.seq = .seeking ∧
        ⟨.taken, request⟩ ∈ planner.directory.files
    | .running _ _ => False
    | .closed => True

/-- The last turn met the wall; `retry` is the retry of its call, once written. -/
structure AtWall (planner : Planner) (retry : Option Nat) : Prop where
  scans : ∀ seq, scan planner.events seq = .seeking ∨ scan planner.events seq = .read ∨
    scan planner.events seq = .atWall
  current : ∀ seq, scan planner.events seq = .atWall ∨ retry = some seq ↔
    planner.call seq = requestToRetry planner.events
  caller : turnToRetry planner.events ≠ none
  unread : ¬ planner.Carried (requestToRetry planner.events)
  noRetry : ∀ file ∈ planner.directory.files, file.state = .pending →
    file.request.what = providerRetry → retry = some file.request.seq
  answering : ∀ seq, retry = some seq → scan planner.events seq = .seeking ∧ planner.Answering seq
  wrapper : match planner.wrapper with
    | .waiting afterWall => afterWall = true
    | .toStart none => False
    | .toStart (some request) => request.what = providerRetry ∧ retry = some request.seq ∧
        ⟨.taken, request⟩ ∈ planner.directory.files
    | .running _ _ => False
    | .closed => True

/-- Turn `turn` is under way. -/
structure Running (planner : Planner) (turn : Nat) : Prop where
  scans : ∀ seq, scan planner.events seq = .seeking ∨ scan planner.events seq = .read ∨
    scan planner.events seq = .running (some turn)
  current : ∀ seq, scan planner.events seq = .running (some turn) ↔
    planner.call seq = requestToRetry planner.events
  caller : turnToRetry planner.events ≠ none
  unread : ¬ planner.Carried (requestToRetry planner.events)
  noRetry : ∀ file ∈ planner.directory.files, file.state = .pending →
    file.request.what ≠ providerRetry
  last : turn = planner.turns
  started : ∃ event ∈ planner.events, event.isStarted = true ∧ event.payload.turn = some turn
  makes : ∀ event ∈ planner.events, event.isStarted = true → event.payload.turn = some turn →
    planner.callOf event.payload.request = requestToRetry planner.events
  unended : ∀ event ∈ planner.events, event.isFinished = true → event.payload.turn ≠ some turn
  answered : (∀ finishedAt finished, lastFinished planner.events = some (finishedAt, finished) →
      finished.atWall = false) ∨
    ∃ seq, planner.Answering seq ∧ ∀ event ∈ planner.events, event.isStarted = true →
      event.payload.request = some seq → event.payload.turn = some turn
  wrapper : ∃ request, planner.wrapper = .running turn request

/-- Where a planner stands between two steps. -/
inductive Placed (planner : Planner) : Prop where
  | idle (idle : planner.Idle)
  | atWall (retry : Option Nat) (atWall : planner.AtWall retry)
  | running (turn : Nat) (running : planner.Running turn)

/-! ### Steps that start and end no turn -/

/-- `after` has the turns of `planner`, and the same calls; a file it has more is a request for the
planner that waits. -/
structure Quiet (planner after : Planner) : Prop where
  started : ∀ event, event.isStarted = true → (event ∈ after.events ↔ event ∈ planner.events)
  finished : ∀ event, event.isFinished = true → (event ∈ after.events ↔ event ∈ planner.events)
  scans : ∀ seq, scan after.events seq = scan planner.events seq
  toRetry : turnToRetry after.events = turnToRetry planner.events
  last : lastFinished after.events = lastFinished planner.events
  turns : after.turns = planner.turns
  call : after.call = planner.call
  answering : ∀ seq, planner.Answering seq → after.Answering seq
  kept : ∀ file ∈ planner.directory.files, file ∈ after.directory.files
  new : ∀ file ∈ after.directory.files, file ∈ planner.directory.files ∨
    (file.state = .pending ∧ file.request.what ≠ providerRetry)

namespace Quiet

variable {planner after : Planner}

theorem carried (quiet : Quiet planner after) (call : Option Nat) :
    after.Carried call ↔ planner.Carried call := by
  unfold Carried callOf
  rw [quiet.call]
  constructor
  · rintro ⟨started, member, isStarted, same, finished, ended, isFinished, rest⟩
    exact ⟨started, (quiet.started started isStarted).mp member, isStarted, same, finished,
      (quiet.finished finished isFinished).mp ended, isFinished, rest⟩
  · rintro ⟨started, member, isStarted, same, finished, ended, isFinished, rest⟩
    exact ⟨started, (quiet.started started isStarted).mpr member, isStarted, same, finished,
      (quiet.finished finished isFinished).mpr ended, isFinished, rest⟩

theorem request (quiet : Quiet planner after) :
    requestToRetry after.events = requestToRetry planner.events := by
  unfold requestToRetry
  rw [quiet.toRetry]

theorem listed (quiet : Quiet planner after) (listed : planner.Listed) : after.Listed where
  taken event member isStarted seq named := by
    obtain ⟨file, listed, rest⟩ :=
      listed.taken event ((quiet.started event isStarted).mp member) isStarted seq named
    exact ⟨file, quiet.kept file listed, rest⟩

theorem known (quiet : Quiet planner after) (known : planner.Known) : after.Known where
  toListed := quiet.listed known.toListed
  own seq another := by
    rw [quiet.call] at another
    obtain ⟨file, listed, rest⟩ := known.own seq another
    exact ⟨file, quiet.kept file listed, rest⟩
  retried seq another := by
    rw [quiet.call] at another ⊢
    obtain ⟨event, member, isStarted, rest⟩ := known.retried seq another
    exact ⟨event, (quiet.started event isStarted).mpr member, isStarted, rest⟩
  read seq := by
    rw [quiet.scans, quiet.call, quiet.carried]
    exact known.read seq
  counted event member turnEvent := by
    rw [quiet.turns]
    refine known.counted event ?_ turnEvent
    rcases turnEvent with isStarted | isFinished
    · exact (quiet.started event isStarted).mp member
    · exact (quiet.finished event isFinished).mp member

/-- A place between turns stays, the wrapper where it was or ended. -/
theorem placed (quiet : Quiet planner after) (placed : planner.Placed)
    (wrapper : after.wrapper = planner.wrapper ∨ (after.wrapper = .closed ∧
      ∀ turn request, planner.wrapper ≠ .running turn request)) : after.Placed := by
  cases placed with
  | idle idle =>
    refine .idle ⟨fun seq => ?_, fun file listed waits => ?_, fun finishedAt finished last => ?_, ?_⟩
    · rw [quiet.scans]
      exact idle.scans seq
    · rcases quiet.new file listed with before | new
      · exact idle.noRetry file before waits
      · exact new.2
    · rw [quiet.last] at last
      exact idle.noWall finishedAt finished last
    · have held := idle.wrapper
      rcases wrapper with same | ⟨closed, _⟩
      · rw [same]
        split at held <;> simp_all only
        · intro event member
          by_contra isStarted
          rw [Bool.not_eq_false] at isStarted
          have quietly := held event ((quiet.started event isStarted).mp member)
          rw [isStarted] at quietly
          cases quietly
        · exact ⟨held.1, (quiet.scans _).trans held.2.1, quiet.kept _ held.2.2⟩
      · rw [closed]
        trivial
  | atWall retry atWall =>
    refine .atWall retry ⟨fun seq => ?_, fun seq => ?_, ?_, ?_, fun file listed waits isRetry => ?_,
      fun seq isRetry => ?_, ?_⟩
    · rw [quiet.scans]
      exact atWall.scans seq
    · rw [quiet.scans, quiet.call, quiet.request]
      exact atWall.current seq
    · rw [quiet.toRetry]
      exact atWall.caller
    · rw [quiet.request, quiet.carried]
      exact atWall.unread
    · rcases quiet.new file listed with before | new
      · exact atWall.noRetry file before waits isRetry
      · exact absurd isRetry new.2
    · rw [quiet.scans]
      exact ⟨(atWall.answering seq isRetry).1, quiet.answering seq (atWall.answering seq isRetry).2⟩
    · have held := atWall.wrapper
      rcases wrapper with same | ⟨closed, _⟩
      · rw [same]
        split at held <;> simp_all only
        exact ⟨trivial, trivial, quiet.kept _ held.2.2⟩
      · rw [closed]
        trivial
  | running turn running =>
    obtain ⟨request, isRunning⟩ := running.wrapper
    have same : after.wrapper = planner.wrapper := by
      rcases wrapper with same | ⟨_, between⟩
      · exact same
      · exact absurd isRunning (between turn request)
    refine .running turn ⟨fun seq => ?_, fun seq => ?_, ?_, ?_, fun file listed waits => ?_, ?_, ?_,
      fun event member isStarted named => ?_, fun event member isFinished => ?_, ?_,
      ⟨request, same.trans isRunning⟩⟩
    · rw [quiet.scans]
      exact running.scans seq
    · rw [quiet.scans, quiet.call, quiet.request]
      exact running.current seq
    · rw [quiet.toRetry]
      exact running.caller
    · rw [quiet.request, quiet.carried]
      exact running.unread
    · rcases quiet.new file listed with before | new
      · exact running.noRetry file before waits
      · exact new.2
    · exact running.last.trans quiet.turns.symm
    · obtain ⟨event, member, isStarted, named⟩ := running.started
      exact ⟨event, (quiet.started event isStarted).mpr member, isStarted, named⟩
    · have makes := running.makes event ((quiet.started event isStarted).mp member) isStarted named
      unfold callOf at makes ⊢
      rw [quiet.call, quiet.request]
      exact makes
    · exact running.unended event ((quiet.finished event isFinished).mp member) isFinished
    · rw [quiet.last]
      rcases running.answered with noWall | ⟨seq, answering, only⟩
      · exact Or.inl noWall
      · exact Or.inr ⟨seq, quiet.answering seq answering, fun event member isStarted =>
          only event ((quiet.started event isStarted).mp member) isStarted⟩

end Quiet

/-! ### The requests, the records and everything else -/

/-- One more event that starts and ends no turn leaves a retry in the air. -/
theorem Answering.append {planner after : Planner} {seq : Nat} (answering : planner.Answering seq)
    (event : RunEvent) (unfinished : event.isFinished = false)
    (events : after.events = planner.events ++ [event])
    (unrecorded : (seq, providerRetry) ∈ planner.unrecorded →
      (seq, providerRetry) ∈ after.unrecorded ∨ event = .turnRequested seq providerRetry) :
    after.Answering seq := by
  obtain ⟨finishedAt, finished, last, past, there⟩ := answering
  have place := (lastFinished_spec last).1
  refine ⟨finishedAt, finished, ?_, ?_, ?_⟩
  · rw [events, lastFinished_append, unfinished]
    exact last
  · rw [events, List.take_append_of_le_length place.le]
    exact past
  · rw [events, List.drop_append_of_le_length place.le]
    rcases there with recorded | written
    · exact Or.inl (List.mem_append_left _ recorded)
    · rcases unrecorded written with kept | rfl
      · exact Or.inr kept
      · exact Or.inl (List.mem_append_right _ (List.mem_singleton.mpr rfl))

theorem turns_append (planner : Planner) (event : RunEvent) (unstarted : event.isStarted = false) :
    (planner.note event).turns = planner.turns := by
  show ((planner.events ++ [event]).filter RunEvent.isStarted).length = _
  rw [List.filter_append, List.filter_singleton, unstarted, cond_false, List.append_nil]
  rfl

/-- One more event that starts and ends no turn, recorded with no file more. -/
theorem quiet_note {planner after : Planner} (event : RunEvent) (unstarted : event.isStarted = false)
    (unfinished : event.isFinished = false) (events : after.events = planner.events ++ [event])
    (call : after.call = planner.call) (directory : after.directory = planner.directory)
    (unrecorded : ∀ seq, (seq, providerRetry) ∈ planner.unrecorded →
      (seq, providerRetry) ∈ after.unrecorded ∨ event = .turnRequested seq providerRetry) :
    Quiet planner after where
  started other isStarted := by
    rw [events, List.mem_append, List.mem_singleton, or_iff_left]
    rintro rfl
    rw [unstarted] at isStarted
    cases isStarted
  finished other isFinished := by
    rw [events, List.mem_append, List.mem_singleton, or_iff_left]
    rintro rfl
    rw [unfinished] at isFinished
    cases isFinished
  scans seq := by
    rw [events]
    exact scan_append_quiet unstarted unfinished seq
  toRetry := by rw [events, turnToRetry_append, unstarted, Bool.false_and, if_neg (by decide)]
  last := by rw [events, lastFinished_append, unfinished, if_neg (by decide)]
  turns := by
    unfold turns
    rw [events]
    exact turns_append planner event unstarted
  call := call
  answering seq answering := answering.append event unfinished events (unrecorded seq)
  kept file listed := directory ▸ listed
  new file listed := Or.inl (directory ▸ listed)

/-- No file has the number of the next request. -/
theorem Known.call_next {planner : Planner} (known : planner.Known) :
    planner.call (nextSeq planner.directory.names) = some (nextSeq planner.directory.names) := by
  by_contra another
  obtain ⟨file, listed, same, _⟩ := known.own _ another
  exact absurd same (planner.directory.seq_lt_nextSeq listed).ne

theorem Known.quiet_send {planner : Planner} (known : planner.Known) (what prompt : String)
    (another : what ≠ providerRetry) :
    Quiet planner (planner.send what prompt (some (nextSeq planner.directory.names))) where
  started _ _ := Iff.rfl
  finished _ _ := Iff.rfl
  scans _ := rfl
  toRetry := rfl
  last := rfl
  turns := rfl
  call := by
    show Function.update planner.call _ _ = planner.call
    rw [← known.call_next]
    exact Function.update_eq_self _ planner.call
  answering seq answering := by
    obtain ⟨finishedAt, finished, last, past, there⟩ := answering
    exact ⟨finishedAt, finished, last, past, there.imp_right (List.mem_append_left _)⟩
  kept file listed := (planner.directory.mem_write what prompt file).mpr (Or.inl listed)
  new file listed := by
    rcases (planner.directory.mem_write what prompt file).mp listed with before | rfl
    · exact Or.inl before
    · exact Or.inr ⟨rfl, another⟩

theorem quiet_record {planner : Planner} (seq : Nat) (what : String) :
    Quiet planner { planner.note (.turnRequested seq what) with
      unrecorded := planner.unrecorded.erase (seq, what) } := by
  refine quiet_note (.turnRequested seq what) rfl rfl rfl rfl rfl fun retry written => ?_
  by_cases same : (retry, providerRetry) = (seq, what)
  · cases same
    exact Or.inr rfl
  · exact Or.inl ((List.mem_erase_of_ne same).mpr written)

theorem quiet_close (planner : Planner) : Quiet planner { planner with wrapper := .closed } where
  started _ _ := Iff.rfl
  finished _ _ := Iff.rfl
  scans _ := rfl
  toRetry := rfl
  last := rfl
  turns := rfl
  call := rfl
  answering _ answering := answering
  kept _ listed := listed
  new _ listed := Or.inl listed

/-! ### A retry written -/

/-- Two planners with the same events whose calls agree on the requests that started a turn carried
the same calls. -/
theorem carried_congr {planner after : Planner} (events : after.events = planner.events)
    (agree : ∀ event ∈ planner.events, event.isStarted = true →
      ∀ seq, event.payload.request = some seq → after.call seq = planner.call seq)
    (call : Option Nat) : after.Carried call ↔ planner.Carried call := by
  have same (event : RunEvent) (member : event ∈ planner.events) (isStarted : event.isStarted = true) :
      after.callOf event.payload.request = planner.callOf event.payload.request := by
    cases named : event.payload.request with
    | none => rfl
    | some seq => exact agree event member isStarted seq named
  unfold Carried
  rw [events]
  constructor
  · rintro ⟨started, member, isStarted, calls, rest⟩
    exact ⟨started, member, isStarted, (same started member isStarted).symm.trans calls, rest⟩
  · rintro ⟨started, member, isStarted, calls, rest⟩
    exact ⟨started, member, isStarted, (same started member isStarted).trans calls, rest⟩

/-- A request written leaves the turns and their files. -/
theorem Listed.send {planner : Planner} (listed : planner.Listed) (what prompt : String)
    (call : Option Nat) : (planner.send what prompt call).Listed where
  taken event member isStarted seq named := by
    obtain ⟨file, isFile, rest⟩ := listed.taken event member isStarted seq named
    exact ⟨file, (planner.directory.mem_write what prompt file).mpr (Or.inl isFile), rest⟩

/-- Each request that started a turn is numbered below the next. -/
theorem Known.started_lt {planner : Planner} (known : planner.Known) {event : RunEvent}
    (member : event ∈ planner.events) (isStarted : event.isStarted = true) {seq : Nat}
    (named : event.payload.request = some seq) : seq < nextSeq planner.directory.names := by
  obtain ⟨file, listed, same, _⟩ := known.taken event member isStarted seq named
  exact same ▸ planner.directory.seq_lt_nextSeq listed

theorem Known.scan_next {planner : Planner} (known : planner.Known) :
    scan planner.events (nextSeq planner.directory.names) = .seeking :=
  (scan_eq_seeking_iff _ _).mpr fun _ member isStarted named =>
    absurd (known.started_lt member isStarted named) (lt_irrefl _)

section Retry

variable {planner : Planner} {prompt : String}

theorem send_call_self (what : String) (call : Option Nat) :
    (planner.send what prompt call).call (nextSeq planner.directory.names) = call :=
  Function.update_self _ _ _

theorem send_call_of_ne (what : String) (call : Option Nat) {seq : Nat}
    (another : seq ≠ nextSeq planner.directory.names) :
    (planner.send what prompt call).call seq = planner.call seq :=
  Function.update_of_ne another _ _

theorem Known.send_carried (known : planner.Known) (what : String) (made call : Option Nat) :
    (planner.send what prompt made).Carried call ↔ planner.Carried call :=
  @carried_congr planner (planner.send what prompt made) rfl (fun _ member isStarted _ named =>
    send_call_of_ne what made (known.started_lt member isStarted named).ne) call

/-- A planner whose last turn met the wall, with no retry yet, is one whose retry is written. -/
theorem AtWall.retry (atWall : planner.AtWall none) (known : planner.Known)
    (due : planner.retryDue false = true) :
    let after := planner.send providerRetry prompt (requestToRetry planner.events)
    after.Known ∧ after.AtWall (some (nextSeq planner.directory.names)) := by
  intro after
  have self : after.call (nextSeq planner.directory.names) = requestToRetry planner.events :=
    send_call_self _ _
  have others {seq : Nat} (another : seq ≠ nextSeq planner.directory.names) :
      after.call seq = planner.call seq := send_call_of_ne _ _ another
  have carried (call : Option Nat) : after.Carried call ↔ planner.Carried call :=
    known.send_carried _ _ call
  have file (listed : ListedRequest) : listed ∈ after.directory.files ↔
      listed ∈ planner.directory.files ∨
        listed = ⟨.pending, ⟨nextSeq planner.directory.names, providerRetry, prompt⟩⟩ :=
    planner.directory.mem_write providerRetry prompt listed
  constructor
  · refine ⟨known.toListed.send _ _ _, fun seq another => ?_, fun seq another => ?_, fun seq => ?_,
      known.counted⟩
    · by_cases next : seq = nextSeq planner.directory.names
      · exact ⟨_, (file _).mpr (Or.inr rfl), next.symm, rfl⟩
      · rw [others next] at another
        obtain ⟨found, listed, rest⟩ := known.own seq another
        exact ⟨found, (file found).mpr (Or.inl listed), rest⟩
    · by_cases next : seq = nextSeq planner.directory.names
      · obtain ⟨caller, found⟩ := Option.ne_none_iff_exists'.mp atWall.caller
        obtain ⟨member, isStarted, notRetry⟩ := turnToRetry_spec found
        refine ⟨caller, member, isStarted, notRetry, ?_⟩
        rw [next, self]
        unfold requestToRetry
        rw [found]
        rfl
      · rw [others next] at another ⊢
        exact known.retried seq another
    · rw [carried]
      by_cases next : seq = nextSeq planner.directory.names
      · rw [next, self]
        refine iff_of_false ?_ atWall.unread
        show scan planner.events _ ≠ .read
        rw [known.scan_next]
        decide
      · rw [others next]
        exact known.read seq
  · refine ⟨atWall.scans, fun seq => ?_, atWall.caller, ?_, fun found listed waits isRetry => ?_,
      fun seq isRetry => ?_, ?_⟩
    · by_cases next : seq = nextSeq planner.directory.names
      · rw [next]
        exact iff_of_true (Or.inr rfl) self
      · rw [others next, ← show _ = requestToRetry after.events from rfl]
        refine Iff.trans ?_ (atWall.current seq)
        refine or_congr_right (iff_of_false (fun same => ?_) (fun same => by cases same))
        exact next (Option.some.inj same).symm
    · rw [carried]
      exact atWall.unread
    · rcases (file found).mp listed with before | rfl
      · exact absurd (atWall.noRetry found before waits isRetry) (by simp)
      · rfl
    · cases isRetry
      refine ⟨known.scan_next, ?_⟩
      unfold retryDue at due
      split at due
      · cases due
      · rename_i finishedAt finished last
        refine ⟨finishedAt, finished, last, fun event member isStarted request named => ?_,
          Or.inr (List.mem_append_right _ (List.mem_singleton.mpr rfl))⟩
        exact known.started_lt (List.mem_of_mem_take member) isStarted named
    · have held := atWall.wrapper
      have same : after.wrapper = planner.wrapper := rfl
      rw [same]
      split at held <;> simp_all

/-- A retry is due only after a turn that met the wall, with no retry written since. -/
theorem Placed.atWall_of_due (placed : planner.Placed) (due : planner.retryDue false = true)
    (settled : planner.Settled) : planner.AtWall none := by
  have notWalled (none : ∀ finishedAt finished,
      lastFinished planner.events = some (finishedAt, finished) → finished.atWall = false) :
      False := by
    unfold retryDue at due
    split at due
    · cases due
    · rename_i finishedAt finished last
      simp [none finishedAt finished last] at due
  cases placed with
  | idle idle => exact (notWalled idle.noWall).elim
  | atWall retry atWall =>
    cases retry with
    | none => exact atWall
    | some seq =>
      obtain ⟨seeking, answering⟩ := atWall.answering seq rfl
      have unended : ¬ planner.TurnEnded seq := fun ⟨started, member, isStarted, named, _⟩ =>
        (scan_eq_seeking_iff _ _).mp seeking started member isStarted named
      rw [answering.not_due settled unended] at due
      cases due
  | running turn running =>
    rcases running.answered with none | ⟨seq, answering, only⟩
    · exact (notWalled none).elim
    · have unended : ¬ planner.TurnEnded seq := by
        rintro ⟨started, member, isStarted, named, finished, ended, isFinished, same⟩
        exact running.unended finished ended isFinished
          (same.trans (only started member isStarted named))
      rw [answering.not_due settled unended] at due
      cases due

end Retry

end Planner

end Dagq.Turns
