/-
This file proves which requests a planner read, in any order of the supervisor's
and the wrapper's steps: a request is read exactly when a turn that carried its
prompt ended otherwise than at the wall, and from then on.
-/

import Dagq.Turns.PlannerInvariant

namespace Dagq.Turns

namespace Planner

/-! ### A request taken -/

/-- The request taken next waits, and is a retry after the wall. -/
theorem requestToTake_spec {planner : Planner} {afterWall : Bool} {seq : Nat}
    (next : requestToTake planner.waiting afterWall = some seq) :
    ∃ file ∈ planner.directory.files, file.request.seq = seq ∧ file.state = .pending ∧
      (afterWall = true → file.request.what = providerRetry) := by
  obtain ⟨⟨found, what⟩, isNext, rfl⟩ := Option.map_eq_some_iff.mp next
  have member := List.mem_of_find?_eq_some isNext
  have fits := List.find?_some isNext
  obtain ⟨_, isPending, named⟩ := List.mem_filterMap.mp member
  obtain ⟨file, isFile, same⟩ := Option.map_eq_some_iff.mp named
  cases same
  have listed := List.mem_of_find?_eq_some isFile
  have isSeq : file.request.seq = found := by simpa using List.find?_some isFile
  obtain ⟨other, otherListed, otherSeq, pending⟩ :=
    (planner.directory.mem_pending found).mp isPending
  have same := planner.directory.eq_of_seq otherListed listed (otherSeq.trans isSeq.symm)
  refine ⟨file, listed, isSeq, same ▸ pending, fun wall => ?_⟩
  simpa [wall] using fits

section Take

variable {planner : Planner} {seq : Nat}

/-- A planner whose request `seq` is taken. -/
def taking (planner : Planner) (request : TurnRequest) : Planner :=
  { planner with
    directory := planner.directory.rename request.seq .taken
    wrapper := .toStart (some request) }

theorem rename_kept (planner : Planner) (request : TurnRequest) {file : ListedRequest}
    (listed : file ∈ planner.directory.files) : ∃ now ∈ (planner.taking request).directory.files,
      now.request = file.request ∧ (file.state = .taken → now.state = .taken) := by
  by_cases same : file.request.seq = request.seq
  · exact ⟨{ file with state := .taken },
      (planner.directory.mem_rename _ _ _).mpr (Or.inl ⟨file, listed, same, rfl⟩), rfl, fun _ => rfl⟩
  · exact ⟨file, (planner.directory.mem_rename _ _ _).mpr (Or.inr ⟨listed, same⟩), rfl, id⟩

theorem rename_pending (planner : Planner) (request : TurnRequest) {file : ListedRequest}
    (listed : file ∈ (planner.taking request).directory.files) (waits : file.state = .pending) :
    file ∈ planner.directory.files ∧ file.request.seq ≠ request.seq := by
  rcases (planner.directory.mem_rename _ _ _).mp listed with ⟨before, _, _, rfl⟩ | kept
  · cases waits
  · exact kept

theorem Listed.take (listed : planner.Listed) (request : TurnRequest) :
    (planner.taking request).Listed where
  taken event member isStarted seq named := by
    obtain ⟨file, isFile, isSeq, state, what⟩ := listed.taken event member isStarted seq named
    obtain ⟨now, nowListed, same, stays⟩ := rename_kept planner request isFile
    exact ⟨now, nowListed, same ▸ isSeq, stays state, same ▸ what⟩

theorem Known.take (known : planner.Known) (request : TurnRequest) :
    (planner.taking request).Known where
  toListed := known.toListed.take request
  own seq another := by
    obtain ⟨file, listed, isSeq, what⟩ := known.own seq another
    obtain ⟨now, nowListed, same, _⟩ := rename_kept planner request listed
    exact ⟨now, nowListed, same ▸ isSeq, same ▸ what⟩
  retried := known.retried
  read := known.read
  counted := known.counted

/-- No turn started from a request that waits. -/
theorem Known.scan_pending (known : planner.Known) {file : ListedRequest}
    (listed : file ∈ planner.directory.files) (waits : file.state = .pending) :
    scan planner.events file.request.seq = .seeking := by
  refine (scan_eq_seeking_iff _ _).mpr fun event member isStarted named => ?_
  obtain ⟨other, otherListed, same, taken, _⟩ := known.taken event member isStarted _ named
  rw [planner.directory.eq_of_seq otherListed listed same, waits] at taken
  cases taken

theorem Placed.take (placed : planner.Placed) (known : planner.Known) {afterWall : Bool}
    {file : ListedRequest} (waiting : planner.wrapper = .waiting afterWall)
    (next : requestToTake planner.waiting afterWall = some file.request.seq)
    (listed : file ∈ planner.directory.files) : (planner.taking file.request).Placed := by
  obtain ⟨other, otherListed, same, waits, fits⟩ := requestToTake_spec next
  cases planner.directory.eq_of_seq otherListed listed same
  have taken : ⟨.taken, file.request⟩ ∈ (planner.taking file.request).directory.files :=
    (planner.directory.mem_rename _ _ _).mpr (Or.inl ⟨file, listed, rfl, rfl⟩)
  cases placed with
  | idle idle =>
    exact .idle ⟨idle.scans, fun now nowListed pending =>
      idle.noRetry now (rename_pending planner file.request nowListed pending).1 pending,
      idle.noWall, idle.noRetry file listed waits, known.scan_pending listed waits, taken⟩
  | atWall retry atWall =>
    have wall := atWall.wrapper
    rw [waiting] at wall
    have isRetry := fits wall
    exact .atWall retry ⟨atWall.scans, atWall.current, atWall.caller, atWall.unread,
      fun now nowListed pending =>
        atWall.noRetry now (rename_pending planner file.request nowListed pending).1 pending,
      atWall.answering, isRetry, atWall.noRetry file listed waits isRetry, taken⟩
  | running turn running =>
    obtain ⟨request, isRunning⟩ := running.wrapper
    rw [waiting] at isRunning
    cases isRunning

end Take

/-! ### A turn started -/

section Start

variable {planner : Planner} {request : Option TurnRequest}

/-- The record of the turn that starts from `request`. -/
def startOf (planner : Planner) (request : Option TurnRequest) : RunEvent :=
  .turnStarted (planner.turns + 1) (request.map TurnRequest.seq)
    (request.elim "the task's prompt" TurnRequest.what)

theorem startOf_isStarted (planner : Planner) (request : Option TurnRequest) :
    (planner.startOf request).isStarted = true := rfl

def starting (planner : Planner) (request : Option TurnRequest) : Planner :=
  { planner.note (planner.startOf request) with
    wrapper := .running (planner.turns + 1) request }

theorem starting_turns (planner : Planner) (request : Option TurnRequest) :
    (planner.starting request).turns = planner.turns + 1 := by
  show ((planner.events ++ [planner.startOf request]).filter RunEvent.isStarted).length = _
  rw [List.filter_append, List.length_append]
  rfl

/-- A start alone carries no call. -/
theorem Known.starting_carried (known : planner.Known) (call : Option Nat) :
    (planner.starting request).Carried call ↔ planner.Carried call := by
  constructor
  · rintro ⟨started, member, isStarted, calls, finished, ended, isFinished, same, wall⟩
    have ended : finished ∈ planner.events := by
      rcases List.mem_append.mp ended with before | last
      · exact before
      · rw [List.mem_singleton.mp last] at isFinished
        cases isFinished
    rcases List.mem_append.mp member with before | last
    · exact ⟨started, before, isStarted, calls, finished, ended, isFinished, same, wall⟩
    · obtain ⟨turn, named, bound⟩ := known.counted finished ended (Or.inr isFinished)
      rw [List.mem_singleton.mp last, named] at same
      have isNext : turn = planner.turns + 1 := Option.some.inj same
      omega
  · rintro ⟨started, member, isStarted, calls, finished, ended, isFinished, same, wall⟩
    exact ⟨started, List.mem_append_left _ member, isStarted, calls, finished,
      List.mem_append_left _ ended, isFinished, same, wall⟩

theorem Listed.start (listed : planner.Listed)
    (taken : ∀ own, request = some own → ⟨.taken, own⟩ ∈ planner.directory.files) :
    (planner.starting request).Listed where
  taken event member isStarted seq named := by
    rcases List.mem_append.mp member with before | last
    · exact listed.taken event before isStarted seq named
    · rw [List.mem_singleton.mp last] at named ⊢
      obtain ⟨own, isOwn, isSeq⟩ := Option.map_eq_some_iff.mp named
      refine ⟨_, taken own isOwn, isSeq, rfl, ?_⟩
      rw [isOwn]
      rfl

theorem Known.start (known : planner.Known)
    (taken : ∀ own, request = some own → ⟨.taken, own⟩ ∈ planner.directory.files) :
    (planner.starting request).Known where
  toListed := known.toListed.start taken
  own := known.own
  retried seq another := by
    obtain ⟨event, member, rest⟩ := known.retried seq another
    exact ⟨event, List.mem_append_left _ member, rest⟩
  read seq := by
    rw [known.starting_carried]
    refine Iff.trans ?_ (known.read seq)
    show scan (planner.events ++ [planner.startOf request]) seq = .read ↔ _
    rw [scan_append]
    cases scan planner.events seq <;> simp only [Scan.step]
    · split <;> simp
    · simp [startOf, RunEvent.turnStarted, RunEvent.isFinished]
    · split_ifs <;> simp
  counted event member turnEvent := by
    rw [starting_turns]
    rcases List.mem_append.mp member with before | last
    · obtain ⟨turn, named, bound⟩ := known.counted event before turnEvent
      exact ⟨turn, named, bound.trans (Nat.le_succ _)⟩
    · rw [List.mem_singleton.mp last]
      exact ⟨_, rfl, le_rfl⟩

/-- The turn under way after a start, from what it makes and what was so before. -/
theorem Known.running_of_start (known : planner.Known)
    (scans : ∀ seq, scan (planner.starting request).events seq = .seeking ∨
      scan (planner.starting request).events seq = .read ∨
      scan (planner.starting request).events seq = .running (some (planner.turns + 1)))
    (makes : requestToRetry (planner.starting request).events =
      planner.callOf (request.map TurnRequest.seq))
    (current : ∀ seq,
      scan (planner.starting request).events seq = .running (some (planner.turns + 1)) ↔
        planner.call seq = planner.callOf (request.map TurnRequest.seq))
    (caller : turnToRetry (planner.starting request).events ≠ none)
    (unread : ¬ planner.Carried (planner.callOf (request.map TurnRequest.seq)))
    (noRetry : ∀ file ∈ planner.directory.files, file.state = .pending →
      file.request.what ≠ providerRetry)
    (answered : (∀ finishedAt finished, lastFinished planner.events = some (finishedAt, finished) →
        finished.atWall = false) ∨
      ∃ own, request = some own ∧ planner.Answering own.seq ∧
        scan planner.events own.seq = .seeking) :
    (planner.starting request).Running (planner.turns + 1) := by
  have quietEnd : lastFinished (planner.starting request).events = lastFinished planner.events := by
    show lastFinished (planner.events ++ [planner.startOf request]) = _
    rw [lastFinished_append]
    rfl
  refine ⟨scans, fun seq => makes ▸ current seq, caller, ?_, noRetry,
    (starting_turns planner request).symm, ?_, fun event member isStarted named => ?_,
    fun event member isFinished named => ?_, ?_, ⟨request, rfl⟩⟩
  · rw [makes, known.starting_carried]
    exact unread
  · exact ⟨planner.startOf request, List.mem_append_right _ (List.mem_singleton.mpr rfl), rfl, rfl⟩
  · rw [makes]
    rcases List.mem_append.mp member with before | last
    · obtain ⟨turn, isTurn, bound⟩ := known.counted event before (Or.inl isStarted)
      rw [named] at isTurn
      have isNext := Option.some.inj isTurn
      omega
    · rw [List.mem_singleton.mp last]
      rfl
  · rcases List.mem_append.mp member with before | last
    · obtain ⟨turn, isTurn, bound⟩ := known.counted event before (Or.inr isFinished)
      rw [named] at isTurn
      have isNext := Option.some.inj isTurn
      omega
    · rw [List.mem_singleton.mp last] at isFinished
      cases isFinished
  · rw [quietEnd]
    rcases answered with none | ⟨own, rfl, answering, seeking⟩
    · exact Or.inl none
    · refine Or.inr ⟨own.seq, answering.append _ rfl rfl Or.inl, fun event member isStarted named => ?_⟩
      rcases List.mem_append.mp member with before | last
      · exact absurd named ((scan_eq_seeking_iff _ _).mp seeking event before isStarted)
      · rw [List.mem_singleton.mp last]
        rfl

/-- A request that no turn started from and that is no retry: only it makes its call. -/
theorem Known.call_eq_some_iff (known : planner.Known) {own : TurnRequest}
    (notRetry : own.what ≠ providerRetry) (listed : ⟨.taken, own⟩ ∈ planner.directory.files)
    (seeking : scan planner.events own.seq = .seeking) (seq : Nat) :
    planner.call seq = some own.seq ↔ seq = own.seq := by
  constructor
  · intro calls
    by_contra other
    have another : planner.call seq ≠ some seq := by
      rw [calls]
      exact fun same => other (Option.some.inj same).symm
    obtain ⟨event, member, isStarted, _, named⟩ := known.retried seq another
    exact (scan_eq_seeking_iff _ _).mp seeking event member isStarted (named.trans calls)
  · rintro rfl
    by_contra another
    obtain ⟨file, fileListed, isSeq, isRetry⟩ := known.own own.seq another
    rw [planner.directory.eq_of_seq fileListed listed isSeq] at isRetry
    exact notRetry isRetry

/-- The initial turn. -/
theorem Idle.start_first (idle : planner.Idle) (known : planner.Known)
    (first : ∀ event ∈ planner.events, event.isStarted = false) :
    (planner.starting none).Running (planner.turns + 1) := by
  have none (event : RunEvent) (member : event ∈ planner.events) (isStarted : event.isStarted = true) :
      False := by
    rw [first event member] at isStarted
    cases isStarted
  have newScan (seq : Nat) : scan (planner.starting Option.none).events seq = scan planner.events seq := by
    show scan (planner.events ++ [planner.startOf Option.none]) seq = _
    rw [scan_append]
    rcases idle.scans seq with state | state <;> rw [state] <;> rfl
  have found : turnToRetry (planner.starting Option.none).events =
      some (planner.startOf Option.none) := by
    show turnToRetry (planner.events ++ [planner.startOf Option.none]) = _
    rw [turnToRetry_append]
    rfl
  refine known.running_of_start (fun seq => ?_) ?_ (fun seq => ?_) ?_ ?_ idle.noRetry
    (Or.inl idle.noWall)
  · rw [newScan]
    exact (idle.scans seq).imp_right Or.inl
  · unfold requestToRetry
    rw [found]
    rfl
  · refine iff_of_false ?_ fun calls => ?_
    · rw [newScan]
      rcases idle.scans seq with state | state <;> rw [state] <;> simp
    · have another : planner.call seq ≠ some seq := by
        rw [calls]
        exact Option.some_ne_none seq |>.symm
      obtain ⟨event, member, isStarted, _⟩ := known.retried seq another
      exact none event member isStarted
  · rw [found]
    exact Option.some_ne_none _
  · rintro ⟨started, member, isStarted, _⟩
    exact none started member isStarted

/-- The turn of a request that is no retry. -/
theorem Idle.start (idle : planner.Idle) (known : planner.Known) {own : TurnRequest}
    (notRetry : own.what ≠ providerRetry) (seeking : scan planner.events own.seq = .seeking)
    (listed : ⟨.taken, own⟩ ∈ planner.directory.files) :
    (planner.starting (some own)).Running (planner.turns + 1) := by
  have only := known.call_eq_some_iff notRetry listed seeking
  have makes : planner.callOf (some own.seq) = some own.seq := (only own.seq).mpr rfl
  have newScan (seq : Nat) : scan (planner.starting (some own)).events seq =
      if seq = own.seq then .running (some (planner.turns + 1)) else scan planner.events seq := by
    show scan (planner.events ++ [planner.startOf (some own)]) seq = _
    rw [scan_append]
    by_cases same : seq = own.seq
    · rw [if_pos same, same, seeking, Scan.step, if_pos]
      · rfl
      · simp [startOf, RunEvent.turnStarted, RunEvent.isStarted]
    · rw [if_neg same]
      rcases idle.scans seq with state | state <;> rw [state]
      · rw [Scan.step, if_neg]
        simpa [startOf, RunEvent.turnStarted, RunEvent.isStarted] using Ne.symm same
      · rfl
  have found : turnToRetry (planner.starting (some own)).events =
      some (planner.startOf (some own)) := by
    show turnToRetry (planner.events ++ [planner.startOf (some own)]) = _
    rw [turnToRetry_append, if_pos]
    simpa [startOf, RunEvent.turnStarted, RunEvent.isStarted] using notRetry
  refine known.running_of_start (fun seq => ?_) ?_ (fun seq => ?_) ?_ ?_ idle.noRetry
    (Or.inl idle.noWall)
  · rw [newScan]
    split
    · exact Or.inr (Or.inr rfl)
    · exact (idle.scans seq).imp_right Or.inl
  · unfold requestToRetry
    rw [found]
    exact makes.symm
  · rw [newScan, Option.map_some, makes, only]
    by_cases same : seq = own.seq
    · simp [same]
    · rw [if_neg same]
      refine iff_of_false ?_ same
      rcases idle.scans seq with state | state <;> rw [state] <;> simp
  · rw [found]
    exact Option.some_ne_none _
  · rw [Option.map_some, makes]
    rintro ⟨started, member, isStarted, calls, _⟩
    obtain ⟨seq, named, isOwn⟩ := Option.bind_eq_some_iff.mp calls
    rw [(only seq).mp isOwn] at named
    exact (scan_eq_seeking_iff _ _).mp seeking started member isStarted named

/-- The turn of a retry. -/
theorem AtWall.start {own : TurnRequest} (atWall : planner.AtWall (some own.seq))
    (known : planner.Known) (isRetry : own.what = providerRetry)
    (listed : ⟨.taken, own⟩ ∈ planner.directory.files) :
    (planner.starting (some own)).Running (planner.turns + 1) := by
  obtain ⟨seeking, answering⟩ := atWall.answering own.seq rfl
  have makes : planner.callOf (some own.seq) = requestToRetry planner.events :=
    (atWall.current own.seq).mp (Or.inr rfl)
  have newScan (seq : Nat) : scan (planner.starting (some own)).events seq =
      if scan planner.events seq = .atWall ∨ some own.seq = some seq then
        .running (some (planner.turns + 1)) else scan planner.events seq := by
    show scan (planner.events ++ [planner.startOf (some own)]) seq = _
    rw [scan_append]
    by_cases same : some own.seq = some seq
    · cases same
      rw [if_pos (Or.inr rfl), seeking, Scan.step, if_pos]
      · rfl
      · simp [startOf, RunEvent.turnStarted, RunEvent.isStarted]
    · rcases atWall.scans seq with state | state | state <;> rw [state]
      · rw [if_neg (not_or.mpr ⟨by decide, same⟩), Scan.step, if_neg]
        simpa [startOf, RunEvent.turnStarted, RunEvent.isStarted] using same
      · rw [if_neg (not_or.mpr ⟨by decide, same⟩)]
        rfl
      · rw [if_pos (Or.inl rfl), Scan.step, if_pos (startOf_isStarted planner (some own)), if_pos]
        · rfl
        · simp [startOf, RunEvent.turnStarted, isRetry]
  have found : turnToRetry (planner.starting (some own)).events = turnToRetry planner.events := by
    show turnToRetry (planner.events ++ [planner.startOf (some own)]) = _
    rw [turnToRetry_append, if_neg]
    simp [startOf, RunEvent.turnStarted, isRetry]
  refine known.running_of_start (fun seq => ?_) ?_ (fun seq => ?_) ?_ ?_
    (fun file fileListed waits fileRetry => ?_) (Or.inr ⟨own, rfl, answering, seeking⟩)
  · rw [newScan]
    split
    · exact Or.inr (Or.inr rfl)
    · rename_i other
      rcases atWall.scans seq with state | state | state
      · exact Or.inl state
      · exact Or.inr (Or.inl state)
      · exact absurd (Or.inl state) other
  · rw [Option.map_some, makes]
    unfold requestToRetry
    rw [found]
  · rw [newScan, Option.map_some, makes, ← atWall.current seq]
    split
    · rename_i inRun
      exact iff_of_true rfl inRun
    · rename_i other
      refine iff_of_false ?_ other
      rcases atWall.scans seq with state | state | state <;> rw [state] <;> simp
  · rw [found]
    exact atWall.caller
  · rw [Option.map_some, makes]
    exact atWall.unread
  · have same := Option.some.inj (atWall.noRetry file fileListed waits fileRetry)
    rw [planner.directory.eq_of_seq fileListed listed same.symm] at waits
    cases waits

theorem Placed.start (placed : planner.Placed) (known : planner.Known)
    (ready : planner.wrapper = .toStart request) :
    (planner.starting request).Known ∧ (planner.starting request).Placed := by
  cases placed with
  | idle idle =>
    have held := idle.wrapper
    rw [ready] at held
    cases request with
    | none =>
      exact ⟨known.start fun _ none => (by cases none), .running _ (idle.start_first known held)⟩
    | some own =>
      obtain ⟨notRetry, seeking, listed⟩ := held
      exact ⟨known.start fun _ same => Option.some.inj same ▸ listed,
        .running _ (idle.start known notRetry seeking listed)⟩
  | atWall retry atWall =>
    have held := atWall.wrapper
    rw [ready] at held
    cases request with
    | none => exact held.elim
    | some own =>
      obtain ⟨isRetry, rfl, listed⟩ := held
      exact ⟨known.start fun _ same => Option.some.inj same ▸ listed,
        .running _ (atWall.start known isRetry listed)⟩
  | running turn running =>
    obtain ⟨_, isRunning⟩ := running.wrapper
    rw [ready] at isRunning
    cases isRunning

end Start

/-! ### A turn ended -/

section Finish

variable {planner : Planner} {turn : Nat} {outcome : TurnOutcome} {failure : Option TurnFailure}
  {message : Option String}

def finishing (planner : Planner) (turn : Nat) (outcome : TurnOutcome)
    (failure : Option TurnFailure) (message : Option String) : Planner :=
  { planner.note (.turnFinished turn outcome failure message) with
    wrapper := if outcome.goesOn failure then .waiting (outcome.atWall failure) else .closed }

/-- The scan of a request once the turn under way ended. -/
theorem Running.finishing_scan (running : planner.Running turn) (seq : Nat) :
    scan (planner.finishing turn outcome failure message).events seq =
      if planner.call seq = requestToRetry planner.events then
        if outcome.atWall failure then .atWall else .read
      else scan planner.events seq := by
  show scan (planner.events ++ [.turnFinished turn outcome failure message]) seq = _
  rw [scan_append]
  by_cases current : planner.call seq = requestToRetry planner.events
  · rw [if_pos current, (running.current seq).mpr current, Scan.step, if_pos,
      RunEvent.turnFinished_atWall]
    simp [RunEvent.turnFinished, RunEvent.isFinished]
  · rw [if_neg current]
    rcases running.scans seq with state | state | state
    · rw [state]
      rfl
    · rw [state]
      rfl
    · exact absurd ((running.current seq).mp state) current

/-- A turn that ends otherwise than at the wall carried its call. -/
theorem Running.finishing_carried (running : planner.Running turn) (call : Option Nat) :
    (planner.finishing turn outcome failure message).Carried call ↔
      planner.Carried call ∨
        (outcome.atWall failure = false ∧ call = requestToRetry planner.events) := by
  constructor
  · rintro ⟨started, member, isStarted, calls, finished, ended, isFinished, same, wall⟩
    have before : started ∈ planner.events := by
      rcases List.mem_append.mp member with before | last
      · exact before
      · rw [List.mem_singleton.mp last] at isStarted
        cases isStarted
    rcases List.mem_append.mp ended with earlier | last
    · exact Or.inl ⟨started, before, isStarted, calls, finished, earlier, isFinished, same, wall⟩
    · rw [List.mem_singleton.mp last] at same wall
      rw [RunEvent.turnFinished_atWall] at wall
      exact Or.inr ⟨wall, calls.symm.trans (running.makes started before isStarted same.symm)⟩
  · rintro (⟨started, member, isStarted, calls, finished, ended, rest⟩ | ⟨wall, rfl⟩)
    · exact ⟨started, List.mem_append_left _ member, isStarted, calls, finished,
        List.mem_append_left _ ended, rest⟩
    · obtain ⟨started, member, isStarted, named⟩ := running.started
      refine ⟨started, List.mem_append_left _ member, isStarted,
        running.makes started member isStarted named, _,
        List.mem_append_right _ (List.mem_singleton.mpr rfl), rfl, named.symm, ?_⟩
      rw [RunEvent.turnFinished_atWall]
      exact wall

theorem Listed.finish (listed : planner.Listed) :
    (planner.finishing turn outcome failure message).Listed where
  taken event member isStarted seq named := by
    rcases List.mem_append.mp member with before | last
    · exact listed.taken event before isStarted seq named
    · rw [List.mem_singleton.mp last] at isStarted
      cases isStarted

theorem Known.finish (known : planner.Known) (running : planner.Running turn) :
    (planner.finishing turn outcome failure message).Known where
  toListed := known.toListed.finish
  own := known.own
  retried seq another := by
    obtain ⟨event, member, rest⟩ := known.retried seq another
    exact ⟨event, List.mem_append_left _ member, rest⟩
  read seq := by
    rw [running.finishing_scan, running.finishing_carried]
    show _ ↔ planner.Carried (planner.call seq) ∨ _ ∧ planner.call seq = _
    by_cases current : planner.call seq = requestToRetry planner.events
    · rw [if_pos current]
      cases outcome.atWall failure with
      | true => simpa [current] using running.unread
      | false => simp [current]
    · rw [if_neg current, known.read seq]
      simp [current]
  counted event member turnEvent := by
    have same : (planner.finishing turn outcome failure message).turns = planner.turns :=
      turns_append planner _ rfl
    rw [same]
    rcases List.mem_append.mp member with before | last
    · exact known.counted event before turnEvent
    · rw [List.mem_singleton.mp last]
      exact ⟨turn, rfl, running.last.le⟩

theorem Running.finish (running : planner.Running turn) :
    (planner.finishing turn outcome failure message).Placed := by
  have toRetry : turnToRetry (planner.finishing turn outcome failure message).events =
      turnToRetry planner.events := by
    show turnToRetry (planner.events ++ [.turnFinished turn outcome failure message]) = _
    rw [turnToRetry_append]
    rfl
  have request : requestToRetry (planner.finishing turn outcome failure message).events =
      requestToRetry planner.events := by
    unfold requestToRetry
    rw [toRetry]
  have last : lastFinished (planner.finishing turn outcome failure message).events =
      some (planner.events.length, .turnFinished turn outcome failure message) := by
    show lastFinished (planner.events ++ [.turnFinished turn outcome failure message]) = _
    rw [lastFinished_append]
    rfl
  cases wall : outcome.atWall failure with
  | true =>
    refine .atWall none ⟨fun seq => ?_, fun seq => ?_, ?_, ?_, fun file listed waits isRetry => ?_,
      fun _ none => (by cases none), ?_⟩
    · rw [running.finishing_scan, wall]
      split
      · exact Or.inr (Or.inr rfl)
      · rename_i other
        rcases running.scans seq with state | state | state
        · exact Or.inl state
        · exact Or.inr (Or.inl state)
        · exact absurd ((running.current seq).mp state) other
    · rw [running.finishing_scan, wall, request]
      show _ ↔ planner.call seq = _
      by_cases current : planner.call seq = requestToRetry planner.events
      · simp [current]
      · rw [if_neg current]
        refine iff_of_false ?_ current
        rcases running.scans seq with state | state | state <;> rw [state] <;> simp
    · rw [toRetry]
      exact running.caller
    · rw [request, running.finishing_carried, wall]
      simpa using running.unread
    · exact absurd isRetry (running.noRetry file listed waits)
    · have goesOn : outcome.goesOn failure = true := by
        obtain ⟨failed, atWall⟩ := Bool.and_eq_true_iff.mp wall
        rw [eq_of_beq failed]
        exact atWall
      simp [finishing, goesOn, wall]
  | false =>
    refine .idle ⟨fun seq => ?_, running.noRetry, fun finishedAt finished isLast => ?_, ?_⟩
    · rw [running.finishing_scan, wall]
      split
      · exact Or.inr rfl
      · rename_i other
        rcases running.scans seq with state | state | state
        · exact Or.inl state
        · exact Or.inr state
        · exact absurd ((running.current seq).mp state) other
    · rw [last] at isLast
      cases isLast
      rw [RunEvent.turnFinished_atWall]
      exact wall
    · cases goesOn : outcome.goesOn failure <;> simp [finishing, goesOn, wall]

end Finish

/-! ### Every order of the steps -/

theorem listed_step {planner after : Planner} (listed : planner.Listed)
    (nextTaken : planner.NextTaken) (next : PlannerStep planner after) :
    after.Listed ∧ after.NextTaken := by
  cases next with
  | send what prompt =>
    exact ⟨listed.send what prompt _, fun request ready =>
      (planner.directory.mem_write what prompt _).mpr (Or.inl (nextTaken request ready))⟩
  | retry prompt =>
    exact ⟨listed.send providerRetry prompt _, fun request ready =>
      (planner.directory.mem_write providerRetry prompt _).mpr (Or.inl (nextTaken request ready))⟩
  | record seq what => exact ⟨(quiet_record seq what).listed listed, nextTaken⟩
  | take afterWall file waiting isNext isFile =>
    refine ⟨listed.take file.request, fun request ready => ?_⟩
    cases ready
    exact (planner.directory.mem_rename _ _ _).mpr (Or.inl ⟨file, isFile, rfl, rfl⟩)
  | start request ready =>
    exact ⟨listed.start fun own same => nextTaken own (same ▸ ready),
      fun _ isRunning => (by cases isRunning)⟩
  | finish turn request outcome failure message =>
    refine ⟨listed.finish, fun _ ready => ?_⟩
    dsimp only at ready
    split at ready <;> cases ready
  | close => exact ⟨(quiet_close planner).listed listed, fun _ closed => (by cases closed)⟩
  | note event started finished =>
    have quiet : Quiet planner (planner.note event) :=
      quiet_note event started finished rfl rfl rfl fun _ => Or.inl
    exact ⟨quiet.listed listed, nextTaken⟩

theorem listed_reached {planner : Planner} (reached : planner.Reached) : planner.Listed :=
  (reached.invariant (fun planner => planner.Listed ∧ planner.NextTaken)
    ⟨⟨fun _ member => (by cases member)⟩, fun _ ready => (by cases ready)⟩
    fun _ _ _ invariant next => listed_step invariant.1 invariant.2 next).1

theorem invariant_step {planner after : Planner} (known : planner.Known) (placed : planner.Placed)
    (step : SettledStep planner after) : after.Known ∧ after.Placed := by
  obtain ⟨next, settled⟩ := step
  cases next with
  | send what prompt another =>
    have quiet := known.quiet_send what prompt another
    exact ⟨quiet.known known, quiet.placed placed (Or.inl rfl)⟩
  | retry prompt due =>
    obtain ⟨knownAfter, atWall⟩ :=
      (placed.atWall_of_due due (settled prompt _ rfl)).retry known due
    exact ⟨knownAfter, .atWall _ atWall⟩
  | record seq what written =>
    exact ⟨(quiet_record seq what).known known, (quiet_record seq what).placed placed (Or.inl rfl)⟩
  | take afterWall file waiting isNext listed =>
    exact ⟨known.take file.request, placed.take known waiting isNext listed⟩
  | start request ready => exact placed.start known ready
  | finish turn request outcome failure message isRunning =>
    have running : planner.Running turn := by
      cases placed with
      | idle idle =>
        have held := idle.wrapper
        rw [isRunning] at held
        exact held.elim
      | atWall retry atWall =>
        have held := atWall.wrapper
        rw [isRunning] at held
        exact held.elim
      | running other running =>
        obtain ⟨_, same⟩ := running.wrapper
        rw [isRunning] at same
        cases same
        exact running
    exact ⟨known.finish running, running.finish⟩
  | close between =>
    exact ⟨(quiet_close planner).known known,
      (quiet_close planner).placed placed (Or.inr ⟨rfl, between⟩)⟩
  | note event started finished =>
    have quiet : Quiet planner (planner.note event) :=
      quiet_note event started finished rfl rfl rfl fun _ => Or.inl
    exact ⟨quiet.known known, quiet.placed placed (Or.inl rfl)⟩

theorem invariant_reached {planner : Planner} (reached : planner.SettledReached) :
    planner.Known ∧ planner.Placed := by
  refine reached.invariant (fun planner => planner.Known ∧ planner.Placed) ⟨?_, ?_⟩
    fun _ _ _ invariant next => invariant_step invariant.1 invariant.2 next
  · refine ⟨⟨fun _ member => (by cases member)⟩, fun _ another => absurd rfl another,
      fun _ another => absurd rfl another, fun seq => ?_, fun _ member => (by cases member)⟩
    refine iff_of_false (by simp [scan, new]) ?_
    rintro ⟨_, member, _⟩
    cases member
  · exact .idle ⟨fun _ => Or.inl rfl, fun _ listed => (by cases listed),
      fun _ _ last => (by cases last), fun _ member => (by cases member)⟩

/-- Each step only adds to the events. -/
theorem events_step {planner after : Planner} (next : PlannerStep planner after) :
    ∃ more, after.events = planner.events ++ more := by
  cases next with
  | send | retry | take | close => exact ⟨[], (List.append_nil _).symm⟩
  | record | start | finish | note => exact ⟨_, rfl⟩

end Planner

/-- In any order of the supervisor's and the wrapper's steps that writes no retry before the others
are settled, a request is read exactly when a turn that carried its prompt, its own or a retry's,
ended otherwise than at the wall. In any order at all, once read it stays so, and the call a retry
makes again is never a retry. -/
theorem requestRead_reached (planner : Planner) (reached : planner.Reached) :
    (planner.SettledReached → ∀ seq,
      requestRead planner.events seq = true ↔ planner.Carried (planner.call seq)) ∧
    (∀ later seq, Relation.ReflTransGen PlannerStep planner later →
      requestRead planner.events seq = true → requestRead later.events seq = true) ∧
    (∀ seq, requestToRetry planner.events = some seq → ∃ file ∈ planner.directory.files,
      file.request.seq = seq ∧ file.request.what ≠ providerRetry) := by
  refine ⟨fun settled seq => ?_, fun later seq path read => ?_, fun seq named => ?_⟩
  · rw [requestRead_iff_scan]
    exact (Planner.invariant_reached settled).1.read seq
  · refine Lib.path_invariant path (fun planner => requestRead planner.events seq = true) read ?_
    intro first second isRead next
    obtain ⟨more, same⟩ := Planner.events_step next
    rw [same]
    exact requestRead_append isRead more
  · obtain ⟨started, found, request⟩ := Option.bind_eq_some_iff.mp named
    obtain ⟨member, isStarted, notRetry⟩ := turnToRetry_spec found
    obtain ⟨file, listed, isSeq, _, what⟩ :=
      (Planner.listed_reached reached).taken started member isStarted seq request
    refine ⟨file, listed, isSeq, fun isRetry => notRetry ?_⟩
    rw [what, isRetry]

/-! ### Runs -/

section Runs

variable {planner after : Planner}

theorem SettledStep.of_unsent (step : PlannerStep planner after)
    (same : after.unrecorded = planner.unrecorded) : SettledStep planner after := by
  refine ⟨step, fun prompt call sent => ?_⟩
  have longer := congrArg (fun planner : Planner => planner.unrecorded.length) sent
  simp [Planner.send, same] at longer

theorem SettledStep.of_recorded (step : PlannerStep planner after)
    (none : ∀ seq, (seq, providerRetry) ∉ planner.unrecorded) : SettledStep planner after :=
  ⟨step, fun _ _ _ seq written => absurd written (none seq)⟩

theorem Planner.SettledReached.reached (settled : planner.SettledReached) : planner.Reached :=
  settled.invariant Planner.Reached .start fun _ _ _ before step => before.step step.1

end Runs

/-- A planner whose answer met the wall and was made again. -/
theorem answered_reached : ∃ planner : Planner, planner.SettledReached ∧
    planner.call 1 = some 1 ∧ planner.Carried (some 1) := by
  have sent := Lib.Reachable.start.step (SettledStep.of_recorded
    (PlannerStep.send Planner.new "answer of ask 1" "yes" (by decide)) fun _ written =>
      (by cases written))
  have first := sent.step (.of_unsent (PlannerStep.start _ none rfl) rfl)
  have opened := first.step (.of_unsent (PlannerStep.finish _ 1 none .succeeded none none rfl) rfl)
  have taken := opened.step (.of_unsent (PlannerStep.take _ false
    ⟨.pending, 1, "answer of ask 1", "yes"⟩ rfl (by decide) (by decide)) rfl)
  have second := taken.step (.of_unsent (PlannerStep.start _ _ rfl) rfl)
  have walled := second.step (.of_unsent
    (PlannerStep.finish _ 2 _ .failed (some .usageLimit) none rfl) rfl)
  have waits := walled.step (.of_unsent
    (PlannerStep.note _ ⟨.providerWaiting, { turn := some 2 }⟩ rfl rfl) rfl)
  have retried := waits.step (.of_recorded (PlannerStep.retry _ "go on" (by decide))
    fun seq written => by
      have only : (seq, providerRetry) ∈ [(1, "answer of ask 1")] := written
      have same : providerRetry = "answer of ask 1" := congrArg Prod.snd (List.mem_singleton.mp only)
      exact absurd same (by decide))
  have again := retried.step (.of_unsent (PlannerStep.take _ true
    ⟨.pending, 2, providerRetry, "go on"⟩ rfl (by decide) (by decide)) rfl)
  have third := again.step (.of_unsent (PlannerStep.start _ _ rfl) rfl)
  have ended := third.step (.of_unsent (PlannerStep.finish _ 3 _ .succeeded none none rfl) rfl)
  refine ⟨_, ended, rfl, ?_⟩
  exact ⟨.turnStarted 3 (some 2) providerRetry, by decide, by decide, by decide,
    .turnFinished 3 .succeeded none none, by decide, by decide, by decide, by decide⟩

theorem requestRead_answered : ∃ planner : Planner, requestRead planner.events 1 = true := by
  obtain ⟨planner, settled, own, carried⟩ := answered_reached
  refine ⟨planner, ((requestRead_reached planner settled.reached).1 settled 1).mpr ?_⟩
  rw [own]
  exact carried

/-- A retry written again before the first is recorded: once the first was answered, the second
waits in front of what met the wall after it, and its end is taken for that one's. -/
theorem retry_written_twice : ∃ planner : Planner, planner.Reached ∧
    requestRead planner.events 2 = true ∧ ¬ planner.Carried (planner.call 2) := by
  have sent := Lib.Reachable.start.step
    (PlannerStep.send Planner.new "answer of ask 1" "yes" (by decide))
  have first := sent.step (PlannerStep.start _ none rfl)
  have opened := first.step (PlannerStep.finish _ 1 none .succeeded none none rfl)
  have taken := opened.step (PlannerStep.take _ false ⟨.pending, 1, "answer of ask 1", "yes"⟩ rfl
    (by decide) (by decide))
  have second := taken.step (PlannerStep.start _ _ rfl)
  have behind := second.step (PlannerStep.send _ "answer of ask 2" "no" (by decide))
  have walled := behind.step (PlannerStep.finish _ 2 _ .failed (some .usageLimit) none rfl)
  have waits := walled.step (PlannerStep.note _ ⟨.providerWaiting, { turn := some 2 }⟩ rfl rfl)
  have retried := waits.step (PlannerStep.retry _ "go on" (by decide))
  have twice := retried.step (PlannerStep.retry _ "go on" (by decide))
  have again := twice.step (PlannerStep.take _ true ⟨.pending, 3, providerRetry, "go on"⟩ rfl
    (by decide) (by decide))
  have third := again.step (PlannerStep.start _ _ rfl)
  have answered := third.step (PlannerStep.finish _ 3 _ .succeeded none none rfl)
  have next := answered.step (PlannerStep.take _ false ⟨.pending, 2, "answer of ask 2", "no"⟩ rfl
    (by decide) (by decide))
  have fourth := next.step (PlannerStep.start _ _ rfl)
  have walledAgain := fourth.step (PlannerStep.finish _ 4 _ .failed (some .usageLimit) none rfl)
  have stale := walledAgain.step (PlannerStep.take _ true ⟨.pending, 4, providerRetry, "go on"⟩ rfl
    (by decide) (by decide))
  have fifth := stale.step (PlannerStep.start _ _ rfl)
  have ended := fifth.step (PlannerStep.finish _ 5 _ .succeeded none none rfl)
  refine ⟨_, ended, by decide, ?_⟩
  unfold Planner.Carried
  decide

end Dagq.Turns
