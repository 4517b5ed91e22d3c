/-
This file proves what the looks at a wall do over a whole run: each turn is
answered once at most, waited for once at most, and the run moves between its
providers twice at most.
-/

import Dagq.Turns.WallInvariant

namespace Dagq.Turns

/-! ### A look at the wall -/

/-- What a look that found the turn at its wall found. -/
structure FoundAtWall (events : List RunEvent) (turn : WallTurn) : Prop where
  last : ∃ finishedAt finished, lastFinished events = some (finishedAt, finished) ∧
    turn.turn = finished.payload.turn.getD 0 ∧
    requestAnswering events finishedAt turn.request = none
  unswitched : switchOfTurn events turn.turn = none
  request : turn.request = (events.reverse.find? fun event =>
    event.isStarted && event.payload.turn == some turn.turn).bind fun event =>
      event.payload.request
  firstLook : turn.firstLook = !waitingOn events turn.turn
  holds : turn.holdsProvider = true → turn.firstLook = true
  maySwitch : turn.maySwitch = maySwitch events

theorem wallLook_atWall {events : List RunEvent} {failure : TurnFailure} {provider : Provider}
    {turn : WallTurn} (look : wallLook events failure provider = .atWall turn) :
    FoundAtWall events turn := by
  unfold wallLook at look
  split at look
  · cases look
  rename_i finishedAt finished last
  dsimp only at look
  split at look
  · cases look
  rename_i unswitched
  split at look
  · cases look
  rename_i unanswered
  split at look
  · cases look
  rename_i reason isReason
  cases look
  exact ⟨⟨finishedAt, finished, last, rfl, unanswered⟩, unswitched, rfl, rfl,
    fun held => (Bool.and_eq_true_iff.mp held).1, rfl⟩

/-- A turn is answered by the switch made in its place, or by a request past the one it took. -/
theorem wallLook_answered {events : List RunEvent} {failure : TurnFailure} {provider : Provider}
    {event : RunEvent} (look : wallLook events failure provider = .answered event) :
    ∃ finishedAt finished, lastFinished events = some (finishedAt, finished) ∧
      (switchOfTurn events (finished.payload.turn.getD 0) = some event ∨
        requestedPast event ((events.reverse.find? fun event =>
          event.isStarted && event.payload.turn == some (finished.payload.turn.getD 0)).bind
            fun event => event.payload.request) = true) := by
  unfold wallLook at look
  split at look
  · cases look
  rename_i finishedAt finished last
  refine ⟨finishedAt, finished, last, ?_⟩
  dsimp only at look
  split at look
  · rename_i switched found
    cases look
    exact Or.inl found
  split at look
  · rename_i requested found
    cases look
    have past := List.find?_some found
    exact Or.inr past
  split at look <;> cases look

theorem wallMove_switch {fallback maySwitch otherUsable firstLook ownHeld holdUnclosed : Bool}
    (move : wallMove fallback maySwitch otherUsable firstLook ownHeld holdUnclosed = .switch) :
    maySwitch = true := by
  revert move
  cases fallback <;> cases maySwitch <;> cases otherUsable <;> cases firstLook <;>
    cases ownHeld <;> cases holdUnclosed <;> decide

/-- On the first look the run moves or waits; it is not the first look that retries. -/
theorem wallMove_firstLook {fallback maySwitch otherUsable firstLook ownHeld holdUnclosed : Bool} :
    (firstLook = true →
      wallMove fallback maySwitch otherUsable firstLook ownHeld holdUnclosed = .switch ∨
      wallMove fallback maySwitch otherUsable firstLook ownHeld holdUnclosed = .wait true) ∧
    (wallMove fallback maySwitch otherUsable firstLook ownHeld holdUnclosed = .wait true →
      firstLook = true) := by
  cases fallback <;> cases maySwitch <;> cases otherUsable <;> cases firstLook <;>
    cases ownHeld <;> cases holdUnclosed <;> decide

namespace HeadlessRun

/-! ### A look -/

section Look

variable {run : HeadlessRun} {turn : WallTurn}

/-- A turn found at its wall is one no look answered. -/
theorem Kept.unanswered (kept : run.Kept) (numbered : run.Numbered) (settled : run.Settled)
    (found : FoundAtWall run.events turn) (last : run.lastTurn = some turn.turn) {look : Look}
    (member : look ∈ run.looks) (same : look.turn = turn.turn) : look.answers = false := by
  by_contra answers
  rw [Bool.not_eq_false] at answers
  rcases kept.answered look member answers with switched | ⟨later, isLater, above⟩ |
      ⟨seq, written, stands⟩
  · rw [same] at switched
    exact (switchOfTurn_ne_none_iff _ _).mpr switched found.unswitched
  · rw [last] at isLater
    cases isLater
    omega
  · rcases stands with ⟨finishedAt, finished, isLast, event, recorded, kind, named⟩ | waits
    · obtain ⟨otherAt, other, isOther, _, unanswered⟩ := found.last
      rw [isLast] at isOther
      cases isOther
      have own := List.find?_eq_none.mp unanswered event recorded
      refine own ?_
      unfold requestedPast
      rw [Bool.and_eq_true, Bool.not_eq_true', Option.any_eq_false]
      refine ⟨by simp [kind], fun taken isTaken => ?_⟩
      rw [found.request] at isTaken
      obtain ⟨started, isStart, request⟩ := Option.bind_eq_some_iff.mp isTaken
      have started_mem := List.mem_reverse.mp (List.mem_of_find?_eq_some isStart)
      have fits := List.find?_some isStart
      have matched := Bool.and_eq_true_iff.mp fits
      have below := kept.past look member seq written started started_mem matched.1 turn.turn
        (by simpa using matched.2) same.ge taken request
      simpa [named] using below
    · -- Its request is not recorded, so its turn ended: a later one than the last.
      obtain ⟨started, started_mem, isStarted, ⟨request, isRequest, above⟩, finished, ended,
        isFinished, sameTurn⟩ := settled seq waits
      obtain ⟨number, most, named, isMost, bound⟩ := numbered.finished finished ended isFinished
      rw [last] at isMost
      cases isMost
      have below := kept.past look member seq written started started_mem isStarted number
        (sameTurn.symm.trans named) (bound.trans same.ge) request isRequest
      omega

/-- A turn first looked at is one no look held the provider or waited for. -/
theorem Kept.unwaited (kept : run.Kept) (found : FoundAtWall run.events turn)
    (first : turn.firstLook = true) {look : Look} (member : look ∈ run.looks)
    (same : look.turn = turn.turn) : look.held = false ∧ look.waits = false := by
  have none : ¬ (look.held = true ∨ look.waits = true) := by
    intro left
    rcases kept.waited look member left with switched | waiting
    · rw [same] at switched
      exact (switchOfTurn_ne_none_iff _ _).mpr switched found.unswitched
    · rw [same] at waiting
      have waits := (waitingOn_iff _ _).mpr waiting
      rw [found.firstLook, waits] at first
      cases first
  simpa using none

/-- One more look keeps a count at one when no look before it counts. -/
theorem filter_append_le_one {looks : List Look} (look : Look) (counts : Look → Bool)
    (once : (looks.filter counts).length ≤ 1)
    (fresh : counts look = true → ∀ earlier ∈ looks, counts earlier = false) :
    ((looks ++ [look]).filter counts).length ≤ 1 := by
  rw [List.filter_append, List.length_append, List.filter_singleton]
  cases counted : counts look with
  | false => simpa using once
  | true =>
    have none : looks.filter counts = [] :=
      List.filter_eq_nil_iff.mpr fun earlier member => by simp [fresh counted earlier member]
    rw [none]
    exact le_rfl

/-- What one more look at a turn at its wall leaves. -/
theorem Kept.look {after : HeadlessRun} {more : List RunEvent} {look : Look} (kept : run.Kept)
    (numbered : run.Numbered) (settled : run.Settled) (found : FoundAtWall run.events turn)
    (last : run.lastTurn = some turn.turn)
    (ended : ∃ event ∈ run.events, event.isFinished = true ∧
      event.payload.turn = some turn.turn ∧ event.atWall = true)
    (quieter : Quieter run after more) (looks : after.looks = run.looks ++ [look])
    (isTurn : look.turn = turn.turn) (held : look.held = turn.holdsProvider)
    (request : ∀ seq, look.request = some seq → seq = nextSeq run.directory.names)
    (calls : look.answers = true → ∃ seq, look.request = some seq)
    (answered : look.answers = true → after.Answered look)
    (waits : look.waits = true → turn.firstLook = true)
    (left : turn.firstLook = true → after.Waited look)
    (switches : Turns.switches after.events ≤ maxProviderSwitches) : after.Kept := by
  have someFinished : lastFinished run.events ≠ none := by
    obtain ⟨event, member, isFinished, _⟩ := ended
    exact lastFinished_ne_none member isFinished
  have cases {other : Look} (member : other ∈ after.looks) : other ∈ run.looks ∨ other = look := by
    rw [looks] at member
    exact (List.mem_append.mp member).imp_right List.mem_singleton.mp
  have firstOf (left : look.held = true ∨ look.waits = true) : turn.firstLook = true := by
    rcases left with isHeld | isWait
    · exact found.holds (held ▸ isHeld)
    · exact waits isWait
  refine ⟨fun other member => ?_, fun other member seq written event started isStarted number named
    bound own isOwn => ?_, fun other member answers => ?_, fun other member answers => ?_,
    fun other member kept' => ?_, fun number => ?_, fun number => ?_, fun number => ?_, switches⟩
  · rcases cases member with before | rfl
    · obtain ⟨event, isEnd, rest⟩ := kept.ended other before
      exact ⟨event, quieter.kept isEnd, rest⟩
    · obtain ⟨event, isEnd, isFinished, named, wall⟩ := ended
      exact ⟨event, quieter.kept isEnd, isFinished, isTurn ▸ named, wall⟩
  · have before := quieter.mem_started started isStarted
    rcases cases member with earlier | rfl
    · exact kept.past other earlier seq written event before isStarted number named bound own isOwn
    · rw [request seq written]
      exact numbered.listed event before isStarted own isOwn
  · rcases cases member with before | rfl
    · exact kept.calls other before answers
    · exact calls answers
  · rcases cases member with before | rfl
    · exact quieter.answered someFinished (kept.answered other before answers)
    · exact answered answers
  · rcases cases member with before | rfl
    · exact quieter.waited (kept.waited other before kept')
    · exact left (firstOf kept')
  · rw [looks]
    refine filter_append_le_one look _ (kept.answersOnce number) fun counts other member => ?_
    obtain ⟨isNumber, _⟩ := Bool.and_eq_true_iff.mp counts
    by_cases same : other.turn = number
    · rw [kept.unanswered numbered settled found last member
        (same.trans ((eq_of_beq isNumber).symm.trans isTurn)), Bool.and_false]
    · simp [same]
  · rw [looks]
    refine filter_append_le_one look _ (kept.holdsOnce number) fun counts other member => ?_
    obtain ⟨isNumber, isHeld⟩ := Bool.and_eq_true_iff.mp counts
    by_cases same : other.turn = number
    · rw [(kept.unwaited found (firstOf (Or.inl isHeld)) member
        (same.trans ((eq_of_beq isNumber).symm.trans isTurn))).1, Bool.and_false]
    · simp [same]
  · rw [looks]
    refine filter_append_le_one look _ (kept.waitsOnce number) fun counts other member => ?_
    obtain ⟨isNumber, isWait⟩ := Bool.and_eq_true_iff.mp counts
    by_cases same : other.turn = number
    · rw [(kept.unwaited found (firstOf (Or.inr isWait)) member
        (same.trans ((eq_of_beq isNumber).symm.trans isTurn))).2, Bool.and_false]
    · simp [same]

/-- A look at a turn at its wall, whatever it decides. -/
theorem Kept.act (kept : run.Kept) (numbered : run.Numbered) (settled : run.Settled)
    (found : FoundAtWall run.events turn) (last : run.lastTurn = some turn.turn)
    (ended : ∃ event ∈ run.events, event.isFinished = true ∧
      event.payload.turn = some turn.turn ∧ event.atWall = true)
    (around : Surroundings) (prompt : String) :
    let after := run.act turn
      (turn.next around.fallback around.otherUsable around.ownHeld around.holdUnclosed) prompt
    after.Numbered ∧ after.Kept := by
  have first := (@wallMove_firstLook around.fallback turn.maySwitch around.otherUsable
    turn.firstLook around.ownHeld around.holdUnclosed)
  cases move : turn.next around.fallback around.otherUsable around.ownHeld around.holdUnclosed with
  | switch =>
    have may := wallMove_switch move
    have quieter : Quieter run (run.act turn .switch prompt)
        [⟨.providerSwitched, { turn := some turn.turn, message := some turn.message }⟩] :=
      ⟨rfl, fun event member => List.mem_singleton.mp member ▸ rfl,
        fun event member => List.mem_singleton.mp member ▸ rfl,
        fun seq waits => Or.inl (List.mem_append_left _ waits)⟩
    have switched : ∃ event ∈ (run.act turn .switch prompt).events,
        event.kind = .providerSwitched ∧ event.payload.turn = some turn.turn :=
      ⟨_, List.mem_append_right _ (List.mem_singleton.mpr rfl), rfl, rfl⟩
    refine ⟨quieter.numbered numbered rfl rfl (run.directory.nextSeq_write _ _), ?_⟩
    refine kept.look numbered settled found last ended quieter rfl rfl rfl
      (fun seq written => (Option.some.inj written).symm) (fun _ => ⟨_, rfl⟩)
      (fun _ => Or.inl switched) (fun waits => (by cases waits)) (fun _ => Or.inl switched) ?_
    show Turns.switches (run.events ++ [_]) ≤ _
    rw [found.maySwitch] at may
    rw [switches_append]
    exact Nat.succ_le_of_lt (of_decide_eq_true may)
  | retry =>
    have quieter : Quieter run (run.act turn .retry prompt) [] :=
      ⟨(List.append_nil _).symm, fun event member => (by cases member),
        fun event member => (by cases member),
        fun seq waits => Or.inl (List.mem_append_left _ waits)⟩
    refine ⟨quieter.numbered numbered rfl rfl (run.directory.nextSeq_write _ _), ?_⟩
    refine kept.look numbered settled found last ended quieter rfl rfl rfl
      (fun seq written => (Option.some.inj written).symm) (fun _ => ⟨_, rfl⟩)
      (fun _ => Or.inr (Or.inr ⟨_, rfl, Or.inr (List.mem_append_right _ (List.mem_singleton.mpr rfl))⟩))
      (fun waits => (by cases waits)) (fun isFirst => ?_) kept.switches
    have later := first.1 isFirst
    rw [show wallMove _ _ _ _ _ _ = .retry from move] at later
    rcases later with absent | absent <;> cases absent
  | wait record =>
    have recorded : record = true → turn.firstLook = true := fun isRecord => first.2 (isRecord ▸ move)
    cases record with
    | true =>
      have quieter : Quieter run (run.act turn (.wait true) prompt)
          [⟨.providerWaiting, { turn := some turn.turn }⟩] :=
        ⟨rfl, fun event member => List.mem_singleton.mp member ▸ rfl,
          fun event member => List.mem_singleton.mp member ▸ rfl, fun seq waits => Or.inl waits⟩
      refine ⟨quieter.numbered numbered rfl rfl le_rfl, ?_⟩
      refine kept.look numbered settled found last ended quieter rfl rfl rfl
        (fun seq none => (by cases none)) (fun answers => (by cases answers))
        (fun answers => (by cases answers)) (fun _ => recorded rfl)
        (fun _ => Or.inr ⟨_, List.mem_append_right _ (List.mem_singleton.mpr rfl), rfl, rfl⟩) ?_
      show Turns.switches (run.events ++ [_]) ≤ _
      rw [switches_append]
      exact kept.switches
    | false =>
      have quieter : Quieter run (run.act turn (.wait false) prompt) [] :=
        ⟨(List.append_nil _).symm, fun event member => (by cases member),
          fun event member => (by cases member), fun seq waits => Or.inl waits⟩
      refine ⟨quieter.numbered numbered rfl rfl le_rfl, ?_⟩
      refine kept.look numbered settled found last ended quieter rfl rfl rfl
        (fun seq none => (by cases none)) (fun answers => (by cases answers))
        (fun answers => (by cases answers)) (fun waits => (by cases waits)) (fun isFirst => ?_)
        kept.switches
      have later := first.1 isFirst
      rw [show wallMove _ _ _ _ _ _ = .wait false from move] at later
      rcases later with absent | absent <;> cases absent

end Look

/-! ### Every order of the steps -/

theorem invariant_step {run after : HeadlessRun} (numbered : run.Numbered) (kept : run.Kept)
    (next : RunStep run after) : after.Numbered ∧ after.Kept := by
  cases next with
  | write what prompt =>
    have quieter : Quieter run { run with directory := run.directory.write what prompt } [] :=
      ⟨(List.append_nil _).symm, fun event member => (by cases member),
        fun event member => (by cases member), fun seq waits => Or.inl waits⟩
    exact ⟨quieter.numbered numbered rfl rfl (run.directory.nextSeq_write _ _),
      quieter.keeps kept rfl fun event member => (by cases member)⟩
  | record file listed =>
    have quieter : Quieter run { run.note (.turnRequested file.request.seq file.request.what) with
        unrecorded := run.unrecorded.erase file.request.seq }
        [.turnRequested file.request.seq file.request.what] := by
      refine ⟨rfl, fun event member => List.mem_singleton.mp member ▸ rfl,
        fun event member => List.mem_singleton.mp member ▸ rfl, fun seq waits => ?_⟩
      by_cases same : seq = file.request.seq
      · exact Or.inr ⟨_, List.mem_singleton.mpr rfl, rfl, congrArg some same.symm⟩
      · exact Or.inl ((List.mem_erase_of_ne same).mpr waits)
    refine ⟨quieter.numbered numbered rfl rfl le_rfl, quieter.keeps kept rfl fun event member => ?_⟩
    rw [List.mem_singleton.mp member]
    exact fun same => EventKind.noConfusion same
  | start file idle listed =>
    exact ⟨numbered.start fun own isOwn => (listed own isOwn).1, kept.start numbered⟩
  | finish mark message running =>
    exact ⟨numbered.finish running, kept.finish numbered running⟩
  | look mark failure found prompt idle failed atWall settled =>
    unfold HeadlessRun.look
    split
    · exact ⟨numbered, kept⟩
    · exact ⟨numbered, kept⟩
    · exact ⟨numbered, kept⟩
    · rename_i turn isLook
      have isFound := wallLook_atWall isLook
      obtain ⟨finishedAt, finished, isLast, named, wall⟩ := numbered.mark mark idle
      obtain ⟨otherAt, other, isOther, isTurn, _⟩ := isFound.last
      rw [isLast] at isOther
      cases isOther
      have same : finished.payload.turn = some turn.turn := by
        rw [isTurn, named]
        rfl
      have last : run.lastTurn = some turn.turn := by
        unfold lastTurn
        rw [isLast]
        exact same
      have place := lastFinished_spec isLast
      have atTheWall : finished.atWall = true := by
        rw [wall, failed, atWall.1]
        exact atWall.2
      exact kept.act numbered settled isFound last
        ⟨finished, place.2.1, place.2.2, same, atTheWall⟩ found prompt
  | note event unrelated unturned =>
    have quieter : Quieter run (run.note event) [event] := by
      refine ⟨rfl, fun other member => ?_, fun other member => ?_, fun seq waits => Or.inl waits⟩
      · rw [List.mem_singleton.mp member]
        simpa [RunEvent.isStarted] using unrelated.1
      · rw [List.mem_singleton.mp member]
        simpa [RunEvent.isFinished] using unrelated.2.1
    refine ⟨quieter.numbered numbered rfl rfl le_rfl, quieter.keeps kept rfl fun other member => ?_⟩
    rw [List.mem_singleton.mp member]
    exact unrelated.2.2.2

theorem invariant_reached {run : HeadlessRun} (reached : run.Reached) :
    run.Numbered ∧ run.Kept := by
  obtain ⟨provider, moved, reached⟩ := reached
  refine reached.invariant (fun run => run.Numbered ∧ run.Kept) ⟨?_, ?_⟩
    fun _ _ _ invariant next => invariant_step invariant.1 invariant.2 next
  · have unstarted : ∀ event ∈ (claimed provider moved).events,
        event.isStarted = false ∧ event.isFinished = false := by
      cases moved <;> simp [claimed, RunEvent.isStarted, RunEvent.isFinished]
    have none : lastFinished (claimed provider moved).events = none := by cases moved <;> rfl
    have noTurn : (claimed provider moved).lastTurn = Option.none := by
      unfold lastTurn
      rw [none]
      rfl
    refine ⟨fun event member isStarted => ?_, fun event member isStarted => ?_,
      fun event member isFinished => ?_, fun last isLast => ?_, fun _ running => (by cases running),
      fun _ mark => (by cases mark), fun event member isStarted => ?_⟩
    · rw [(unstarted event member).1] at isStarted
      cases isStarted
    · rw [(unstarted event member).1] at isStarted
      cases isStarted
    · rw [(unstarted event member).2] at isFinished
      cases isFinished
    · rw [noTurn] at isLast
      cases isLast
    · rw [(unstarted event member).1] at isStarted
      cases isStarted
  · refine ⟨fun _ member => (by cases member), fun _ member => (by cases member),
      fun _ member => (by cases member), fun _ member => (by cases member),
      fun _ member => (by cases member), fun _ => Nat.zero_le 1, fun _ => Nat.zero_le 1,
      fun _ => Nat.zero_le 1, ?_⟩
    cases moved
    · exact Nat.zero_le _
    · exact Nat.le_succ 1

end HeadlessRun

/-- In any order of the steps: each turn is answered by one look at most, at a turn that ended at
the wall, and by a request past the one it took; its provider is held and its wait recorded by one
look at most; the run switches twice at most; and a turn is found answered only by a switch or by a
request past the one it took itself. -/
theorem wallLook_reached (run : HeadlessRun) (reached : run.Reached) :
    (∀ turn, (run.looks.filter fun look => look.turn == turn && look.answers).length ≤ 1) ∧
    (∀ look ∈ run.looks, (∃ event ∈ run.events, event.isFinished = true ∧
        event.payload.turn = some look.turn ∧ event.atWall = true) ∧
      (look.answers = true → ∃ seq, look.request = some seq ∧ ∀ started ∈ run.events,
        started.isStarted = true → started.payload.turn = some look.turn →
          ∀ taken, started.payload.request = some taken → taken < seq)) ∧
    (∀ turn, (run.looks.filter fun look => look.turn == turn && look.waits).length ≤ 1) ∧
    (∀ turn, (run.looks.filter fun look => look.turn == turn && look.held).length ≤ 1) ∧
    switches run.events ≤ maxProviderSwitches ∧
    (∀ failure provider event, wallLook run.events failure provider = .answered event →
      event.kind = .providerSwitched ∨ (event.kind = .turnRequested ∧
        ∀ seq, event.payload.seq = some seq → ∀ started ∈ run.events, started.isStarted = true →
          started.payload.turn = run.lastTurn →
            ∀ taken, started.payload.request = some taken → taken < seq)) := by
  obtain ⟨numbered, kept⟩ := HeadlessRun.invariant_reached reached
  refine ⟨kept.answersOnce, fun look member => ⟨kept.ended look member, fun answers => ?_⟩,
    kept.waitsOnce, kept.holdsOnce, kept.switches, fun failure provider event isAnswered => ?_⟩
  · obtain ⟨seq, written⟩ := kept.calls look member answers
    exact ⟨seq, written, fun started inside isStarted named =>
      kept.past look member seq written started inside isStarted look.turn named le_rfl⟩
  · obtain ⟨finishedAt, finished, last, switched | past⟩ := wallLook_answered isAnswered
    · have isSwitch := List.find?_some switched
      exact Or.inl (by simpa using (Bool.and_eq_true_iff.mp isSwitch).1)
    · obtain ⟨isRequest, notOwn⟩ := Bool.and_eq_true_iff.mp past
      refine Or.inr ⟨by simpa using isRequest, fun seq named started inside isStarted isTurn taken
        isTaken => ?_⟩
      obtain ⟨place, ended, isFinished⟩ := lastFinished_spec last
      obtain ⟨turn, _, isNumber, _⟩ := numbered.finished finished ended isFinished
      have sameTurn : started.payload.turn = some turn := by
        rw [isTurn]
        unfold HeadlessRun.lastTurn
        rw [last]
        exact isNumber
      have number : finished.payload.turn.getD 0 = turn := by rw [isNumber]; rfl
      rw [number] at notOwn
      have found : run.events.reverse.find? (fun event =>
          event.isStarted && event.payload.turn == some turn) = some started := by
        cases search : run.events.reverse.find? (fun event =>
            event.isStarted && event.payload.turn == some turn) with
        | none =>
          have absent := List.find?_eq_none.mp search started (List.mem_reverse.mpr inside)
          simp [isStarted, sameTurn] at absent
        | some other =>
          have fits := List.find?_some search
          obtain ⟨otherStarted, otherTurn⟩ := Bool.and_eq_true_iff.mp fits
          have member := List.mem_reverse.mp (List.mem_of_find?_eq_some search)
          rw [numbered.unique other member otherStarted started inside isStarted
            ((eq_of_beq otherTurn).trans sameTurn.symm)]
      rw [found] at notOwn
      simpa [isTaken, named] using notOwn

/-- A run whose first turn met the wall, and which a look moved to the other provider. -/
theorem wallLook_moved : ∃ run : HeadlessRun, run.Reached ∧
    (run.looks.filter fun look => look.turn == 1 && look.answers).length ≤ 1 ∧
    run.looks = [⟨1, false, .switch, some 1⟩] := by
  have first := Lib.Reachable.start.step
    (RunStep.start (HeadlessRun.claimed .claude false) none rfl fun _ own => (by cases own))
  have walled := first.step
    (RunStep.finish _ ⟨1, .failed, some .usageLimit, 0⟩ (some "limit") rfl)
  have looked := walled.step (RunStep.look _ ⟨1, .failed, some .usageLimit, 0⟩ .usageLimit
    ⟨true, true, true, false⟩ "go on" rfl rfl ⟨rfl, rfl⟩ fun _ member => (by cases member))
  have reached : HeadlessRun.Reached _ := ⟨.claude, false, looked⟩
  exact ⟨_, reached, (wallLook_reached _ reached).1 1, by decide⟩

end Dagq.Turns
