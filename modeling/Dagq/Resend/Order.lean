/-
This file proves when records are taken in their turn: a record whose call began
after another was answered to be kept is taken only once the other is done. A call
that sends its own record found that no kept record waits, and a pass sends what it
read oldest first. Both rest on why the records wait being said for as long as one
does, which a pass that ends while another thread keeps a record breaks.
-/

import Dagq.Resend.Kept

namespace Dagq.Resend

open Dagq.Ledger Dagq.Lib

/-! ### What is before what -/

/-- A call began after another was answered that its record is kept. -/
def Before (first second : Nat) (log : List Event) : Prop :=
  ∃ earlier later, log = earlier ++ .answeredKept first :: later ∧ .began second ∈ later

/-- A record is taken only once those kept before its call began are done. -/
def InTurn (log : List Event) : Prop :=
  ∀ earlier call later, log = earlier ++ .taken call :: later →
    ∀ first, Before first call earlier → Done earlier first

/-- No record kept before this call began is left to be sent. -/
def Ahead (log : List Event) (call : Nat) : Prop :=
  ∀ first, Before first call log → Done log first

/-- Each record in a list comes after those kept before its call began. -/
def InOrder (log : List Event) (list : List Record) : Prop :=
  ∀ earlier record later, list = earlier ++ record :: later →
    ∀ first, Before first record.call log →
      Done log first ∨ ∃ other ∈ earlier, other.call = first

theorem Before.answered {first second : Nat} {log : List Event} (before : Before first second log) :
    .answeredKept first ∈ log := by
  obtain ⟨earlier, later, rfl, _⟩ := before
  exact List.mem_append_right _ List.mem_cons_self

theorem Before.of_append {first second : Nat} {log events : List Event}
    (before : Before first second (log ++ events)) (notBegun : .began second ∉ events) :
    Before first second log := by
  obtain ⟨earlier, later, isLog, began⟩ := before
  rcases split_either isLog with ⟨middle, rfl, rfl⟩ | ⟨middle, rfl⟩
  · rcases List.mem_append.mp began with inside | outside
    · exact ⟨earlier, middle, rfl, inside⟩
    · exact absurd outside notBegun
  · exact absurd (List.mem_append_right _ (List.mem_cons_of_mem _ began)) notBegun

/-- No later step puts another record before one whose call began. -/
theorem Change.before {touched : Option Record} {world after : World}
    (change : Change touched world after) {record : Record} (begun : Begun world record)
    {first : Nat} (before : Before first record.call after.log) :
    Before first record.call world.log := by
  obtain ⟨events, isLog, logged⟩ := change.log
  rw [isLog] at before
  refine before.of_append fun began => ?_
  generalize isEvent : Event.began record.call = event at began
  cases logged event began with
  | began => exact begun.lt.ne (Event.began.inj isEvent)
  | own other event isTouched isOwn later =>
    subst isEvent
    exact later (congrArg Event.began isOwn)
  | handled other event stored isOf isEnd =>
    subst isEvent
    cases isEnd

theorem Change.inOrder {touched : Option Record} {world after : World}
    (change : Change touched world after) {list : List Record}
    (begun : ∀ record ∈ list, Begun world record) (inOrder : InOrder world.log list) :
    InOrder after.log list := by
  intro earlier record later isList first before
  have member : record ∈ list := isList ▸ List.mem_append_right _ List.mem_cons_self
  exact (inOrder earlier record later isList first (change.before (begun record member) before)).imp
    change.done id

theorem Change.ahead {touched : Option Record} {world after : World}
    (change : Change touched world after) {record : Record} (begun : Begun world record)
    (ahead : Ahead world.log record.call) : Ahead after.log record.call :=
  fun first before => change.done (ahead first (change.before begun before))

/-! ### Lists in order -/

theorem InOrder.ahead {log : List Event} {record : Record} {rest : List Record}
    (inOrder : InOrder log (record :: rest)) : Ahead log record.call := by
  intro first before
  rcases inOrder [] record rest rfl first before with done | ⟨other, member, _⟩
  · exact done
  · cases member

theorem InOrder.tail {log : List Event} {record : Record} {rest : List Record}
    (inOrder : InOrder log (record :: rest)) (done : Done log record.call) : InOrder log rest := by
  intro earlier other later isRest first before
  rcases inOrder (record :: earlier) other later (congrArg (record :: ·) isRest) first before with
    isDone | ⟨before, member, isFirst⟩
  · exact Or.inl isDone
  · rcases List.mem_cons.mp member with rfl | inside
    · exact Or.inl (isFirst ▸ done)
    · exact Or.inr ⟨before, inside, isFirst⟩

/-- A record done may leave the list. -/
theorem InOrder.filter {log : List Event} {list : List Record} {record : Record}
    (inOrder : InOrder log list) (done : Done log record.call) :
    InOrder log (list.filter fun other => other.call != record.call) := by
  intro earlier other later isFilter first before
  obtain ⟨start, tail, isList, isEarlier, isTail⟩ := List.filter_eq_append_iff.mp isFilter
  obtain ⟨gone, more, isMore, areGone, _, _⟩ := List.filter_eq_cons_iff.mp isTail
  rw [isMore, ← List.append_assoc] at isList
  rcases inOrder (start ++ gone) other more isList first before with
    isDone | ⟨mine, member, isFirst⟩
  · exact Or.inl isDone
  · by_cases same : mine.call = record.call
    · exact Or.inl (isFirst ▸ same ▸ done)
    · have stays : (mine.call != record.call) = true := bne_iff_ne.mpr same
      rcases List.mem_append.mp member with inside | outside
      · exact Or.inr ⟨mine, isEarlier ▸ List.mem_filter.mpr ⟨inside, stays⟩, isFirst⟩
      · exact absurd stays (areGone mine outside)

/-- A record kept last is after all that are kept and not done. -/
theorem InOrder.concat {log : List Event} {list : List Record} {record : Record}
    (inOrder : InOrder log list)
    (answered : ∀ first, .answeredKept first ∈ log →
      Done log first ∨ ∃ other ∈ list, other.call = first) :
    InOrder log (list ++ [record]) := by
  intro earlier other later isList first before
  rcases split_concat isList with ⟨_, _, rfl⟩ | ⟨middle, _, rfl⟩
  · exact answered first before.answered
  · exact inOrder earlier other middle rfl first before

/-! ### Taken in their turn -/

theorem InTurn.concat {log : List Event} {event : Event} (inTurn : InTurn log)
    (ahead : ∀ call, event = .taken call → Ahead log call) : InTurn (log ++ [event]) := by
  intro earlier call later isLog first before
  rcases split_concat isLog with ⟨isTaken, _, rfl⟩ | ⟨middle, _, rfl⟩
  · exact ahead call isTaken.symm first before
  · exact inTurn earlier call middle rfl first before

theorem InTurn.send {world : World} (inTurn : InTurn world.log) {record : Record}
    (ahead : Ahead world.log record.call) (answer : Answer) :
    InTurn (world.send record answer).log := by
  rcases handled_send world record answer with handled | ⟨isSame, _⟩
  · obtain ⟨event, isLog, isOf, _⟩ := handled.log
    rw [isLog]
    refine inTurn.concat fun call isTaken => ?_
    subst isTaken
    rw [show call = record.call from isOf]
    exact ahead
  · rw [isSame]
    exact inTurn

/-- What a thread's sendings rely on. -/
def Ready (log : List Event) : Thread → Prop
  | .passing _ rest | .lettingGo _ _ rest => InOrder log rest
  | .sending record _ => Ahead log record.call
  | _ => True

theorem Change.ready {touched : Option Record} {world after : World}
    (change : Change touched world after) {thread : Thread} (fits : Fits world thread)
    (ready : Ready world.log thread) : Ready after.log thread := by
  cases thread with
  | passing job rest =>
    exact change.inOrder (fun record member => (fits.2 record member).begun) ready
  | lettingGo job record rest =>
    exact change.inOrder (fun other member => (fits.2.2 other member).begun) ready
  | sending record keeps => exact change.ahead fits.1.begun ready
  | _ => trivial

/-- A thread that steps takes records in their turn. -/
theorem Move.inTurn {orderly : Bool} {setting : Nat → Prop} {world after : World}
    {thread next : Thread} (move : Move orderly setting world thread after next)
    (ready : Ready world.log thread) (inTurn : InTurn world.log) : InTurn after.log := by
  cases move with
  | send job record rest answer => exact inTurn.send (InOrder.ahead ready) answer
  | sendOwn record keeps answer => exact inTurn.send ready answer
  | beginCall | beginNow | keepBehind | keep | answer => exact inTurn.concat (fun _ => nofun)
  | _ => exact inTurn

/-- The store is in order after a step. -/
theorem Change.keptInOrder {touched : Option Record} {world after : World}
    (change : Change touched world after) (ok : WorldOk world)
    (inOrder : InOrder world.log world.kept) : InOrder after.log after.kept := by
  have still : InOrder after.log world.kept :=
    change.inOrder (fun record member => (ok.stored record member).begun) inOrder
  have afterOk := change.worldOk ok
  cases change with
  | begins | still | answers => exact still
  | sends record after stored handled | sendsOwn record after isTouched unsent handled =>
    rw [handled.kept]
    exact still
  | letsGo record done => exact still.filter done
  | holds record isTouched unkept =>
    refine still.concat fun first answered => ?_
    rcases List.mem_append.mp answered with earlier | now
    · exact (ok.kept first earlier).imp (fun done => done.append _) id
    · cases List.mem_singleton.mp now

/-- Why the records wait is said after an orderly step, or the stepping thread is to say it, or
still another. -/
theorem Move.behind {setting : Nat → Prop} {world after : World} {thread next : Thread}
    (move : Move true setting world thread after next) (fits : Fits world thread)
    (behind : ∀ record ∈ world.kept,
      Done world.log record.call ∨ world.behind.isSome = true ∨ setting record.call) :
    ∀ record ∈ after.kept, Done after.log record.call ∨ after.behind.isSome = true ∨
      (∃ mine why, next = .setting mine why ∧ mine.call = record.call) ∨
      (setting record.call ∧ ∀ mine why, thread ≠ .setting mine why) := by
  have change := move.change fits
  -- for a record kept before, where the step says nothing new of why they wait
  have still : (∀ mine why, thread ≠ .setting mine why) → after.behind = world.behind →
      ∀ record ∈ world.kept, Done after.log record.call ∨ after.behind.isSome = true ∨
        (∃ mine why, next = .setting mine why ∧ mine.call = record.call) ∨
        (setting record.call ∧ ∀ mine why, thread ≠ .setting mine why) := by
    intro notSetting sameBehind record member
    rcases behind record member with done | waits | sets
    · exact Or.inl (change.done done)
    · exact Or.inr (Or.inl (sameBehind ▸ waits))
    · exact Or.inr (Or.inr (Or.inr ⟨sets, notSetting⟩))
  intro record member
  cases move with
  | fail | set => exact Or.inr (Or.inl rfl)
  | clear job settled =>
    rcases settled rfl record member with done | sets
    · exact Or.inl done
    · exact Or.inr (Or.inr (Or.inr ⟨sets, nofun⟩))
  | keepBehind mine waits => exact Or.inr (Or.inl (waits rfl))
  | keep mine why =>
    rcases List.mem_append.mp member with earlier | now
    · exact still nofun rfl record earlier
    · rw [List.mem_singleton.mp now]
      exact Or.inr (Or.inr (Or.inl ⟨mine, why, rfl, rfl⟩))
  | letGo job gone rest => exact still nofun rfl record (List.mem_of_mem_filter member)
  | send job sent rest answer | sendOwn sent keeps answer =>
    rcases handled_send world sent answer with handled | ⟨isSame, _⟩
    · rw [handled.kept] at member
      exact still nofun handled.behind record member
    · rw [isSame] at member
      exact still nofun (by rw [isSame]) record member
  | _ => exact still nofun rfl record member

/-! ### Every orderly interleaving -/

structure Ordered (caller : Caller) : Prop where
  behind : ∀ record ∈ caller.world.kept, Done caller.world.log record.call ∨
    caller.world.behind.isSome = true ∨ caller.Setting record.call
  kept : InOrder caller.world.log caller.world.kept
  threads : ∀ thread, Ready caller.world.log (caller.threads thread)
  inTurn : InTurn caller.world.log

/-- Where none is said to wait, a call that is about to be sent is ahead of none. -/
theorem Ordered.ahead {caller : Caller} (ordered : Ordered caller) (sound : Sound caller)
    (isClear : caller.world.behind = none) (call : Nat) : Ahead caller.world.log call := by
  intro first before
  rcases sound.world.kept first before.answered with done | ⟨record, member, rfl⟩
  · exact done
  · rcases ordered.behind record member with done | waits | ⟨thread, mine, why, isSetting, isOf⟩
    · exact done
    · rw [isClear] at waits
      cases waits
    · -- a thread that is still to say why its record waits has not answered its call
      have held : Fits caller.world (.setting mine why) := isSetting ▸ sound.threads thread
      exact absurd (isOf.symm ▸ before.answered) (Held.unanswered held)

/-- A thread's own step leaves it ready for its next sending. -/
theorem Move.ready {orderly : Bool} {setting : Nat → Prop} {world after : World}
    {thread next : Thread} (move : Move orderly setting world thread after next)
    (fits : Fits world thread) (ready : Ready world.log thread)
    (inOrder : InOrder world.log world.kept)
    (ahead : world.behind = none → ∀ call, Ahead world.log call) : Ready after.log next := by
  have change := move.change fits
  cases move with
  | read => exact inOrder
  | letGo => exact ready
  | skip job record rest isOther =>
    exact nomatch isOther.symm.trans (fits.2 record List.mem_cons_self).keepable.1
  | send job record rest answer =>
    unfold afterSend
    cases notTaken : answer.notTaken with
    | some why => trivial
    | none =>
      have stillInOrder := change.inOrder (fun other member => (fits.2 other member).begun) ready
      refine stillInOrder.tail ?_
      rcases handled_send world record answer with handled | ⟨_, isUntaken⟩
      · exact handled.done
      · rw [notTaken] at isUntaken
        cases isUntaken
  | decideClear job isClear =>
    cases job with
    | held => trivial
    | call record | now record => exact ahead isClear record.call
  | decideWaits job => cases job <;> trivial
  | unlock job => cases job <;> trivial
  | sendOwn record keeps answer =>
    unfold afterOwn
    cases answer.notTaken with
    | none => trivial
    | some why => cases keeps <;> trivial
  | _ => trivial

theorem ordered_start : Ordered Caller.start where
  behind _ member := nomatch member
  kept earlier record later isList := by
    have nonempty : earlier ++ record :: later ≠ [] := by simp
    exact absurd isList.symm nonempty
  threads _ := trivial
  inTurn earlier call later isLog := by
    have nonempty : earlier ++ Event.taken call :: later ≠ [] := by simp
    exact absurd isLog.symm nonempty

theorem CallerStep.ordered {before after : Caller} (step : CallerStep true before after)
    (sound : Sound before) (ordered : Ordered before) : Ordered after := by
  cases step with
  | thread mover world next move =>
    have fits := sound.threads mover
    have change := move.change fits
    have ready : Ready world.log next := move.ready fits (ordered.threads mover) ordered.kept
      fun isClear call => ordered.ahead sound isClear call
    refine ⟨fun record member => ?_, change.keptInOrder sound.world ordered.kept,
      fun other => ?_, move.inTurn (ordered.threads mover) ordered.inTurn⟩
    · rcases move.behind fits ordered.behind record member with
        done | waits | ⟨mine, why, isNext, isOf⟩ | ⟨⟨other, mine, why, isSetting, isOf⟩, notMover⟩
      · exact Or.inl done
      · exact Or.inr (Or.inl waits)
      · refine Or.inr (Or.inr ⟨mover, mine, why, ?_, isOf⟩)
        show Function.update before.threads mover next mover = _
        rw [Function.update_self, isNext]
      · refine Or.inr (Or.inr ⟨other, mine, why, ?_, isOf⟩)
        have isOther : other ≠ mover := fun same => notMover mine why (same ▸ isSetting)
        show Function.update before.threads mover next other = _
        rw [Function.update_of_ne isOther, isSetting]
    · show Ready world.log (Function.update before.threads mover next other)
      by_cases isMover : other = mover
      · subst isMover
        rw [Function.update_self]
        exact ready
      · rw [Function.update_of_ne isMover]
        exact change.ready (sound.threads other) (ordered.threads other)

theorem ordered_of_reachable {caller : Caller}
    (reached : Reachable Caller.start (CallerStep true) caller) : Ordered caller :=
  reached.invariant Ordered ordered_start fun _ _ before ordered step =>
    step.ordered (sound_of_reachable before) ordered

/-! ### Kept, once and in turn -/

/-- A record kept stays in the store, as it was sent, until a sending of it was taken or
refused. -/
def KeptUntilDone (world : World) : Prop :=
  ∀ call, .answeredKept call ∈ world.log →
    Done world.log call ∨ ∃ record ∈ world.kept, record.call = call ∧ Begun world record

def TakenOnce (log : List Event) : Prop :=
  ∀ call, log.count (.taken call) ≤ 1

/-- However the threads' steps are taken, a record whose call was answered to be kept stays in the
store until it is done, and none is taken twice; and where each pass ends in order, records are
taken in their turn. -/
theorem kept_until_done {orderly : Bool} {caller : Caller}
    (reached : Reachable Caller.start (CallerStep orderly) caller) :
    KeptUntilDone caller.world ∧ TakenOnce caller.world.log ∧
      (orderly = true → InTurn caller.world.log) := by
  have sound := sound_of_reachable reached
  refine ⟨fun call answered => ?_, sound.world.once, ?_⟩
  · rcases sound.world.kept call answered with done | ⟨record, member, isOf⟩
    · exact Or.inl done
    · exact Or.inr ⟨record, member, isOf, (sound.world.stored record member).begun⟩
  · rintro rfl
    exact (ordered_of_reachable reached).inTurn

/-- A call whose record was kept. -/
def finding : Value := .object [("op", .text "record_finding"), ("args", .list [])]

/-- A later record goes after the one kept before it, which its call sends first. -/
theorem kept_until_done_behind_busy : ∃ caller : Caller,
    caller.world.log = [.began 0, .stored 0, .answeredKept 0, .began 1, .taken 0, .taken 1] ∧
      KeptUntilDone caller.world ∧ TakenOnce caller.world.log ∧ InTurn caller.world.log := by
  have isRecord : resent .supervisor finding = true := by decide
  have step : ∀ {caller : Caller} {world : World} {next : Thread},
      Reachable Caller.start (CallerStep true) caller →
      Move true caller.Setting caller.world (caller.threads 0) world next →
      Reachable Caller.start (CallerStep true) ⟨world, Function.update caller.threads 0 next⟩ :=
    fun reached move => reached.step (.thread _ 0 _ _ move)
  have sent := step (step (step (step .start (.beginCall _ finding "r0" isRecord))
    (.askClear _ _ rfl)) (.decideClear _ _ rfl)) (.sendOwn _ _ _ .busy)
  have kept := step (step (step sent (.keep _ _ _)) (.set _ _ _)) (.answer _ _)
  have passing := step (step (step (step kept (.beginCall _ finding "r1" isRecord))
    (.askWaits _ _ rfl)) (.lock _ _ rfl)) (.read _ _)
  have passed := step (step (step passing (.send _ _ _ _ .ok rfl)) (.letGo _ _ _ _))
    (.clear _ _ fun _ _ => nofun)
  have reached := step (step (step passed (.unlock _ _)) (.decideClear _ _ rfl))
    (.sendOwn _ _ _ .ok)
  obtain ⟨keeps, once, inTurn⟩ := kept_until_done reached
  exact ⟨_, rfl, keeps, once, inTurn rfl⟩

/-- A pass that read an empty store says that none waits, after a record was kept meanwhile. -/
theorem taken_out_of_turn : ∃ caller : Caller,
    Reachable Caller.start (CallerStep false) caller ∧ ¬ InTurn caller.world.log := by
  have isRecord : resent .supervisor finding = true := by decide
  have step : ∀ {caller : Caller} {world : World} {next : Thread} (thread : Nat),
      Reachable Caller.start (CallerStep false) caller →
      Move false caller.Setting caller.world (caller.threads thread) world next →
      Reachable Caller.start (CallerStep false)
        ⟨world, Function.update caller.threads thread next⟩ :=
    fun thread reached move => reached.step (.thread _ thread _ _ move)
  have passing := step 1 (step 1 (step 1 .start (.beginHeld _)) (.lock _ _ rfl)) (.read _ _)
  have sent := step 0 (step 0 (step 0 (step 0 passing (.beginCall _ finding "r0" isRecord))
    (.askClear _ _ rfl)) (.decideClear _ _ rfl)) (.sendOwn _ _ _ .busy)
  have kept := step 0 (step 0 (step 0 sent (.keep _ _ _)) (.set _ _ _)) (.answer _ _)
  have cleared := step 1 kept (.clear _ _ nofun)
  have taken := step 0 (step 0 (step 0 (step 0 cleared (.beginCall _ finding "r1" isRecord))
    (.askClear _ _ rfl)) (.decideClear _ _ rfl)) (.sendOwn _ _ _ .ok)
  refine ⟨_, taken, fun inTurn => ?_⟩
  have before : Before 0 1 [.began 0, .stored 0, .answeredKept 0, .began 1] :=
    ⟨[.began 0, .stored 0], [.began 1], rfl, List.mem_cons_self⟩
  have done := inTurn [.began 0, .stored 0, .answeredKept 0, .began 1] 1 [] rfl 0 before
  unfold Done at done
  revert done
  decide

end Dagq.Resend
