/-
This file proves what every interleaving of the threads keeps: a record whose call
was answered that it is kept stays in the store until a sending of it was taken or
refused, and no record is taken twice. A thread's own step leaves it with what its
next step relies on.
-/

import Dagq.Resend.Change

namespace Dagq.Resend

open Dagq.Ledger Dagq.Lib

/-! ### The record of the thread that steps -/

/-- A record just kept is in the store, its call not answered. -/
theorem Unkept.hold {world : World} {record : Record} (unkept : Unkept world record) :
    Held (world.hold record) record where
  stored := {
    begun := unkept.begun
    keepable := unkept.keepable
    known := fun taken => by
      rcases List.mem_append.mp taken with earlier | now
      · exact unkept.known earlier
      · cases List.mem_singleton.mp now
    stored := List.mem_append_right _ List.mem_cons_self }
  unanswered answered := by
    rcases List.mem_append.mp answered with earlier | now
    · exact unkept.unanswered earlier
    · cases List.mem_singleton.mp now
  held := Or.inr ⟨record, List.mem_append_right _ List.mem_cons_self, rfl⟩

/-- A record sent and not taken may be kept. -/
theorem Unsent.send {world : World} {record : Record} (unsent : Unsent world record)
    (keepable : Keepable record) (answer : Answer) :
    Unkept (world.send record answer) record := by
  rcases handled_send world record answer with handled | ⟨isSame, _⟩
  · have change : Change (some record) world (world.send record answer) :=
      .sendsOwn record _ rfl unsent handled
    obtain ⟨event, isLog, _, isEnd⟩ := handled.log
    refine ⟨change.begun unsent.begun, keepable,
      change.known unsent.begun (unsent.unkept keepable).known, fun stored => ?_,
      fun answered => ?_⟩
    · rw [isLog] at stored
      rcases List.mem_append.mp stored with earlier | now
      · exact (unsent.unkept keepable).unstored earlier
      · rw [← List.mem_singleton.mp now] at isEnd
        cases isEnd
    · rw [isLog] at answered
      rcases List.mem_append.mp answered with earlier | now
      · exact (unsent.unkept keepable).unanswered earlier
      · rw [← List.mem_singleton.mp now] at isEnd
        cases isEnd
  · rw [isSame]
    exact unsent.unkept keepable

/-- What is known of the log and the store. -/
structure WorldOk (world : World) : Prop where
  begun : ∀ event ∈ world.log, event.call < world.calls.length
  stored : ∀ record ∈ world.kept, Stored world record
  kept : ∀ call, .answeredKept call ∈ world.log →
    Done world.log call ∨ ∃ record ∈ world.kept, record.call = call
  once : ∀ call, world.log.count (.taken call) ≤ 1

/-- The record of a call that just began. -/
theorem WorldOk.unsent_begin {world : World} (ok : WorldOk world) (params : Value) :
    Unsent (world.begin_ params) ⟨world.calls.length, params⟩ where
  begun := List.getElem?_concat_length
  only event member isOwn := by
    rcases List.mem_append.mp member with earlier | now
    · exact absurd isOwn (ok.begun event earlier).ne
    · exact List.mem_singleton.mp now

theorem whileBehind_fits {world : World} {job : Job} (fits : JobFits world job) :
    Fits world (whileBehind job) := by
  cases job with
  | held | now => trivial
  | call record => exact fits

theorem whileClear_fits {world : World} {job : Job} (fits : JobFits world job) :
    Fits world (whileClear job) := by
  cases job with
  | held => trivial
  | call record => exact ⟨fits.1, fun _ => fits.2⟩
  | now record => exact ⟨fits, fun keeps => nomatch keeps⟩

/-- A thread's own step leaves it with what its next step relies on. -/
theorem Move.fits {orderly : Bool} {setting : Nat → Prop} {world after : World}
    {thread next : Thread} (move : Move orderly setting world thread after next)
    (ok : WorldOk world) (fits : Fits world thread) : Fits after next := by
  have change := move.change fits
  have untouched : ∀ {job : Job}, ∀ other, (none : Option Record) = some other →
      ∀ record, job.record = some record → other.call ≠ record.call :=
    fun _ isNone => nomatch isNone
  cases move with
  | beginCall params uuid isRecord =>
    exact ⟨ok.unsent_begin _, keptOp_withRecord uuid isRecord, identity_withRecord uuid isRecord⟩
  | beginNow params isRecord => exact ok.unsent_begin _
  | beginHeld => trivial
  | askWaits | askClear => exact fits
  | lock | fail => exact change.jobFits untouched fits
  | clear => exact change.jobFits untouched fits.1
  | unlock job =>
    have jobFits := change.jobFits untouched fits
    cases job with
    | held => trivial
    | call | now => exact jobFits
  | read => exact ⟨fits, ok.stored⟩
  | send job record rest answer =>
    have jobFits := change.jobFits untouched fits.1
    unfold afterSend
    cases notTaken : answer.notTaken with
    | some why => exact jobFits
    | none =>
      refine ⟨jobFits, ?_, fun other member =>
        change.stored (fits.2 other (List.mem_cons_of_mem _ member))⟩
      rcases handled_send world record answer with handled | ⟨_, isUntaken⟩
      · exact handled.done
      · rw [notTaken] at isUntaken
        cases isUntaken
  | skip job record rest isOther =>
    exact nomatch isOther.symm.trans (fits.2 record List.mem_cons_self).keepable.1
  | letGo job record rest =>
    exact ⟨change.jobFits untouched fits.1,
      fun other member => change.stored (fits.2.2 other member)⟩
  | decideWaits => exact whileBehind_fits fits
  | decideClear => exact whileClear_fits fits
  | keepBehind record => exact (fits.1.unkept fits.2).hold
  | sendOwn record keeps answer =>
    unfold afterOwn
    cases answer.notTaken with
    | none => trivial
    | some why =>
      cases keeps with
      | false => trivial
      | true => exact fits.1.send (fits.2 rfl) answer
  | keep record => exact fits.hold
  | set record => exact change.held (fun _ isNone => nomatch isNone) fits
  | answer => trivial

/-! ### The log and the store -/

theorem Handled.calls {world after : World} {record : Record}
    (handled : Handled world record after) : after.calls = world.calls := by
  cases handled <;> rfl

theorem Handled.kept {world after : World} {record : Record}
    (handled : Handled world record after) : after.kept = world.kept := by
  cases handled <;> rfl

theorem Handled.behind {world after : World} {record : Record}
    (handled : Handled world record after) : after.behind = world.behind := by
  cases handled <;> rfl

/-- A record handled is taken at most once: unsent, or one whose identity tells. -/
theorem Handled.once {world after : World} {record : Record}
    (handled : Handled world record after)
    (new : .taken record.call ∉ world.log ∨ Keepable record ∧ Known world record)
    (once : ∀ call, world.log.count (.taken call) ≤ 1) (call : Nat) :
    after.log.count (.taken call) ≤ 1 := by
  cases handled with
  | refused =>
    show (world.log ++ [Event.refused record.call]).count _ ≤ 1
    rw [List.count_append, List.count_cons_of_ne (by simp)]
    exact once call
  | repeated =>
    show (world.log ++ [Event.repeated record.call]).count _ ≤ 1
    rw [List.count_append, List.count_cons_of_ne (by simp)]
    exact once call
  | taken more isNew asText =>
    have untaken : .taken record.call ∉ world.log := by
      rcases new with untaken | ⟨⟨_, named, isNamed⟩, known⟩
      · exact untaken
      · obtain ⟨text, rfl⟩ := asText named isNamed
        exact fun taken => (isNew text isNamed).1 (known taken text isNamed)
    show (world.log ++ [Event.taken record.call]).count _ ≤ 1
    rw [List.count_append]
    by_cases same : call = record.call
    · rw [same, List.count_eq_zero_of_not_mem untaken, List.count_singleton_self]
    · rw [List.count_cons_of_ne (by simpa using Ne.symm same)]
      exact once call

theorem Handled.begun {world after : World} {record : Record}
    (handled : Handled world record after) (recordBegun : Begun world record)
    (begun : ∀ event ∈ world.log, event.call < world.calls.length) :
    ∀ event ∈ after.log, event.call < after.calls.length := by
  intro event member
  obtain ⟨new, isLog, isOf, _⟩ := handled.log
  rw [isLog] at member
  rw [handled.calls]
  rcases List.mem_append.mp member with earlier | now
  · exact begun event earlier
  · rw [List.mem_singleton.mp now, isOf]
    exact recordBegun.lt

theorem Change.worldOk {touched : Option Record} {before after : World}
    (change : Change touched before after) (ok : WorldOk before) : WorldOk after := by
  have stillKept : ∀ call, .answeredKept call ∈ before.log →
      Done after.log call ∨ ∃ record ∈ after.kept, record.call = call := by
    intro call answered
    rcases ok.kept call answered with done | ⟨record, member, isOf⟩
    · exact Or.inl (change.done done)
    · rcases change.kept member with done | still
      · exact Or.inl (isOf ▸ done)
      · exact Or.inr ⟨record, still, isOf⟩
  have stillStored : ∀ record ∈ before.kept, Stored after record :=
    fun record member => change.stored (ok.stored record member)
  have ofHandled : ∀ {record : Record}, Handled before record after → Begun before record →
      (.taken record.call ∉ before.log ∨ Keepable record ∧ Known before record) →
      WorldOk after := by
    intro record handled begun new
    refine ⟨handled.begun begun ok.begun, ?_, fun call answered => ?_, handled.once new ok.once⟩
    · rw [handled.kept]
      exact stillStored
    · obtain ⟨event, isLog, _, isEnd⟩ := handled.log
      rw [isLog] at answered
      rcases List.mem_append.mp answered with earlier | now
      · exact stillKept call earlier
      · rw [← List.mem_singleton.mp now] at isEnd
        cases isEnd
  cases change with
  | begins params =>
    refine ⟨fun event member => ?_, stillStored, fun call answered => ?_, fun call => ?_⟩
    · show event.call < (before.calls ++ [params]).length
      rw [List.length_append]
      rcases List.mem_append.mp member with earlier | now
      · exact Nat.lt_succ_of_lt (ok.begun event earlier)
      · rw [List.mem_singleton.mp now]
        exact Nat.lt_succ_self _
    · rcases List.mem_append.mp answered with earlier | now
      · exact stillKept call earlier
      · cases List.mem_singleton.mp now
    · show (before.log ++ [Event.began before.calls.length]).count _ ≤ 1
      rw [List.count_append, List.count_cons_of_ne (by simp)]
      exact ok.once call
  | still => exact ⟨ok.begun, stillStored, stillKept, ok.once⟩
  | sends record after stored handled =>
    exact ofHandled handled stored.begun (Or.inr ⟨stored.keepable, stored.known⟩)
  | sendsOwn record after isTouched unsent handled =>
    exact ofHandled handled unsent.begun (Or.inl unsent.untaken)
  | holds record isTouched unkept =>
    refine ⟨fun event member => ?_, fun other member => ?_, fun call answered => ?_,
      fun call => ?_⟩
    · rcases List.mem_append.mp member with earlier | now
      · exact ok.begun event earlier
      · rw [List.mem_singleton.mp now]
        exact unkept.begun.lt
    · rcases List.mem_append.mp member with earlier | now
      · exact stillStored other earlier
      · rw [List.mem_singleton.mp now]
        exact unkept.hold.stored
    · rcases List.mem_append.mp answered with earlier | now
      · exact stillKept call earlier
      · cases List.mem_singleton.mp now
    · show (before.log ++ [Event.stored record.call]).count _ ≤ 1
      rw [List.count_append, List.count_cons_of_ne (by simp)]
      exact ok.once call
  | letsGo record done =>
    exact ⟨ok.begun, fun other member => stillStored other (List.mem_of_mem_filter member),
      stillKept, ok.once⟩
  | answers record isTouched held =>
    refine ⟨fun event member => ?_, stillStored, fun call answered => ?_, fun call => ?_⟩
    · rcases List.mem_append.mp member with earlier | now
      · exact ok.begun event earlier
      · rw [List.mem_singleton.mp now]
        exact held.stored.begun.lt
    · rcases List.mem_append.mp answered with earlier | now
      · exact stillKept call earlier
      · cases List.mem_singleton.mp now
        exact held.held.imp (fun done => done.append _) id
    · show (before.log ++ [Event.answeredKept record.call]).count _ ≤ 1
      rw [List.count_append, List.count_cons_of_ne (by simp)]
      exact ok.once call

/-! ### Every interleaving -/

theorem Fits.begun {world : World} {thread : Thread} (fits : Fits world thread) {record : Record}
    (isOwn : thread.own = some record) : Begun world record := by
  have ofJob : ∀ {job : Job}, JobFits world job → job.record = some record →
      Begun world record := by
    intro job jobFits isRecord
    cases job with
    | held => cases isRecord
    | call other =>
      cases isRecord
      exact jobFits.1.begun
    | now other =>
      cases isRecord
      exact jobFits.begun
  cases thread with
  | idle => cases isOwn
  | asking | locking | reading | failing | unlocking | deciding => exact ofJob fits isOwn
  | passing | lettingGo => exact ofJob fits.1 isOwn
  | keepingBehind | sending =>
    cases isOwn
    exact fits.1.begun
  | keeping =>
    cases isOwn
    exact Unkept.begun fits
  | setting | answering =>
    cases isOwn
    exact fits.stored.begun

/-- A step leaves a thread with its record, or with none, or with that of a call just begun. -/
theorem Move.own {orderly : Bool} {setting : Nat → Prop} {world after : World}
    {thread next : Thread} (move : Move orderly setting world thread after next)
    {record : Record} (isOwn : next.own = some record) :
    thread.own = some record ∨ record.call = world.calls.length := by
  cases move with
  | beginCall | beginNow =>
    cases isOwn
    exact Or.inr rfl
  | beginHeld | answer => cases isOwn
  | askWaits | askClear | lock | read | skip | letGo | fail | clear | keepBehind | keep | set =>
    exact Or.inl isOwn
  | send job sent rest answer =>
    unfold afterSend at isOwn
    cases notTaken : answer.notTaken <;> rw [notTaken] at isOwn <;> exact Or.inl isOwn
  | unlock job =>
    cases job with
    | held => cases isOwn
    | call | now => exact Or.inl isOwn
  | decideWaits job =>
    cases job with
    | held | now => cases isOwn
    | call => exact Or.inl isOwn
  | decideClear job =>
    cases job with
    | held => cases isOwn
    | call | now => exact Or.inl isOwn
  | sendOwn sent keeps answer =>
    unfold afterOwn at isOwn
    cases notTaken : answer.notTaken with
    | none =>
      rw [notTaken] at isOwn
      cases isOwn
    | some why =>
      rw [notTaken] at isOwn
      cases keeps with
      | false => cases isOwn
      | true => exact Or.inl isOwn

/-- What holds in every state: of the log and the store, of each thread, and that no two threads
run one call. -/
structure Sound (caller : Caller) : Prop where
  world : WorldOk caller.world
  threads : ∀ thread, Fits caller.world (caller.threads thread)
  apart : ∀ first second, first ≠ second → ∀ record other,
    (caller.threads first).own = some record → (caller.threads second).own = some other →
    record.call ≠ other.call

theorem sound_start : Sound Caller.start where
  world := {
    begun := fun _ member => nomatch member
    stored := fun _ member => nomatch member
    kept := fun _ answered => nomatch answered
    once := fun _ => Nat.zero_le 1 }
  threads _ := trivial
  apart _ _ _ _ _ isOwn _ := nomatch isOwn

theorem CallerStep.sound {orderly : Bool} {before after : Caller}
    (step : CallerStep orderly before after) (sound : Sound before) : Sound after := by
  cases step with
  | thread mover world next move =>
    have change := move.change (sound.threads mover)
    have moved : Fits world next := move.fits sound.world (sound.threads mover)
    -- a record the mover has next is its own, or of a call that no other thread runs
    have apartFrom : ∀ other, other ≠ mover → ∀ record mine, next.own = some record →
        (before.threads other).own = some mine → record.call ≠ mine.call := by
      intro other isOther record mine isNext isMine
      rcases move.own isNext with isOwn | isNew
      · exact sound.apart mover other isOther.symm record mine isOwn isMine
      · rw [isNew]
        exact ((sound.threads other).begun isMine).lt.ne'
    refine ⟨change.worldOk sound.world, fun other => ?_, fun first second distinct => ?_⟩
    · by_cases isMover : other = mover
      · subst isMover
        show Fits world (Function.update before.threads other next other)
        rw [Function.update_self]
        exact moved
      · show Fits world (Function.update before.threads mover next other)
        rw [Function.update_of_ne isMover]
        refine change.fits (fun touched isTouched record isOwn => ?_) (sound.threads other)
        exact sound.apart mover other (Ne.symm isMover) touched record
          (Thread.own_of_touched isTouched) isOwn
    · intro record other isFirst isSecond
      change (Function.update before.threads mover next first).own = some record at isFirst
      change (Function.update before.threads mover next second).own = some other at isSecond
      by_cases firstMoves : first = mover
      · subst firstMoves
        rw [Function.update_self] at isFirst
        rw [Function.update_of_ne distinct.symm] at isSecond
        exact apartFrom second distinct.symm record other isFirst isSecond
      · rw [Function.update_of_ne firstMoves] at isFirst
        by_cases secondMoves : second = mover
        · subst secondMoves
          rw [Function.update_self] at isSecond
          exact (apartFrom first firstMoves other record isSecond isFirst).symm
        · rw [Function.update_of_ne secondMoves] at isSecond
          exact sound.apart first second distinct record other isFirst isSecond

/-- Every interleaving keeps its records until they are done, and takes each once. -/
theorem sound_of_reachable {orderly : Bool} {caller : Caller}
    (reached : Reachable Caller.start (CallerStep orderly) caller) : Sound caller :=
  reached.invariant Sound sound_start fun _ _ _ sound step => step.sound sound

end Dagq.Resend
