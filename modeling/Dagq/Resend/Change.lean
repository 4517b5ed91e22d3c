/-
This file says once what a step of a thread can change, and what each thread knows
of its own record: whether it was sent, kept, answered. Another thread touches a
record only once it is in the store, so what a thread knows of one that is not there
stays true under the steps of the others.
-/

import Dagq.Resend.Threads

namespace Dagq.Resend

open Dagq.Ledger Dagq.Lib

/-! ### What is known of a record -/

def Begun (world : World) (record : Record) : Prop :=
  world.calls[record.call]? = some record.params

/-- A record that may be kept, and whose sendings are one to the queue. -/
def Keepable (record : Record) : Prop :=
  keptOp record.params = true ∧ ∃ named, identity record.params = some named

/-- The identity of a record taken is taken. -/
def Known (world : World) (record : Record) : Prop :=
  .taken record.call ∈ world.log →
    ∀ text, identity record.params = some (.text text) → text ∈ world.identities

structure Stored (world : World) (record : Record) : Prop where
  begun : Begun world record
  keepable : Keepable record
  known : Known world record
  stored : .stored record.call ∈ world.log

/-- Nothing happened to a record but that its call began. -/
structure Unsent (world : World) (record : Record) : Prop where
  begun : Begun world record
  only : ∀ event ∈ world.log, event.call = record.call → event = .began record.call

/-- A record that is not kept yet. -/
structure Unkept (world : World) (record : Record) : Prop where
  begun : Begun world record
  keepable : Keepable record
  known : Known world record
  unstored : .stored record.call ∉ world.log
  unanswered : .answeredKept record.call ∉ world.log

/-- A record kept whose call is not answered yet. -/
structure Held (world : World) (record : Record) : Prop where
  stored : Stored world record
  unanswered : .answeredKept record.call ∉ world.log
  held : Done world.log record.call ∨ ∃ other ∈ world.kept, other.call = record.call

theorem Unsent.untaken {world : World} {record : Record} (unsent : Unsent world record) :
    .taken record.call ∉ world.log :=
  fun taken => nomatch unsent.only _ taken rfl

theorem Unsent.unkept {world : World} {record : Record} (unsent : Unsent world record)
    (keepable : Keepable record) : Unkept world record where
  begun := unsent.begun
  keepable := keepable
  known taken := absurd taken unsent.untaken
  unstored stored := nomatch unsent.only _ stored rfl
  unanswered answered := nomatch unsent.only _ answered rfl

theorem Begun.lt {world : World} {record : Record} (begun : Begun world record) :
    record.call < world.calls.length :=
  (List.getElem?_eq_some_iff.mp begun).1

/-! ### What is known of a thread -/

def JobFits (world : World) : Job → Prop
  | .held => True
  | .call record => Unsent world record ∧ Keepable record
  | .now record => Unsent world record

def Fits (world : World) : Thread → Prop
  | .idle => True
  | .asking job | .locking job | .reading job | .failing job _ | .unlocking job
  | .deciding job => JobFits world job
  | .passing job rest => JobFits world job ∧ ∀ record ∈ rest, Stored world record
  | .lettingGo job record rest =>
    JobFits world job ∧ Done world.log record.call ∧ ∀ record ∈ rest, Stored world record
  | .keepingBehind record => Unsent world record ∧ Keepable record
  | .sending record keeps => Unsent world record ∧ (keeps = true → Keepable record)
  | .keeping record _ => Unkept world record
  | .setting record _ | .answering record => Held world record

/-- The record a call asks for. -/
def Job.record : Job → Option Record
  | .held => none
  | .call record | .now record => some record

/-- The record of the call a thread runs. -/
def Thread.own : Thread → Option Record
  | .idle => none
  | .asking job | .locking job | .reading job | .failing job _ | .unlocking job | .deciding job
  | .passing job _ | .lettingGo job _ _ => job.record
  | .keepingBehind record | .sending record _ | .keeping record _ | .setting record _
  | .answering record => some record

/-- The record a thread's next step says something of. -/
def Thread.touched : Thread → Option Record
  | .keepingBehind record | .sending record _ | .keeping record _ | .answering record =>
    some record
  | _ => none

theorem Thread.own_of_touched {thread : Thread} {record : Record}
    (isTouched : thread.touched = some record) : thread.own = some record := by
  cases thread with
  | keepingBehind | sending | keeping | answering => exact isTouched
  | _ => cases isTouched

/-! ### What a step changes -/

/-- What a step that touches this record may change. -/
inductive Change (touched : Option Record) (before : World) : World → Prop where
  | begins (params : Value) : Change touched before (before.begin_ params)
  | still (behind : Option Behind) (passRuns : Bool) :
      Change touched before { before with behind := behind, passRuns := passRuns }
  | sends (record : Record) (after : World) (stored : Stored before record)
      (handled : Handled before record after) : Change touched before after
  | sendsOwn (record : Record) (after : World) (isTouched : touched = some record)
      (unsent : Unsent before record) (handled : Handled before record after) :
      Change touched before after
  | holds (record : Record) (isTouched : touched = some record) (unkept : Unkept before record) :
      Change touched before (before.hold record)
  | letsGo (record : Record) (done : Done before.log record.call) :
      Change touched before (before.letGo record)
  | answers (record : Record) (isTouched : touched = some record) (held : Held before record) :
      Change touched before (before.record [.answeredKept record.call])

theorem Change.same (touched : Option Record) (world : World) : Change touched world world :=
  .still world.behind world.passRuns

theorem Move.change {orderly : Bool} {setting : Nat → Prop} {world after : World}
    {thread next : Thread} (move : Move orderly setting world thread after next)
    (fits : Fits world thread) : Change thread.touched world after := by
  cases move with
  | beginCall | beginNow => exact .begins _
  | beginHeld | askWaits | askClear | read | decideWaits | decideClear | skip =>
    exact .same _ _
  | lock | fail | clear | unlock | set => exact .still _ _
  | send job record rest answer =>
    rcases handled_send world record answer with handled | ⟨isSame, _⟩
    · exact .sends record _ (fits.2 record List.mem_cons_self) handled
    · rw [isSame]
      exact .same _ _
  | letGo job record rest => exact .letsGo record fits.2.1
  | keepBehind record => exact .holds record rfl (fits.1.unkept fits.2)
  | sendOwn record keeps answer =>
    rcases handled_send world record answer with handled | ⟨isSame, _⟩
    · exact .sendsOwn record _ rfl fits.1 handled
    · rw [isSame]
      exact .same _ _
  | keep record => exact .holds record rfl fits
  | answer record => exact .answers record rfl fits

/-- What is logged by a step that touches this record. -/
inductive Logged (touched : Option Record) (before : World) : Event → Prop where
  | began : Logged touched before (.began before.calls.length)
  | own (record : Record) (event : Event) (isTouched : touched = some record)
      (isOwn : event.call = record.call) (later : event ≠ .began record.call) :
      Logged touched before event
  | handled (record : Record) (event : Event) (stored : Stored before record)
      (isOf : event.call = record.call) (isEnd : event.isEnd = true) :
      Logged touched before event

theorem Handled.log {world after : World} {record : Record}
    (handled : Handled world record after) :
    ∃ event, after.log = world.log ++ [event] ∧ event.call = record.call ∧
      event.isEnd = true := by
  cases handled <;> exact ⟨_, rfl, rfl, rfl⟩

theorem Change.log {touched : Option Record} {before after : World}
    (change : Change touched before after) :
    ∃ events, after.log = before.log ++ events ∧
      ∀ event ∈ events, Logged touched before event := by
  cases change with
  | begins => exact ⟨_, rfl, fun _ mem => List.mem_singleton.mp mem ▸ .began⟩
  | still => exact ⟨[], (List.append_nil _).symm, fun _ mem => nomatch mem⟩
  | sends record after stored handled =>
    obtain ⟨event, isLog, isOf, isEnd⟩ := handled.log
    exact ⟨_, isLog, fun _ mem =>
      List.mem_singleton.mp mem ▸ .handled record event stored isOf isEnd⟩
  | sendsOwn record after isTouched unsent handled =>
    obtain ⟨event, isLog, isOf, isEnd⟩ := handled.log
    refine ⟨_, isLog, fun _ mem => List.mem_singleton.mp mem ▸ .own record event isTouched isOf ?_⟩
    rintro rfl
    cases isEnd
  | holds record isTouched =>
    exact ⟨_, rfl, fun _ mem => List.mem_singleton.mp mem ▸ .own record _ isTouched rfl nofun⟩
  | letsGo => exact ⟨[], (List.append_nil _).symm, fun _ mem => nomatch mem⟩
  | answers record isTouched =>
    exact ⟨_, rfl, fun _ mem => List.mem_singleton.mp mem ▸ .own record _ isTouched rfl nofun⟩

theorem Change.calls {touched : Option Record} {before after : World}
    (change : Change touched before after) : ∃ more, after.calls = before.calls ++ more := by
  cases change with
  | begins params => exact ⟨[params], rfl⟩
  | sends record after stored handled | sendsOwn record after isTouched unsent handled =>
    cases handled <;> exact ⟨[], (List.append_nil _).symm⟩
  | _ => exact ⟨[], (List.append_nil _).symm⟩

theorem Change.mem_log {touched : Option Record} {before after : World}
    (change : Change touched before after) {event : Event} (member : event ∈ before.log) :
    event ∈ after.log := by
  obtain ⟨events, isLog, _⟩ := change.log
  rw [isLog]
  exact List.mem_append_left _ member

theorem Change.done {touched : Option Record} {before after : World}
    (change : Change touched before after) {call : Nat} (done : Done before.log call) :
    Done after.log call := by
  obtain ⟨events, isLog, _⟩ := change.log
  rw [isLog]
  exact done.append events

/-- What is in the log after a step was there before, or is logged by the step. -/
theorem Change.logged {touched : Option Record} {before after : World}
    (change : Change touched before after) {event : Event} (member : event ∈ after.log) :
    event ∈ before.log ∨ Logged touched before event := by
  obtain ⟨events, isLog, logged⟩ := change.log
  rw [isLog] at member
  exact (List.mem_append.mp member).imp id (logged event)

theorem Change.begun {touched : Option Record} {before after : World}
    (change : Change touched before after) {record : Record} (begun : Begun before record) :
    Begun after record := by
  obtain ⟨more, isCalls⟩ := change.calls
  show after.calls[record.call]? = some record.params
  rw [isCalls, List.getElem?_append_left begun.lt]
  exact begun

/-- A record kept stays so until it is done. -/
theorem Change.kept {touched : Option Record} {before after : World}
    (change : Change touched before after) {record : Record} (member : record ∈ before.kept) :
    Done after.log record.call ∨ record ∈ after.kept := by
  cases change with
  | begins | still | answers => exact Or.inr member
  | sends record after stored handled | sendsOwn record after isTouched unsent handled =>
    cases handled <;> exact Or.inr member
  | holds => exact Or.inr (List.mem_append_left _ member)
  | letsGo gone done =>
    by_cases same : record.call = gone.call
    · exact Or.inl (same ▸ done)
    · exact Or.inr (List.mem_filter.mpr ⟨member, bne_iff_ne.mpr same⟩)

theorem Handled.known {world after : World} {sent record : Record}
    (handled : Handled world sent after) (sentBegun : Begun world sent)
    (begun : Begun world record) (known : Known world record) : Known after record := by
  intro taken text isText
  cases handled with
  | refused =>
    rcases List.mem_append.mp taken with earlier | now
    · exact known earlier text isText
    · cases List.mem_singleton.mp now
  | repeated =>
    rcases List.mem_append.mp taken with earlier | now
    · exact known earlier text isText
    · cases List.mem_singleton.mp now
  | taken more new =>
    rcases List.mem_append.mp taken with earlier | now
    · exact List.mem_append_left _ (known earlier text isText)
    · -- the record sent is this one, so its identity is the one now taken
      have sameCall : record.call = sent.call := Event.taken.inj (List.mem_singleton.mp now)
      have sameParams : record.params = sent.params := by
        have isSent : world.calls[record.call]? = some sent.params := sameCall ▸ sentBegun
        exact Option.some.inj (begun.symm.trans isSent)
      rw [sameParams] at isText
      exact List.mem_append_right _ (new text isText).2

theorem Change.known {touched : Option Record} {before after : World}
    (change : Change touched before after) {record : Record} (begun : Begun before record)
    (known : Known before record) : Known after record := by
  cases change with
  | sends sent after stored handled => exact handled.known stored.begun begun known
  | sendsOwn sent after isTouched unsent handled => exact handled.known unsent.begun begun known
  | still | letsGo => exact known
  | begins | holds | answers =>
    intro taken
    rcases List.mem_append.mp taken with earlier | now
    · exact known earlier
    · cases List.mem_singleton.mp now

/-! ### What a step leaves of a record it does not touch -/

theorem Change.stored {touched : Option Record} {before after : World}
    (change : Change touched before after) {record : Record} (stored : Stored before record) :
    Stored after record where
  begun := change.begun stored.begun
  keepable := stored.keepable
  known := change.known stored.begun stored.known
  stored := change.mem_log stored.stored

section Apart

variable {touched : Option Record} {before after : World} {record : Record}

theorem Change.unsent (change : Change touched before after)
    (apart : ∀ other, touched = some other → other.call ≠ record.call)
    (unsent : Unsent before record) : Unsent after record where
  begun := change.begun unsent.begun
  only event member isOwn := by
    rcases change.logged member with earlier | logged
    · exact unsent.only event earlier isOwn
    · cases logged with
      | began => exact absurd isOwn.symm unsent.begun.lt.ne
      | own other event isTouched isOf =>
        exact absurd (isOf.symm.trans isOwn) (apart other isTouched)
      | handled other event stored isOf =>
        exact nomatch unsent.only _ stored.stored (isOf.symm.trans isOwn)

theorem Change.unkept (change : Change touched before after)
    (apart : ∀ other, touched = some other → other.call ≠ record.call)
    (unkept : Unkept before record) : Unkept after record where
  begun := change.begun unkept.begun
  keepable := unkept.keepable
  known := change.known unkept.begun unkept.known
  unstored member := by
    rcases change.logged member with earlier | logged
    · exact unkept.unstored earlier
    · cases logged with
      | own other event isTouched isOf => exact apart other isTouched isOf.symm
      | handled other event stored isOf isEnd => cases isEnd
  unanswered member := by
    rcases change.logged member with earlier | logged
    · exact unkept.unanswered earlier
    · cases logged with
      | own other event isTouched isOf => exact apart other isTouched isOf.symm
      | handled other event stored isOf isEnd => cases isEnd

theorem Change.held (change : Change touched before after)
    (apart : ∀ other, touched = some other → other.call ≠ record.call)
    (held : Held before record) : Held after record where
  stored := change.stored held.stored
  unanswered member := by
    rcases change.logged member with earlier | logged
    · exact held.unanswered earlier
    · cases logged with
      | own other event isTouched isOf => exact apart other isTouched isOf.symm
      | handled other event stored isOf isEnd => cases isEnd
  held := by
    rcases held.held with done | ⟨other, member, isOf⟩
    · exact Or.inl (change.done done)
    · rcases change.kept member with done | still
      · exact Or.inl (isOf ▸ done)
      · exact Or.inr ⟨other, still, isOf⟩

theorem Change.jobFits (change : Change touched before after) {job : Job}
    (apart : ∀ other, touched = some other → ∀ record, job.record = some record →
      other.call ≠ record.call)
    (fits : JobFits before job) : JobFits after job := by
  cases job with
  | held => trivial
  | call record =>
    exact ⟨change.unsent (fun other isTouched => apart other isTouched record rfl) fits.1, fits.2⟩
  | now record => exact change.unsent (fun other isTouched => apart other isTouched record rfl) fits

/-- A thread is left as it was by a step that does not touch its record. -/
theorem Change.fits (change : Change touched before after) {thread : Thread}
    (apart : ∀ other, touched = some other → ∀ record, thread.own = some record →
      other.call ≠ record.call)
    (fits : Fits before thread) : Fits after thread := by
  cases thread with
  | idle => trivial
  | asking | locking | reading | failing | unlocking | deciding => exact change.jobFits apart fits
  | passing job rest =>
    exact ⟨change.jobFits apart fits.1, fun record member => change.stored (fits.2 record member)⟩
  | lettingGo job record rest =>
    exact ⟨change.jobFits apart fits.1, change.done fits.2.1,
      fun record member => change.stored (fits.2.2 record member)⟩
  | keepingBehind record =>
    exact ⟨change.unsent (fun other isTouched => apart other isTouched record rfl) fits.1, fits.2⟩
  | sending record keeps =>
    exact ⟨change.unsent (fun other isTouched => apart other isTouched record rfl) fits.1, fits.2⟩
  | keeping record why =>
    exact change.unkept (fun other isTouched => apart other isTouched record rfl) fits
  | setting record why | answering record =>
    exact change.held (fun other isTouched => apart other isTouched record rfl) fits

end Apart

end Dagq.Resend
