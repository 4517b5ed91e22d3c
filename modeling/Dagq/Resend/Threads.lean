/-
This file runs the threads of one caller that keeps the records of results the
queue did not take, and sends them again before a later one. A thread's steps are
the ones the code takes between its locks: a look at why the records kept wait,
the lock of a pass over them, a read of the store, a sending, a record let go of.

A call has the number it began at. What happened is logged: a call began, its
record was kept, it was answered so, the queue took or refused a record.
-/

import Dagq.Lib.Cuts
import Dagq.Lib.Transition
import Dagq.Resend.Records

namespace Dagq.Resend

open Dagq.Ledger Dagq.Lib

/-! ### What happens -/

inductive Event where
  | began (call : Nat)
  | stored (call : Nat)
  | answeredKept (call : Nat)
  | taken (call : Nat)
  /-- The queue had taken the identity before. -/
  | repeated (call : Nat)
  | refused (call : Nat)
  deriving DecidableEq, Repr

def Event.call : Event → Nat
  | .began call | .stored call | .answeredKept call | .taken call | .repeated call
  | .refused call => call

/-- Whether this ends the record of its call. -/
def Event.isEnd : Event → Bool
  | .taken _ | .repeated _ | .refused _ => true
  | .began _ | .stored _ | .answeredKept _ => false

/-- A sending of the record of a call was taken or refused. -/
def Done (log : List Event) (call : Nat) : Prop :=
  .taken call ∈ log ∨ .repeated call ∈ log ∨ .refused call ∈ log

/-! ### The caller and its threads -/

/-- The record of a call. -/
structure Record where
  call : Nat
  params : Value

/-- What a thread was asked to do. -/
inductive Job where
  /-- `send_held` -/
  | held
  /-- `call` of a record -/
  | call (record : Record)
  /-- `call_now` of a record -/
  | now (record : Record)

/-- What a thread is about to do. -/
inductive Thread where
  | idle
  /-- look whether records wait -/
  | asking (job : Job)
  | locking (job : Job)
  | reading (job : Job)
  /-- send the first of the records a pass has left -/
  | passing (job : Job) (rest : List Record)
  | lettingGo (job : Job) (record : Record) (rest : List Record)
  /-- say why the records wait -/
  | failing (job : Job) (why : Behind)
  | unlocking (job : Job)
  /-- look again whether records wait -/
  | deciding (job : Job)
  /-- keep its record behind those kept before -/
  | keepingBehind (record : Record)
  /-- send its own record -/
  | sending (record : Record) (keeps : Bool)
  /-- keep its record, not taken -/
  | keeping (record : Record) (why : Behind)
  | setting (record : Record) (why : Behind)
  /-- be answered that its record is kept -/
  | answering (record : Record)

structure World where
  behind : Option Behind
  /-- The records kept, oldest first. -/
  kept : List Record
  /-- Whether a pass over the records kept runs. -/
  passRuns : Bool
  /-- What each call begun sends. -/
  calls : List Value
  /-- The identities the queue took. -/
  identities : List String
  log : List Event

namespace World

variable (world : World)

def record (events : List Event) : World := { world with log := world.log ++ events }

def setBehind (why : Option Behind) : World := { world with behind := why }

def hold (record : Record) : World :=
  { world with kept := world.kept ++ [record], log := world.log ++ [.stored record.call] }

def letGo (record : Record) : World :=
  { world with kept := world.kept.filter fun other => other.call != record.call }

/-- A call begins. -/
def begin_ (params : Value) : World :=
  { world with
    calls := world.calls ++ [params]
    log := world.log ++ [.began world.calls.length] }

/-- The queue handles a record: it takes each identity once, and refuses one that is no text. -/
def take (record : Record) : World :=
  match identity record.params with
  | none => world.record [.taken record.call]
  | some (.text named) =>
    if named ∈ world.identities then world.record [.repeated record.call]
    else { world.record [.taken record.call] with identities := world.identities ++ [named] }
  | some _ => world.record [.refused record.call]

/-- A record is sent and answered so. -/
def send (record : Record) : Answer → World
  | .ok | .unreachable true => world.take record
  | .refused => world.record [.refused record.call]
  | .busy | .unreachable false => world

end World

/-- A pass after a record was answered: it lets go of one taken or refused, and ends at another. -/
def afterSend (job : Job) (record : Record) (rest : List Record) (answer : Answer) : Thread :=
  match answer.notTaken with
  | some why => .failing job why
  | none => .lettingGo job record rest

/-- A thread after its pass ended. -/
def afterPass : Job → Thread
  | .held => .idle
  | job => .deciding job

/-- A thread after its own record was answered: `call` keeps one not taken. -/
def afterOwn (record : Record) (keeps : Bool) (answer : Answer) : Thread :=
  match answer.notTaken with
  | some why => if keeps then .keeping record why else .idle
  | none => .idle

/-- A thread once it found that records wait: `call` keeps its own behind them, `call_now` is
answered as their sending was. -/
def whileBehind : Job → Thread
  | .call record => .keepingBehind record
  | .held | .now _ => .idle

/-- A thread once it found that none waits. -/
def whileClear : Job → Thread
  | .held => .idle
  | .call record => .sending record true
  | .now record => .sending record false

/-- One step of a thread. `setting` says of which calls a thread is about to say why they wait.
Where `orderly`, a pass says that none waits only while every record kept is done, or of a call
that is to say so itself; and a record is kept behind others only while others wait. -/
inductive Move (orderly : Bool) (setting : Nat → Prop) :
    World → Thread → World → Thread → Prop where
  | beginCall (world : World) (params : Value) (uuid : String)
      (isRecord : resent .supervisor params = true) :
      Move orderly setting world .idle (world.begin_ (withRecord params uuid))
        (.asking (.call ⟨world.calls.length, withRecord params uuid⟩))
  | beginNow (world : World) (params : Value) (isRecord : resent .supervisor params = true) :
      Move orderly setting world .idle (world.begin_ params)
        (.asking (.now ⟨world.calls.length, params⟩))
  | beginHeld (world : World) : Move orderly setting world .idle world (.locking .held)
  | askWaits (world : World) (job : Job) (waits : world.behind.isSome = true) :
      Move orderly setting world (.asking job) world (.locking job)
  | askClear (world : World) (job : Job) (isClear : world.behind = none) :
      Move orderly setting world (.asking job) world (.deciding job)
  | lock (world : World) (job : Job) (free : world.passRuns = false) :
      Move orderly setting world (.locking job) { world with passRuns := true } (.reading job)
  | read (world : World) (job : Job) :
      Move orderly setting world (.reading job) world (.passing job world.kept)
  | send (world : World) (job : Job) (record : Record) (rest : List Record) (answer : Answer)
      (isKept : keptOp record.params = true) :
      Move orderly setting world (.passing job (record :: rest)) (world.send record answer)
        (afterSend job record rest answer)
  /-- A kept record that is no result's is let go of unsent. -/
  | skip (world : World) (job : Job) (record : Record) (rest : List Record)
      (isOther : keptOp record.params = false) :
      Move orderly setting world (.passing job (record :: rest)) world (.lettingGo job record rest)
  | letGo (world : World) (job : Job) (record : Record) (rest : List Record) :
      Move orderly setting world (.lettingGo job record rest) (world.letGo record)
        (.passing job rest)
  | fail (world : World) (job : Job) (why : Behind) :
      Move orderly setting world (.failing job why) (world.setBehind (some why)) (.unlocking job)
  | clear (world : World) (job : Job)
      (settled : orderly = true → ∀ record ∈ world.kept, Done world.log record.call ∨
        setting record.call) :
      Move orderly setting world (.passing job []) (world.setBehind none) (.unlocking job)
  | unlock (world : World) (job : Job) :
      Move orderly setting world (.unlocking job) { world with passRuns := false } (afterPass job)
  | decideWaits (world : World) (job : Job) (waits : world.behind.isSome = true) :
      Move orderly setting world (.deciding job) world (whileBehind job)
  | decideClear (world : World) (job : Job) (isClear : world.behind = none) :
      Move orderly setting world (.deciding job) world (whileClear job)
  | keepBehind (world : World) (record : Record)
      (waits : orderly = true → world.behind.isSome = true) :
      Move orderly setting world (.keepingBehind record) (world.hold record) (.answering record)
  | sendOwn (world : World) (record : Record) (keeps : Bool) (answer : Answer) :
      Move orderly setting world (.sending record keeps) (world.send record answer)
        (afterOwn record keeps answer)
  | keep (world : World) (record : Record) (why : Behind) :
      Move orderly setting world (.keeping record why) (world.hold record) (.setting record why)
  | set (world : World) (record : Record) (why : Behind) :
      Move orderly setting world (.setting record why) (world.setBehind (some why))
        (.answering record)
  | answer (world : World) (record : Record) :
      Move orderly setting world (.answering record) (world.record [.answeredKept record.call])
        .idle

structure Caller where
  world : World
  threads : Nat → Thread

/-- Nothing kept, and no thread asked. -/
def Caller.start : Caller := ⟨⟨none, [], false, [], [], []⟩, fun _ => .idle⟩

/-- Whether a thread is about to say why the record of a call waits. -/
def Caller.Setting (caller : Caller) (call : Nat) : Prop :=
  ∃ thread record why, caller.threads thread = .setting record why ∧ record.call = call

/-- A step of the caller is one of any of its threads. -/
inductive CallerStep (orderly : Bool) : Caller → Caller → Prop where
  | thread (caller : Caller) (thread : Nat) (world : World) (next : Thread)
      (move : Move orderly caller.Setting caller.world (caller.threads thread) world next) :
      CallerStep orderly caller ⟨world, Function.update caller.threads thread next⟩

/-! ### What the queue makes of a sending -/

theorem Done.append {log : List Event} {call : Nat} (done : Done log call) (events : List Event) :
    Done (log ++ events) call :=
  done.imp (List.mem_append_left _) (Or.imp (List.mem_append_left _) (List.mem_append_left _))

/-- What a handled record leaves: its identity is taken from then on, and it was not taken under
it before. -/
inductive Handled (world : World) (record : Record) : World → Prop where
  | refused : Handled world record (world.record [.refused record.call])
  | repeated (named : String) (isNamed : identity record.params = some (.text named))
      (isTaken : named ∈ world.identities) :
      Handled world record (world.record [.repeated record.call])
  | taken (more : List String)
      (new : ∀ named, identity record.params = some (.text named) →
        named ∉ world.identities ∧ named ∈ more)
      (asText : ∀ named, identity record.params = some named → ∃ text, named = .text text) :
      Handled world record
        { world.record [.taken record.call] with identities := world.identities ++ more }

theorem handled_take (world : World) (record : Record) :
    Handled world record (world.take record) := by
  unfold World.take
  split
  · next isNone =>
    have same : world.record [.taken record.call] =
        { world.record [.taken record.call] with identities := world.identities ++ [] } := by
      rw [List.append_nil]
      rfl
    rw [same]
    exact .taken [] (fun _ isNamed => nomatch isNone.symm.trans isNamed)
      fun _ isNamed => nomatch isNone.symm.trans isNamed
  · next named isNamed =>
    by_cases isTaken : named ∈ world.identities
    · rw [if_pos isTaken]
      exact .repeated named isNamed isTaken
    · rw [if_neg isTaken]
      refine .taken [named] (fun other isOther => ?_) fun other isOther => ?_
      · cases isNamed.symm.trans isOther
        exact ⟨isTaken, List.mem_singleton_self _⟩
      · exact ⟨named, (Option.some.inj (isNamed.symm.trans isOther)).symm⟩
  · exact .refused

/-- A sending reaches the queue or leaves all as it was. -/
theorem handled_send (world : World) (record : Record) (answer : Answer) :
    Handled world record (world.send record answer) ∨
      (world.send record answer = world ∧ answer.notTaken.isSome = true) := by
  cases answer with
  | ok => exact Or.inl (handled_take world record)
  | refused => exact Or.inl .refused
  | busy => exact Or.inr ⟨rfl, rfl⟩
  | unreachable done =>
    cases done with
    | false => exact Or.inr ⟨rfl, rfl⟩
    | true => exact Or.inl (handled_take world record)

/-- A record handled is done. -/
theorem Handled.done {world after : World} {record : Record}
    (handled : Handled world record after) : Done after.log record.call := by
  cases handled with
  | refused => exact Or.inr (Or.inr (List.mem_append_right _ List.mem_cons_self))
  | repeated => exact Or.inr (Or.inl (List.mem_append_right _ List.mem_cons_self))
  | taken => exact Or.inl (List.mem_append_right _ List.mem_cons_self)

end Dagq.Resend
