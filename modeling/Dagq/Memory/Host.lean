/-
This file models the one machine of a host as everything that touches its memory
sees it: the recorded reservations and waits, the containers it runs, the
containers podman was started for and that are not on it yet, and which runs and
processes are over. A try, a start recorded and a release each take the host's
lock, so each is one step.

Between the start of a container and its being on the machine anything may
happen. `Allowed` is what every step keeps to; `Orderly` is what else a host
whose memory is never given twice keeps to.
-/

import Dagq.Lib.Keyed
import Dagq.Lib.Transition
import Dagq.Memory.Ask

namespace Dagq.Memory

open Dagq.Lib

/-- A container podman was started for on the reservation `ask`, at `at_`, and whether its start
was recorded. -/
structure Start where
  ask : MemoryAsk
  at_ : Int
  recorded : Bool
  deriving DecidableEq, Repr

structure Host where
  reservations : Keyed MemoryAsk.container
  waits : Keyed MemoryAsk.container
  containers : Keyed MachineContainer.name
  starting : List Start
  /-- The runs that are over. -/
  endedRuns : List LeaseOwner
  /-- The processes that are dead. -/
  deadPids : List Nat
  now : Int

namespace Host

/-- A host whose machine runs nothing but `relays`. -/
def idle (relays : Keyed MachineContainer.name) (now : Int) : Host :=
  ⟨Keyed.empty, Keyed.empty, relays.keep fun container => container.relay, [], [], [], now⟩

def relays (host : Host) : Nat := relayCount host.containers.items

def pidAlive (host : Host) (pid : Nat) : Bool := !host.deadPids.contains pid

def ownerHeld (host : Host) : LeaseOwner → Bool
  | .process pid => host.pidAlive pid
  | owner => !host.endedRuns.contains owner

def onMachine (host : Host) (container : String) : Bool :=
  host.containers.items.any fun running => running.name == container

/-- Whether the reservation stands at `now`. -/
def holds (host : Host) (now : Int) (held : MemoryAsk) : Bool :=
  reservationHeld held (host.ownerHeld held.owner) (host.pidAlive held.pid)
    (host.onMachine held.container) now

/-- Whether the wait stands. -/
def waitStands (host : Host) (wait : MemoryAsk) : Bool :=
  waitHeld (host.ownerHeld wait.owner) (host.pidAlive wait.pid)

/-! ### The records under the lock -/

/-- The reservations and the waits that still hold; the others are forgotten. -/
def standing (host : Host) (now : Int) : Host :=
  { host with
    reservations := host.reservations.keep (host.holds now)
    waits := host.waits.keep host.waitStands }

/-- Record `ask` as reserved, in place of its wait. -/
def reserve (host : Host) (ask : MemoryAsk) : Host :=
  { host with
    reservations := host.reservations.put ask
    waits := host.waits.drop ask.container }

/-- Record `ask` as waiting, unless its wait is there. -/
def wait (host : Host) (ask : MemoryAsk) : Host :=
  match host.waits.get? ask.container with
  | some _ => host
  | none => { host with waits := host.waits.put ask }

def unwait (host : Host) (container : String) : Host :=
  { host with waits := host.waits.drop container }

/-- One try at the memory of `ask` at `now`, `unreadable` telling why the machine could not be
read. -/
def tryReserve (machineMib : Nat) (host : Host) (ask : MemoryAsk) (now : Int)
    (unreadable : Option String) : Host × MemoryStep :=
  let ask := { ask with seq := nextSeq host.waits.items ask.container }
  match unreadable with
  | some error =>
    (host.wait ask, .wait (s!"what the dagq machine {machineName} runs could not be read " ++
      s!"({error}): no container starts until it is"))
  | none =>
    let kept := host.standing now
    match judge machineMib kept.containers.items kept.reservations.items kept.waits.items ask with
    | .reserve => (kept.reserve { ask with since := now, started := none }, .reserved)
    | .wait why => (kept.wait ask, .wait why)
    | .refuse why => (kept.unwait ask.container, .refused why)

/-- Record that the container of a reservation was started at `now`. -/
def markStarted (host : Host) (container : String) (now : Int) : Host :=
  match host.reservations.get? container with
  | none => host
  | some held => host.reserve { held with started := some now }

/-- Forget the reservation and the wait of a container. -/
def releaseMemory (host : Host) (container : String) : Host :=
  { host with
    reservations := host.reservations.drop container
    waits := host.waits.drop container }

end Host

/-! ### The steps -/

inductive HostAction where
  | tryReserve (ask : MemoryAsk) (now : Int) (unreadable : Option String)
  | releaseMemory (container : String)
  /-- Podman is started for the container of the reservation `held`. -/
  | start (held : MemoryAsk)
  | markStarted (container : String) (now : Int)
  /-- The container started is on the machine. -/
  | appear (start : Start)
  /-- The start came to nothing. -/
  | fail (start : Start)
  /-- A container, or a relay, ends. -/
  | leave (name : String)
  | processDies (pid : Nat)
  | runEnds (owner : LeaseOwner)
  | tick (now : Int)

namespace Host

def act (machineMib : Nat) (host : Host) : HostAction → Host
  | .tryReserve ask now unreadable => (host.tryReserve machineMib ask now unreadable).1
  | .releaseMemory container => host.releaseMemory container
  | .start held => { host with starting := host.starting ++ [⟨held, host.now, false⟩] }
  | .markStarted container now =>
    { host.markStarted container now with
      starting := host.starting.map fun start =>
        if start.ask.container = container then { start with recorded := true } else start }
  | .appear start =>
    { host with
      containers := host.containers.put ⟨start.ask.container, some start.ask.memoryMib, false⟩
      starting := host.starting.erase start }
  | .fail start => { host with starting := host.starting.erase start }
  | .leave name => { host with containers := host.containers.drop name }
  | .processDies pid => { host with deadPids := pid :: host.deadPids }
  | .runEnds owner => { host with endedRuns := owner :: host.endedRuns }
  | .tick now => { host with now := now }

/-- A container of that name was started and is not on the machine yet. -/
def isStarting (host : Host) (container : String) : Prop :=
  ∃ start ∈ host.starting, start.ask.container = container

/-- What every step keeps to. A container starts on its own held reservation, a turn's on one it
was not started on before, and is on the machine within the grace of its start; its start is
recorded after it and by the process that started it; and a name is on the machine once. -/
def Allowed (host : Host) : HostAction → Prop
  | .tryReserve _ now _ => now ≤ host.now
  | .start held => held ∈ host.reservations.items ∧ host.holds host.now held = true ∧
      (held.purpose = .turn → held.started = none)
  | .markStarted container now => now ≤ host.now ∧ ∀ start ∈ host.starting,
      start.ask.container = container → start.at_ ≤ now ∧ host.pidAlive start.ask.pid = true
  | .appear start => start ∈ host.starting ∧ host.now < start.at_ + startGraceSecs ∧
      host.onMachine start.ask.container = false
  | .tick now => host.now ≤ now
  | _ => True

/-- What else a step of an orderly host keeps to. A container comes to the machine while its run
is not over and the process that started it lives, a turn's also after its start was recorded;
its memory is not released between the start and then; and an ask for a container that was
started before is made once that one is on the machine or came to nothing, and for no less than
it has there. -/
def Orderly (machineMib : Nat) (host : Host) : HostAction → Prop
  | .tryReserve ask _ _ => ¬ host.isStarting ask.container ∧
      ∀ running ∈ host.containers.items, running.name = ask.container →
        running.memoryMib.getD machineMib ≤ ask.memoryMib
  | .releaseMemory container => ¬ host.isStarting container
  | .appear start => host.ownerHeld start.ask.owner = true ∧
      (host.pidAlive start.ask.pid = true ∨ (start.ask.purpose = .turn ∧ start.recorded = true))
  | _ => True

end Host

def HostStep (machineMib : Nat) (before after : Host) : Prop :=
  ∃ action, before.Allowed action ∧ after = before.act machineMib action

def OrderlyStep (machineMib : Nat) (before after : Host) : Prop :=
  ∃ action, before.Allowed action ∧ before.Orderly machineMib action ∧
    after = before.act machineMib action

namespace Host

/-- The hosts some order of steps leads to. -/
def Reached (machineMib : Nat) (host : Host) : Prop :=
  ∃ relays now, Reachable (idle relays now) (HostStep machineMib) host

/-- The hosts some order of orderly steps leads to. -/
def OrderlyReached (machineMib : Nat) (host : Host) : Prop :=
  ∃ relays now, Reachable (idle relays now) (OrderlyStep machineMib) host

/-- The action ends the wait of the container: a try of it that does not wait on, a start of it
recorded, a release of it. -/
def EndsWait (machineMib : Nat) (host : Host) (container : String) : HostAction → Prop
  | .tryReserve ask now unreadable => ask.container = container ∧
      ∀ why, (host.tryReserve machineMib ask now unreadable).2 ≠ .wait why
  | .releaseMemory released => released = container
  | .markStarted marked _ => marked = container
  | _ => False

end Host

/-- A step that does not end the wait of the container. -/
def WaitingStep (machineMib : Nat) (container : String) (before after : Host) : Prop :=
  ∃ action, before.Allowed action ∧ ¬ before.EndsWait machineMib container action ∧
    after = before.act machineMib action

end Dagq.Memory
