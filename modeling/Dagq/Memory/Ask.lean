/-
This file models what is decided about the memory of the machine that runs the
containers: the budget, what is taken of it, the order of the waits, what one
try at an ask comes to, and which reservation and which wait still hold.

Sizes are MiB and never near the end of their type, so they are naturals; the
numbers of the waits saturate where the program's do. Times are Unix seconds.
-/

import Mathlib.Tactic

namespace Dagq.Memory

/-- What the machine itself uses of its memory besides the containers. -/
def baseMib : Nat := 1024

/-- What one running relay takes of the machine. -/
def relayMib : Nat := 64

/-- How long a turn's reservation is kept after its container was started before the container is
seen on the machine. -/
def startGraceSecs : Int := 120

def machineName : String := "dagq"

/-! ### Asks and containers -/

inductive Purpose where
  | verification
  | turn
  deriving DecidableEq, Repr

namespace Purpose

def asStr : Purpose → String
  | .verification => "verification"
  | .turn => "turn"

/-- The place of the purpose among the purposes: a verification comes before a turn. -/
def rank : Purpose → Nat
  | .verification => 0
  | .turn => 1

end Purpose

/-- Who a reservation or a wait is of: a process, or a run of a queue. -/
inductive LeaseOwner where
  | process (pid : Nat)
  | run (db run : String)
  deriving DecidableEq, Repr

/-- One container's ask for memory: a reservation once it fits, a wait until then. -/
structure MemoryAsk where
  container : String
  purpose : Purpose
  memoryMib : Nat
  owner : LeaseOwner
  /-- The process that waits for it, and holds a verification's reservation. -/
  pid : Nat
  since : Int
  /-- Its place in the host-wide order of the waits. -/
  seq : Nat := 0
  /-- When a turn's container was started on its reservation. -/
  started : Option Int := none
  deriving DecidableEq, Repr

/-- A container the machine runs, `none` for one without a limit. -/
structure MachineContainer where
  name : String
  memoryMib : Option Nat
  relay : Bool
  deriving DecidableEq, Repr

/-- What one try at an ask comes to. -/
inductive Judgement where
  | reserve
  | wait (why : String)
  | refuse (why : String)
  deriving DecidableEq, Repr

inductive MemoryStep where
  | reserved
  | wait (why : String)
  | refused (why : String)
  deriving DecidableEq, Repr

/-! ### What is taken, and the order of the waits -/

/-- What the containers may take of a machine that runs `relays` relays. -/
def budget (machineMib relays : Nat) : Nat := machineMib - baseMib - relayMib * relays

/-- How many of the containers are relays. -/
def relayCount (containers : List MachineContainer) : Nat :=
  (containers.filter fun container => container.relay).length

/-- What the memory is taken by: the reservations and the containers no reservation names, but
`me`'s own. -/
def used (machineMib : Nat) (containers : List MachineContainer) (reservations : List MemoryAsk)
    (me : Option String) : Nat :=
  let reserved := ((reservations.filter fun held => some held.container ≠ me).map
    MemoryAsk.memoryMib).sum
  let unrecorded := ((((containers.filter fun container => !container.relay).filter
      fun container => some container.name ≠ me).filter
        fun container => !reservations.any fun held => held.container == container.name).map
          fun container => container.memoryMib.getD machineMib).sum
  reserved + unrecorded

/-- Why a limit never fits a budget of `room`. -/
def neverFits (machineMib room memoryMib : Nat) : Option String :=
  if memoryMib > room then
    some (s!"the container's memory limit of {memoryMib} MiB is beyond what the dagq machine's " ++
      s!"{machineMib} MiB leaves the containers ({room} MiB, after {baseMib} MiB for the machine " ++
      s!"and {relayMib} MiB for each relay): make the machine larger or the limit smaller in " ++
      "host.toml")
  else none

/-- The order of two waits: verifications first, then by their place. -/
def order (first second : MemoryAsk) : Ordering :=
  (compare first.purpose.rank second.purpose.rank).then <|
    (compare first.seq second.seq).then <|
      (compare first.since second.since).then (compare first.container second.container)

/-- The first of the waits in their order. -/
def firstWait : List MemoryAsk → Option MemoryAsk
  | [] => none
  | wait :: rest => match firstWait rest with
    | none => some wait
    | some later => if order later wait = .lt then some later else some wait

/-- The wait that comes before `me`, if any. -/
def ahead (waits : List MemoryAsk) (me : MemoryAsk) : Option MemoryAsk :=
  firstWait ((waits.filter fun wait => wait.container ≠ me.container).filter
    fun wait => order wait me = .lt)

/-- The largest number of an unsigned 64-bit counter. -/
def maxSeq : Nat := 2 ^ 64 - 1

/-- The place of the container's wait: its own when it waits already, else one after the last. -/
def nextSeq (waits : List MemoryAsk) (container : String) : Nat :=
  match waits.find? fun wait => wait.container = container with
  | some wait => wait.seq
  | none => min (((waits.map MemoryAsk.seq).max?.getD 0) + 1) maxSeq

/-- Whether `me` may take its memory now. -/
def judge (machineMib : Nat) (containers : List MachineContainer)
    (reservations waits : List MemoryAsk) (me : MemoryAsk) : Judgement :=
  let room := budget machineMib (relayCount containers)
  match neverFits machineMib room me.memoryMib with
  | some why => .refuse why
  | none => match ahead waits me with
    | some first =>
      .wait (s!"the {first.purpose.asStr} of container {first.container} waits for the dagq " ++
        "machine's memory before it")
    | none =>
      let taken := used machineMib containers reservations (some me.container)
      if taken + me.memoryMib > room then
        .wait (s!"the dagq machine's containers take {taken} MiB of the {room} MiB it leaves " ++
          s!"them, and the container's memory limit of {me.memoryMib} MiB does not fit beside them")
      else .reserve

/-! ### What still holds -/

/-- Whether a reservation still holds: a turn's before its start while its process lives, once
started while its container is on the machine or within the grace of the start; a verification's
while its process lives; any only while its owner is held. -/
def reservationHeld (held : MemoryAsk) (ownerHeld pidAlive onMachine : Bool) (now : Int) : Bool :=
  if !ownerHeld then false
  else match held.purpose, held.started with
    | .verification, _ | .turn, none => pidAlive
    | .turn, some started => onMachine || decide (now - started < startGraceSecs)

def waitHeld (ownerHeld pidAlive : Bool) : Bool := ownerHeld && pidAlive

/-! ### What a reservation given says -/

theorem firstWait_eq_none {waits : List MemoryAsk} (none : firstWait waits = none) :
    waits = [] := by
  cases waits with
  | nil => rfl
  | cons wait rest =>
    rw [firstWait] at none
    split at none
    · cases none
    · split at none <;> cases none

/-- A wait of a more urgent purpose, or of the same one at an earlier place, comes before. -/
theorem order_lt {first second : MemoryAsk}
    (before : first.purpose.rank < second.purpose.rank ∨
      (first.purpose = second.purpose ∧ first.seq < second.seq)) : order first second = .lt := by
  unfold order
  rcases before with urgent | ⟨same, earlier⟩
  · rw [compare_lt_iff_lt.mpr urgent]
    rfl
  · rw [same, compare_eq_iff_eq.mpr rfl, compare_lt_iff_lt.mpr earlier]
    rfl

/-- An ask that may take its memory has no wait before it, and fits beside what is taken. -/
theorem judge_reserve {machineMib : Nat} {containers : List MachineContainer}
    {reservations waits : List MemoryAsk} {me : MemoryAsk}
    (given : judge machineMib containers reservations waits me = .reserve) :
    (∀ wait ∈ waits, wait.container ≠ me.container → order wait me ≠ .lt) ∧
      used machineMib containers reservations (some me.container) + me.memoryMib ≤
        budget machineMib (relayCount containers) := by
  unfold judge at given
  simp only at given
  split at given
  · cases given
  · split at given
    · cases given
    · rename_i noneAhead
      split at given
      · cases given
      · rename_i fits
        refine ⟨fun wait member other before => ?_, not_lt.mp fits⟩
        have nothing := firstWait_eq_none noneAhead
        have inside : wait ∈ (waits.filter fun wait => wait.container ≠ me.container).filter
            fun wait => order wait me = .lt :=
          List.mem_filter.mpr ⟨List.mem_filter.mpr ⟨member, decide_eq_true other⟩,
            decide_eq_true before⟩
        rw [nothing] at inside
        cases inside

end Dagq.Memory
