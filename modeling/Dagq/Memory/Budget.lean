/-
This file proves that an orderly host never gives its memory twice. What the
recorded reservations and the containers none of them names take together stays
within the budget: a step that takes memory is a try the judgement let through,
and every other step leaves each name weighing no more than before. For a
container that comes to the machine that rests on its reservation being there
still, which the step that started it promised and no try in between could
forget.
-/

import Dagq.Memory.Host

namespace Dagq.Memory

open Dagq.Lib

/-! ### What is taken, name by name -/

/-- What a container takes of a machine: a relay is in the base, one without a limit takes it
whole. -/
def MachineContainer.weight (machineMib : Nat) (container : MachineContainer) : Nat :=
  if container.relay then 0 else container.memoryMib.getD machineMib

section Used

variable (machineMib : Nat) (containers : Keyed MachineContainer.name)
  (reservations : Keyed MemoryAsk.container)

/-- What the reservations and the containers none of them names take, name by name. -/
def taken : Nat :=
  Keyed.total reservations containers MemoryAsk.memoryMib (MachineContainer.weight machineMib)

theorem sum_weight (items : List MachineContainer) :
    (items.map (MachineContainer.weight machineMib)).sum =
      ((items.filter fun container => !container.relay).map
        fun container => container.memoryMib.getD machineMib).sum := by
  induction items with
  | nil => rfl
  | cons container rest inductionHypothesis =>
    rw [List.map_cons, List.sum_cons, inductionHypothesis, MachineContainer.weight]
    by_cases relay : container.relay = true
    · rw [if_pos relay, List.filter_cons_of_neg (by simp [relay]), Nat.zero_add]
    · rw [if_neg relay, List.filter_cons_of_pos (by simp [relay]), List.map_cons, List.sum_cons]

theorem used_none :
    used machineMib containers.items reservations.items none =
      taken machineMib containers reservations := by
  unfold used taken Keyed.total Keyed.sum Keyed.unnamed Keyed.keep
  simp only [ne_eq, reduceCtorEq, not_false_eq_true, decide_true, List.filter_true]
  rw [sum_weight, List.filter_filter, List.filter_filter]
  simp only [Bool.and_comm]

/-- An ask reserved is taken beside all that is not its own. -/
theorem taken_put (ask : MemoryAsk) :
    taken machineMib containers (reservations.put ask) =
      used machineMib containers.items reservations.items (some ask.container) + ask.memoryMib := by
  have sameReserved : (reservations.drop ask.container).items =
      reservations.items.filter fun held => some held.container ≠ some ask.container := by
    simp only [Keyed.drop, Keyed.keep, ne_eq, Option.some.injEq]
  have sameNamed : ∀ container : MachineContainer,
      (!(reservations.put ask).items.any fun held => held.container == container.name) =
        ((!reservations.items.any fun held => held.container == container.name) &&
          decide (some container.name ≠ some ask.container)) := by
    intro container
    by_cases own : container.name = ask.container
    · simp [Keyed.put, own]
    · have apart : ask.container ≠ container.name := fun same => own same.symm
      simp only [Keyed.put, List.any_cons, beq_false_of_ne apart, Bool.false_or, Keyed.drop,
        Keyed.keep, List.any_filter, ne_eq, Option.some.injEq, own, not_false_eq_true, decide_true,
        Bool.and_true]
      congr 1
      refine List.any_congr rfl fun held => ?_
      by_cases named : held.container = container.name
      · simp [named, own]
      · simp [named]
  unfold used taken Keyed.total Keyed.sum Keyed.unnamed Keyed.keep
  simp only [sameNamed, sum_weight, List.filter_filter]
  rw [← sameReserved, Keyed.put, List.map_cons, List.sum_cons]
  have sameFilter : (fun container : MachineContainer => !container.relay &&
        ((!reservations.items.any fun held => held.container == container.name) &&
          decide (some container.name ≠ some ask.container))) =
      fun container => (!reservations.items.any fun held => held.container == container.name) &&
        (decide (some container.name ≠ some ask.container) && !container.relay) := by
    funext container
    rw [Bool.and_comm, Bool.and_assoc]
  rw [sameFilter]
  omega

/-- Where each recorded container takes no more than its reservation, forgetting reservations
takes nothing. -/
theorem taken_keep_le (kept : MemoryAsk → Bool)
    (named : ∀ running ∈ containers.items, ∀ held ∈ reservations.items,
      held.container = running.name → running.weight machineMib ≤ held.memoryMib) :
    taken machineMib containers (reservations.keep kept) ≤
      taken machineMib containers reservations := by
  refine Keyed.total_le_total fun name => ?_
  unfold Keyed.load
  cases found : (reservations.keep kept).get? name with
  | some held =>
    obtain ⟨member, isName⟩ := Keyed.get?_eq_some_iff.mp found
    rw [Keyed.get?_eq_some_iff.mpr ⟨(Keyed.mem_keep.mp member).1, isName⟩]
  | none =>
    cases recorded : reservations.get? name with
    | none => exact le_rfl
    | some held =>
      obtain ⟨member, isName⟩ := Keyed.get?_eq_some_iff.mp recorded
      cases present : containers.get? name with
      | none => exact Nat.zero_le _
      | some running =>
        obtain ⟨inside, isRunning⟩ := Keyed.get?_eq_some_iff.mp present
        exact named running inside held member (isName.trans isRunning.symm)

/-- A container that leaves takes nothing. -/
theorem taken_drop_le (name : String) :
    taken machineMib (containers.drop name) reservations ≤
      taken machineMib containers reservations := by
  refine Keyed.total_le_total fun other => ?_
  unfold Keyed.load
  cases reservations.get? other with
  | some held => exact le_rfl
  | none =>
    cases found : (containers.drop name).get? other with
    | none => exact Nat.zero_le _
    | some running =>
      obtain ⟨member, isOther⟩ := Keyed.get?_eq_some_iff.mp found
      rw [Keyed.get?_eq_some_iff.mpr ⟨(Keyed.mem_drop.mp member).1, isOther⟩]

/-- A container that comes to the machine on a reservation takes nothing more. -/
theorem taken_put_container {running : MachineContainer} {held : MemoryAsk}
    (recorded : held ∈ reservations.items) (named : held.container = running.name) :
    taken machineMib (containers.put running) reservations ≤
      taken machineMib containers reservations := by
  refine Keyed.total_le_total fun name => ?_
  unfold Keyed.load
  cases found : reservations.get? name with
  | some other => exact le_rfl
  | none =>
    have apart : running.name ≠ name := fun same =>
      Keyed.get?_eq_none_iff.mp found held recorded (named.trans same)
    cases present : (containers.put running).get? name with
    | none => exact Nat.zero_le _
    | some other =>
      obtain ⟨member, isName⟩ := Keyed.get?_eq_some_iff.mp present
      rcases Keyed.mem_put.mp member with same | ⟨inside, _⟩
      · exact absurd ((congrArg MachineContainer.name same).symm.trans isName) apart
      · rw [Keyed.get?_eq_some_iff.mpr ⟨inside, isName⟩]

/-- A reservation written again with the same limit takes no more. -/
theorem taken_put_same {held again : MemoryAsk} (recorded : held ∈ reservations.items)
    (named : again.container = held.container) (limit : again.memoryMib = held.memoryMib) :
    taken machineMib containers (reservations.put again) ≤
      taken machineMib containers reservations := by
  refine Keyed.total_le_total fun name => ?_
  unfold Keyed.load
  cases found : (reservations.put again).get? name with
  | some other =>
    obtain ⟨member, isName⟩ := Keyed.get?_eq_some_iff.mp found
    rcases Keyed.mem_put.mp member with same | ⟨inside, _⟩
    · rw [Keyed.get?_eq_some_iff.mpr ⟨recorded, (named.symm.trans
        (congrArg MemoryAsk.container same).symm).trans isName⟩, same]
      exact le_of_eq limit
    · rw [Keyed.get?_eq_some_iff.mpr ⟨inside, isName⟩]
  | none =>
    have absent : reservations.get? name = none := by
      refine Keyed.get?_eq_none_iff.mpr fun other member isName => ?_
      have none := Keyed.get?_eq_none_iff.mp found
      by_cases own : other.container = again.container
      · exact none again (Keyed.mem_put.mpr (Or.inl rfl)) (own.symm.trans isName)
      · exact none other (Keyed.mem_put.mpr (Or.inr ⟨member, own⟩)) isName
    rw [absent]

end Used

/-! ### The invariant -/

namespace Host

/-- The container of a start may still come to the machine of an orderly host. -/
structure MayAppear (host : Host) (start : Start) : Prop where
  inGrace : host.now < start.at_ + startGraceSecs
  ownerHeld : host.ownerHeld start.ask.owner = true
  supported : host.pidAlive start.ask.pid = true ∨
    (start.ask.purpose = .turn ∧ start.recorded = true)

/-- The reservation a container was started on, as it is recorded. -/
structure Backs (held : MemoryAsk) (start : Start) : Prop where
  container : held.container = start.ask.container
  memoryMib : held.memoryMib = start.ask.memoryMib
  purpose : held.purpose = start.ask.purpose
  owner : held.owner = start.ask.owner
  pid : held.pid = start.ask.pid
  unrecorded : held.purpose = .turn → start.recorded = false → held.started = none
  recorded : held.purpose = .turn → start.recorded = true →
    ∃ marked, held.started = some marked ∧ start.at_ ≤ marked

structure Safe (machineMib : Nat) (host : Host) : Prop where
  named : ∀ running ∈ host.containers.items, ∀ held ∈ host.reservations.items,
    held.container = running.name → running.weight machineMib ≤ held.memoryMib
  fits : taken machineMib host.containers host.reservations ≤ budget machineMib host.relays
  backed : ∀ start ∈ host.starting, host.MayAppear start →
    ∃ held ∈ host.reservations.items, Backs held start

/-- The reservation of a start whose container may still come holds. -/
theorem MayAppear.holds {host : Host} {start : Start} {held : MemoryAsk} {now : Int}
    (may : host.MayAppear start) (backs : Backs held start) (past : now ≤ host.now) :
    host.holds now held = true := by
  unfold Host.holds reservationHeld
  rw [backs.owner, may.ownerHeld, backs.pid]
  simp only [Bool.not_true, Bool.false_eq_true, if_false]
  cases purpose : held.purpose with
  | verification =>
    rcases may.supported with alive | ⟨turn, _⟩
    · exact alive
    · rw [← backs.purpose, purpose] at turn
      cases turn
  | turn =>
    cases isRecorded : start.recorded with
    | false =>
      rw [backs.unrecorded purpose isRecorded]
      rcases may.supported with alive | ⟨_, recorded⟩
      · exact alive
      · rw [isRecorded] at recorded
        cases recorded
    | true =>
      obtain ⟨marked, isMarked, after⟩ := backs.recorded purpose isRecorded
      rw [isMarked]
      have inGrace := may.inGrace
      have within : now - marked < startGraceSecs := by omega
      simp only [within, decide_true, Bool.or_true]

/-! ### What each step keeps -/

/-- Time went on, and who is over stays so. -/
structure Later (before after : Host) : Prop where
  now : before.now ≤ after.now
  pidAlive : ∀ pid, after.pidAlive pid = true → before.pidAlive pid = true
  ownerHeld : ∀ owner, after.ownerHeld owner = true → before.ownerHeld owner = true

theorem Later.of_same {before after : Host} (now : after.now = before.now)
    (deadPids : after.deadPids = before.deadPids)
    (endedRuns : after.endedRuns = before.endedRuns) : Later before after := by
  have pidAlive : ∀ pid, after.pidAlive pid = before.pidAlive pid := fun pid => by
    unfold Host.pidAlive
    rw [deadPids]
  refine ⟨le_of_eq now.symm, fun pid alive => (pidAlive pid).symm.trans alive,
    fun owner held => ?_⟩
  rw [← held]
  cases owner with
  | process pid => exact (pidAlive pid).symm
  | run db run =>
    show (!before.endedRuns.contains _) = (!after.endedRuns.contains _)
    rw [endedRuns]

theorem tryReserve_same (machineMib : Nat) (host : Host) (ask : MemoryAsk) (now : Int)
    (unreadable : Option String) :
    (host.tryReserve machineMib ask now unreadable).1.now = host.now ∧
      (host.tryReserve machineMib ask now unreadable).1.deadPids = host.deadPids ∧
      (host.tryReserve machineMib ask now unreadable).1.endedRuns = host.endedRuns := by
  have waits : ∀ (host : Host) (ask : MemoryAsk), (host.wait ask).now = host.now ∧
      (host.wait ask).deadPids = host.deadPids ∧ (host.wait ask).endedRuns = host.endedRuns := by
    intro host ask
    unfold Host.wait
    split <;> exact ⟨rfl, rfl, rfl⟩
  unfold Host.tryReserve
  cases unreadable with
  | some error => exact waits host _
  | none =>
    simp only
    split
    · exact ⟨rfl, rfl, rfl⟩
    · exact waits _ _
    · exact ⟨rfl, rfl, rfl⟩

theorem later_act {machineMib : Nat} {host : Host} {action : HostAction}
    (allowed : host.Allowed action) : Later host (host.act machineMib action) := by
  cases action with
  | tryReserve ask now unreadable =>
    obtain ⟨sameNow, sameDead, sameEnded⟩ := tryReserve_same machineMib host ask now unreadable
    exact Later.of_same sameNow sameDead sameEnded
  | markStarted container now =>
    simp only [act, Host.markStarted]
    split <;> exact Later.of_same rfl rfl rfl
  | processDies pid =>
    have pidAlive : ∀ other, (host.act machineMib (.processDies pid)).pidAlive other = true →
        host.pidAlive other = true := by
      intro other alive
      have notDead : (pid :: host.deadPids).contains other = false := by
        rw [← Bool.not_eq_true']
        exact alive
      rw [List.contains_cons, Bool.or_eq_false_iff] at notDead
      show (!host.deadPids.contains other) = true
      rw [notDead.2]
      rfl
    refine ⟨le_rfl, pidAlive, fun owner held => ?_⟩
    cases owner with
    | process other => exact pidAlive other held
    | run db run => exact held
  | runEnds ended =>
    refine ⟨le_rfl, fun _ alive => alive, fun owner held => ?_⟩
    cases owner with
    | process other => exact held
    | run db run =>
      have notEnded : (ended :: host.endedRuns).contains (LeaseOwner.run db run) = false := by
        rw [← Bool.not_eq_true']
        exact held
      rw [List.contains_cons, Bool.or_eq_false_iff] at notEnded
      show (!host.endedRuns.contains _) = true
      rw [notEnded.2]
      rfl
  | tick now =>
    exact ⟨allowed, fun _ alive => alive, fun owner held => by cases owner <;> exact held⟩
  | releaseMemory | start | appear | fail | leave => exact Later.of_same rfl rfl rfl

theorem MayAppear.before {before after : Host} {start : Start} (may : after.MayAppear start)
    (later : Later before after) : before.MayAppear start :=
  ⟨lt_of_le_of_lt later.now may.inGrace, later.ownerHeld _ may.ownerHeld,
    may.supported.imp (later.pidAlive _) id⟩

variable {machineMib : Nat} {host : Host}

/-- A step that leaves the reservations, the containers and the starts, but for starts given up. -/
theorem Safe.later {after : Host} (safe : host.Safe machineMib) (later : Later host after)
    (reservations : after.reservations = host.reservations)
    (containers : after.containers = host.containers)
    (starting : ∀ start ∈ after.starting, start ∈ host.starting) : after.Safe machineMib := by
  refine ⟨?_, ?_, fun start member may => ?_⟩
  · rw [containers, reservations]
    exact safe.named
  · unfold relays
    rw [containers, reservations]
    exact safe.fits
  · rw [reservations]
    exact safe.backed start (starting start member) (may.before later)

/-- Reservations are forgotten, none of a container that may still come. -/
theorem Safe.keep {after : Host} (safe : host.Safe machineMib) (later : Later host after)
    (kept : MemoryAsk → Bool) (reservations : after.reservations = host.reservations.keep kept)
    (containers : after.containers = host.containers) (starting : after.starting = host.starting)
    (backing : ∀ start ∈ host.starting, host.MayAppear start → ∀ held, Backs held start →
      kept held = true) : after.Safe machineMib := by
  refine ⟨fun running present held recorded => ?_, ?_, fun start member may => ?_⟩
  · rw [containers] at present
    rw [reservations] at recorded
    exact safe.named running present held (Keyed.mem_keep.mp recorded).1
  · unfold relays
    rw [containers, reservations]
    exact (taken_keep_le machineMib _ _ kept safe.named).trans safe.fits
  · rw [starting] at member
    have mayBefore := may.before later
    obtain ⟨held, recorded, backs⟩ := safe.backed start member mayBefore
    rw [reservations]
    exact ⟨held, Keyed.mem_keep.mpr ⟨recorded, backing start member mayBefore held backs⟩, backs⟩

theorem Safe.standing (safe : host.Safe machineMib) {now : Int} (past : now ≤ host.now) :
    (host.standing now).Safe machineMib :=
  safe.keep (Later.of_same rfl rfl rfl) (host.holds now) rfl rfl rfl
    fun _ _ may _ backs => may.holds backs past

theorem Safe.releaseMemory (safe : host.Safe machineMib) {container : String}
    (still : ¬ host.isStarting container) : (host.releaseMemory container).Safe machineMib := by
  refine safe.keep (Later.of_same rfl rfl rfl) (fun held => held.container ≠ container) rfl rfl rfl
    fun start member _ held backs => decide_eq_true fun same => ?_
  exact still ⟨start, member, backs.container.symm.trans same⟩

/-- A reservation the judgement let through. -/
theorem Safe.reserve (safe : host.Safe machineMib) {ask : MemoryAsk}
    (still : ¬ host.isStarting ask.container)
    (noLess : ∀ running ∈ host.containers.items, running.name = ask.container →
      running.memoryMib.getD machineMib ≤ ask.memoryMib)
    (fits : used machineMib host.containers.items host.reservations.items (some ask.container) +
      ask.memoryMib ≤ budget machineMib host.relays) : (host.reserve ask).Safe machineMib := by
  refine ⟨fun running present held recorded named => ?_, ?_, fun start member may => ?_⟩
  · rcases Keyed.mem_put.mp recorded with same | ⟨inside, _⟩
    · have own := noLess running present (named.symm.trans (congrArg MemoryAsk.container same))
      rw [same]
      unfold MachineContainer.weight
      split
      · exact Nat.zero_le _
      · exact own
    · exact safe.named running present held inside named
  · show taken machineMib host.containers (host.reservations.put ask) ≤ _
    rw [taken_put]
    exact fits
  · obtain ⟨held, recorded, backs⟩ := safe.backed start member
      (may.before (Later.of_same rfl rfl rfl))
    refine ⟨held, Keyed.mem_put.mpr (Or.inr ⟨recorded, fun same => ?_⟩), backs⟩
    exact still ⟨start, member, backs.container.symm.trans same⟩

theorem Safe.wait (safe : host.Safe machineMib) (ask : MemoryAsk) :
    (host.wait ask).Safe machineMib := by
  unfold Host.wait
  split
  · exact safe
  · exact safe.later (Later.of_same rfl rfl rfl) rfl rfl fun _ member => member

theorem Safe.tryReserve (safe : host.Safe machineMib) {ask : MemoryAsk} {now : Int}
    (unreadable : Option String) (past : now ≤ host.now) (still : ¬ host.isStarting ask.container)
    (noLess : ∀ running ∈ host.containers.items, running.name = ask.container →
      running.memoryMib.getD machineMib ≤ ask.memoryMib) :
    (host.tryReserve machineMib ask now unreadable).1.Safe machineMib := by
  unfold Host.tryReserve
  cases unreadable with
  | some error => exact safe.wait _
  | none =>
    have kept := safe.standing past
    simp only
    split
    · rename_i given
      exact kept.reserve still noLess (judge_reserve given).2
    · exact kept.wait _
    · exact kept.later (Later.of_same rfl rfl rfl) rfl rfl fun _ member => member

theorem Safe.start (safe : host.Safe machineMib) {held : MemoryAsk}
    (recorded : held ∈ host.reservations.items)
    (fresh : held.purpose = .turn → held.started = none) :
    (host.act machineMib (.start held)).Safe machineMib := by
  refine ⟨safe.named, safe.fits, fun start member may => ?_⟩
  rcases List.mem_append.mp member with old | new
  · exact safe.backed start old (may.before (Later.of_same rfl rfl rfl))
  · rw [List.mem_singleton.mp new]
    exact ⟨held, recorded, rfl, rfl, rfl, rfl, rfl, fun turn _ => fresh turn,
      fun _ isRecorded => (by cases isRecorded)⟩

theorem Safe.appear (safe : host.Safe machineMib) {start : Start}
    (member : start ∈ host.starting) (may : host.MayAppear start)
    (absent : host.onMachine start.ask.container = false) :
    (host.act machineMib (.appear start)).Safe machineMib := by
  obtain ⟨held, recorded, backs⟩ := safe.backed start member may
  let running : MachineContainer := ⟨start.ask.container, some start.ask.memoryMib, false⟩
  have sameRelays : relayCount (host.containers.put running).items = host.relays := by
    have kept : (host.containers.drop running.name).items = host.containers.items := by
      refine List.filter_eq_self.mpr fun other inside => decide_eq_true fun same => ?_
      exact List.any_eq_false.mp absent other inside (beq_iff_eq.mpr same)
    unfold Host.relays relayCount
    rw [show (host.containers.put running).items = running :: (host.containers.drop running.name).items
      from rfl, kept, List.filter_cons_of_neg Bool.false_ne_true]
  refine ⟨fun other present reservation inside named => ?_, ?_, fun other inside mayOther => ?_⟩
  · rcases Keyed.mem_put.mp present with same | ⟨old, _⟩
    · subst same
      rw [host.reservations.eq_of_key inside recorded (named.trans backs.container.symm)]
      exact le_of_eq backs.memoryMib.symm
    · exact safe.named other old reservation inside named
  · show taken machineMib (host.containers.put running) host.reservations ≤
      budget machineMib (relayCount (host.containers.put running).items)
    rw [sameRelays]
    exact (taken_put_container machineMib _ _ recorded backs.container).trans safe.fits
  · exact safe.backed other (List.mem_of_mem_erase inside)
      (mayOther.before (Later.of_same rfl rfl rfl))

theorem Safe.leave (safe : host.Safe machineMib) (name : String) :
    (host.act machineMib (.leave name)).Safe machineMib := by
  have fewer : relayCount (host.containers.drop name).items ≤ host.relays :=
    (List.filter_sublist.filter _).length_le
  refine ⟨fun running present => safe.named running (Keyed.mem_drop.mp present).1, ?_,
    fun start member may => safe.backed start member (may.before (Later.of_same rfl rfl rfl))⟩
  refine ((taken_drop_le machineMib _ _ name).trans safe.fits).trans ?_
  exact Nat.sub_le_sub_left (Nat.mul_le_mul_left relayMib fewer) (machineMib - baseMib)

theorem Safe.markStarted (safe : host.Safe machineMib) {container : String} {now : Int}
    (own : ∀ start ∈ host.starting, start.ask.container = container →
      start.at_ ≤ now ∧ host.pidAlive start.ask.pid = true) :
    (host.act machineMib (.markStarted container now)).Safe machineMib := by
  -- a start of the container is recorded by its process, so it may appear as it might before
  have before : ∀ start ∈ host.starting, ∀ after : Host,
      after.MayAppear (if start.ask.container = container then { start with recorded := true }
        else start) → Later host after → host.MayAppear start := by
    intro start member after may later
    split at may
    · rename_i same
      have mayRecorded := may.before later
      exact ⟨mayRecorded.inGrace, mayRecorded.ownerHeld, Or.inl (own start member same).2⟩
    · exact may.before later
  cases found : host.reservations.get? container with
  | none =>
    have absent := Keyed.get?_eq_none_iff.mp found
    simp only [act, Host.markStarted, found]
    refine ⟨safe.named, safe.fits, fun other member may => ?_⟩
    obtain ⟨start, inside, same⟩ := List.mem_map.mp member
    subst same
    have mayBefore := before start inside _ may (Later.of_same rfl rfl rfl)
    obtain ⟨held, recorded, backs⟩ := safe.backed start inside mayBefore
    have apart : start.ask.container ≠ container := fun same =>
      absent held recorded (backs.container.trans same)
    rw [if_neg apart]
    exact ⟨held, recorded, backs⟩
  | some marked =>
    obtain ⟨isRecorded, isContainer⟩ := Keyed.get?_eq_some_iff.mp found
    simp only [act, Host.markStarted, found]
    refine ⟨fun running present held recorded named => ?_, ?_, fun other member may => ?_⟩
    · rcases Keyed.mem_put.mp recorded with same | ⟨inside, _⟩
      · rw [same]
        exact safe.named running present marked isRecorded
          ((congrArg MemoryAsk.container same).symm.trans named)
      · exact safe.named running present held inside named
    · exact (taken_put_same machineMib _ _ isRecorded rfl rfl).trans safe.fits
    · obtain ⟨start, inside, same⟩ := List.mem_map.mp member
      subst same
      have mayBefore := before start inside _ may (Later.of_same rfl rfl rfl)
      obtain ⟨held, recorded, backs⟩ := safe.backed start inside mayBefore
      by_cases same : start.ask.container = container
      · rw [if_pos same]
        have isMarked : held = marked := host.reservations.eq_of_key recorded isRecorded
          ((backs.container.trans same).trans isContainer.symm)
        subst isMarked
        exact ⟨{ held with started := some now }, Keyed.mem_put.mpr (Or.inl rfl),
          backs.container, backs.memoryMib, backs.purpose, backs.owner, backs.pid,
          fun _ unrecorded => (by cases unrecorded),
          fun _ _ => ⟨now, rfl, (own start inside same).1⟩⟩
      · rw [if_neg same]
        refine ⟨held, Keyed.mem_put.mpr (Or.inr ⟨recorded, fun isSame => same ?_⟩), backs⟩
        exact (backs.container.symm.trans isSame).trans isContainer

theorem safe_step {after : Host} (safe : host.Safe machineMib)
    (next : OrderlyStep machineMib host after) : after.Safe machineMib := by
  obtain ⟨action, allowed, orderly, rfl⟩ := next
  cases action with
  | tryReserve ask now unreadable => exact safe.tryReserve unreadable allowed orderly.1 orderly.2
  | releaseMemory container => exact safe.releaseMemory orderly
  | start held => exact safe.start allowed.1 allowed.2.2
  | markStarted container now => exact safe.markStarted allowed.2
  | appear start => exact safe.appear allowed.1 ⟨allowed.2.1, orderly.1, orderly.2⟩ allowed.2.2
  | fail start =>
    exact safe.later (Later.of_same rfl rfl rfl) rfl rfl fun _ member => List.mem_of_mem_erase member
  | leave name => exact safe.leave name
  | processDies | runEnds | tick =>
    exact safe.later (later_act allowed) rfl rfl fun _ member => member

theorem safe_reached (reached : host.OrderlyReached machineMib) : host.Safe machineMib := by
  obtain ⟨relays, now, reached⟩ := reached
  refine reached.invariant (Safe machineMib) ⟨fun _ _ _ member => (by cases member), ?_,
    fun _ member => (by cases member)⟩ fun _ _ _ safe next => safe_step safe next
  have nothing : taken machineMib (relays.keep fun container => container.relay)
      (Keyed.empty : Keyed MemoryAsk.container) = 0 := by
    rw [← used_none]
    unfold used
    simp [Keyed.keep, Keyed.empty]
  show taken machineMib (relays.keep fun container => container.relay) Keyed.empty ≤ _
  rw [nothing]
  exact Nat.zero_le _

end Host

end Dagq.Memory
