/-
This file proves that the waits for the machine's memory are served in their
order: a try gives the memory to no ask while a wait that stands comes before
it, and a wait that stands keeps its record, so its place, through every try.
An orderly host keeps within its budget besides; one whose runs may end while
their containers come to the machine gives its memory twice.
-/

import Dagq.Memory.Budget

namespace Dagq.Memory

open Dagq.Lib

namespace Host

variable {machineMib : Nat} {host : Host}

/-- Memory is given past no wait that stands and comes before. -/
theorem tryReserve_reserved {ask : MemoryAsk} {now : Int} {unreadable : Option String}
    (given : (host.tryReserve machineMib ask now unreadable).2 = .reserved) :
    ∀ wait ∈ host.waits.items, host.waitStands wait = true → wait.container ≠ ask.container →
      order wait { ask with seq := nextSeq host.waits.items ask.container } ≠ .lt := by
  unfold Host.tryReserve at given
  cases unreadable with
  | some error => cases given
  | none =>
    simp only at given
    split at given
    · rename_i judged
      intro wait member stands other
      exact (judge_reserve judged).1 wait (Keyed.mem_keep.mpr ⟨member, stands⟩) other
    · cases given
    · cases given

/-! ### A wait keeps its record -/

theorem mem_wait {ask wait : MemoryAsk} (member : wait ∈ host.waits.items) :
    wait ∈ (host.wait ask).waits.items := by
  unfold Host.wait
  split
  · exact member
  · rename_i absent
    exact Keyed.mem_put.mpr (Or.inr ⟨member, Keyed.get?_eq_none_iff.mp absent wait member⟩)

/-- A try that does not end the wait keeps it. -/
theorem mem_tryReserve {ask wait : MemoryAsk} {now : Int} {unreadable : Option String}
    (member : wait ∈ host.waits.items) (stands : host.waitStands wait = true)
    (waits : ask.container = wait.container →
      ∃ why, (host.tryReserve machineMib ask now unreadable).2 = .wait why) :
    wait ∈ (host.tryReserve machineMib ask now unreadable).1.waits.items := by
  have kept : wait ∈ (host.standing now).waits.items := Keyed.mem_keep.mpr ⟨member, stands⟩
  unfold Host.tryReserve at waits ⊢
  cases unreadable with
  | some error => exact mem_wait member
  | none =>
    simp only at waits ⊢
    split at waits
    · refine Keyed.mem_drop.mpr ⟨kept, fun same => ?_⟩
      obtain ⟨why, absurd⟩ := waits same.symm
      cases absurd
    · exact mem_wait kept
    · refine Keyed.mem_drop.mpr ⟨kept, fun same => ?_⟩
      obtain ⟨why, absurd⟩ := waits same.symm
      cases absurd

theorem waitStands_before {before after : Host} (later : Later before after) {wait : MemoryAsk}
    (stands : after.waitStands wait = true) : before.waitStands wait = true := by
  obtain ⟨held, alive⟩ := Bool.and_eq_true_iff.mp stands
  exact Bool.and_eq_true_iff.mpr ⟨later.ownerHeld _ held, later.pidAlive _ alive⟩

theorem mem_waiting {after : Host} {wait : MemoryAsk} (member : wait ∈ host.waits.items)
    (stands : host.waitStands wait = true)
    (next : WaitingStep machineMib wait.container host after) : wait ∈ after.waits.items := by
  obtain ⟨action, allowed, waits, rfl⟩ := next
  cases action with
  | tryReserve ask now unreadable =>
    refine mem_tryReserve member stands fun same => ?_
    by_contra given
    exact waits ⟨same, fun why isWait => given ⟨why, isWait⟩⟩
  | releaseMemory container =>
    exact Keyed.mem_drop.mpr ⟨member, fun same => waits same.symm⟩
  | markStarted container now =>
    simp only [act, Host.markStarted]
    split
    · exact member
    · rename_i held found
      have named : held.container = container := (Keyed.get?_eq_some_iff.mp found).2
      exact Keyed.mem_drop.mpr ⟨member, fun same => waits (named.symm.trans same.symm)⟩
  | start | appear | fail | leave | processDies | runEnds | tick => exact member

/-- A wait that still stands after steps that do not end it has kept its record. -/
theorem mem_waiting_path {later : Host} {wait : MemoryAsk} (member : wait ∈ host.waits.items)
    (path : Relation.ReflTransGen (WaitingStep machineMib wait.container) host later)
    (stands : later.waitStands wait = true) : wait ∈ later.waits.items := by
  refine path_invariant path (fun host => host.waitStands wait = true → wait ∈ host.waits.items)
    (fun _ => member) (fun first second kept next still => ?_) stands
  obtain ⟨action, allowed, _, same⟩ := id next
  have before := waitStands_before (same ▸ later_act allowed) still
  exact mem_waiting (kept before) before next

theorem nextSeq_of_mem {wait : MemoryAsk} (member : wait ∈ host.waits.items) :
    nextSeq host.waits.items wait.container = wait.seq := by
  unfold nextSeq
  rw [show host.waits.items.find? _ = some wait from Keyed.get?_eq_some_iff.mpr ⟨member, rfl⟩]

end Host

/-- A turn's ask of the run `run`. -/
def turnAsk (run : String) (pid memoryMib : Nat) : MemoryAsk :=
  { container := "dagq-q-run-" ++ run, purpose := .turn, memoryMib, owner := .run "q" run, pid,
    since := 0 }

/-- A run that ends while its container comes to the machine: its reservation is forgotten, its
memory given again, and the container there all the same. -/
theorem memory_given_twice : ∃ host : Host, host.Reached 5120 ∧
    budget 5120 host.relays <
      used 5120 host.containers.items (host.standing host.now).reservations.items none := by
  let first := { turnAsk "r1" 1 4096 with seq := 1 }
  have idle : Reachable (Host.idle Keyed.empty 0) (HostStep 5120) _ := .start
  have reserved := idle.step ⟨.tryReserve (turnAsk "r1" 1 4096) 0 none, le_rfl, rfl⟩
  have started := reserved.step
    ⟨.start first, ⟨by decide +kernel, by decide +kernel, fun _ => rfl⟩, rfl⟩
  have recorded := started.step
    ⟨.markStarted first.container 0, ⟨le_rfl, by decide +kernel⟩, rfl⟩
  have ended := recorded.step ⟨.runEnds (.run "q" "r1"), trivial, rfl⟩
  have again := ended.step ⟨.tryReserve (turnAsk "r2" 2 4096) 0 none, le_rfl, rfl⟩
  have appeared := again.step ⟨.appear ⟨first, 0, true⟩,
    ⟨by decide +kernel, by decide +kernel, by decide +kernel⟩, rfl⟩
  exact ⟨_, ⟨Keyed.empty, 0, appeared⟩, by decide +kernel⟩

/-- A turn that asks for less than its container left on the machine has: the rest is given to
another, and is the container's still once the run ends. -/
theorem memory_given_twice_after_less : ∃ host : Host, host.Reached 5120 ∧
    budget 5120 host.relays <
      used 5120 host.containers.items (host.standing host.now).reservations.items none := by
  let first := { turnAsk "r1" 1 4096 with seq := 1 }
  have idle : Reachable (Host.idle Keyed.empty 0) (HostStep 5120) _ := .start
  have reserved := idle.step ⟨.tryReserve (turnAsk "r1" 1 4096) 0 none, le_rfl, rfl⟩
  have started := reserved.step
    ⟨.start first, ⟨by decide +kernel, by decide +kernel, fun _ => rfl⟩, rfl⟩
  have appeared := started.step ⟨.appear ⟨first, 0, false⟩,
    ⟨by decide +kernel, by decide +kernel, by decide +kernel⟩, rfl⟩
  have less := appeared.step ⟨.tryReserve (turnAsk "r1" 1 1024) 0 none, le_rfl, rfl⟩
  have other := less.step ⟨.tryReserve (turnAsk "r2" 2 3072) 0 none,
    (by decide +kernel : (0 : Int) ≤ Host.now _), rfl⟩
  have ended := other.step ⟨.runEnds (.run "q" "r1"), trivial, rfl⟩
  exact ⟨_, ⟨Keyed.empty, 0, ended⟩, by decide +kernel⟩

/-- What the held reservations of an orderly host and the containers none of them names take is
within the budget at any time. Of every host, however it was reached: a try gives the memory to no
ask while a wait that stands comes before it; and a wait that stands keeps its record, and its ask
its place, whatever is tried. -/
theorem memory_orderly (machineMib : Nat) (host : Host) :
    (host.OrderlyReached machineMib → ∀ now,
      used machineMib host.containers.items (host.standing now).reservations.items none ≤
        budget machineMib host.relays) ∧
    (∀ ask now unreadable, (host.tryReserve machineMib ask now unreadable).2 = .reserved →
      ∀ wait ∈ host.waits.items, host.waitStands wait = true → wait.container ≠ ask.container →
        ¬ (wait.purpose.rank < ask.purpose.rank ∨ (wait.purpose = ask.purpose ∧
          wait.seq < nextSeq host.waits.items ask.container))) ∧
    (∀ wait ∈ host.waits.items, ∀ later,
      Relation.ReflTransGen (WaitingStep machineMib wait.container) host later →
        later.waitStands wait = true → wait ∈ later.waits.items ∧
          nextSeq later.waits.items wait.container = wait.seq) := by
  refine ⟨fun reached now => ?_, fun ask now unreadable given wait member stands other before => ?_,
    fun wait member later path stands => ?_⟩
  · have safe := Host.safe_reached reached
    rw [used_none]
    exact (taken_keep_le machineMib _ _ (host.holds now) safe.named).trans safe.fits
  · exact Host.tryReserve_reserved given wait member stands other (order_lt before)
  · have kept := Host.mem_waiting_path member path stands
    exact ⟨kept, Host.nextSeq_of_mem kept⟩

/-- A turn that waits behind another keeps its place when it tries again. -/
theorem memory_orderly_waiting : ∃ host later : Host, host.OrderlyReached 5120 ∧
    (∃ wait ∈ host.waits.items, wait ∈ later.waits.items) ∧
    used 5120 host.containers.items (host.standing 0).reservations.items none ≤ 4096 := by
  let second := { turnAsk "r2" 2 4096 with seq := 1 }
  have idle : Reachable (Host.idle Keyed.empty 0) (OrderlyStep 5120) _ := .start
  have reserved := idle.step ⟨.tryReserve (turnAsk "r1" 1 4096) 0 none, le_rfl,
    ⟨fun starting => (by obtain ⟨_, member, _⟩ := starting; cases member),
      fun _ member => (by cases member)⟩, rfl⟩
  have waits := reserved.step ⟨.tryReserve (turnAsk "r2" 2 4096) 0 none, le_rfl,
    ⟨fun starting => (by obtain ⟨_, member, _⟩ := starting; cases member),
      fun _ member => (by cases member)⟩, rfl⟩
  have reached : Host.OrderlyReached 5120 _ := ⟨Keyed.empty, 0, waits⟩
  have orderly {host : Host} (_ : host.OrderlyReached 5120) := memory_orderly 5120 host
  refine ⟨_, _, reached, ⟨second, by decide +kernel, ((orderly reached).2.2 second
    (by decide +kernel) _ (.single ⟨.tryReserve (turnAsk "r2" 2 4096) 0 none,
      (by decide +kernel : (0 : Int) ≤ Host.now _), fun ends => ?_, rfl⟩)
      (by decide +kernel)).1⟩, (orderly reached).1 reached 0⟩
  exact ends.2 _ rfl

end Dagq.Memory
