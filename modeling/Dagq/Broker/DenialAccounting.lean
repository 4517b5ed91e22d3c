/-
This file proves what the limiter of the broker's refusals promises over every
run of its calls: no refusal is lost or counted twice, a key records at most
`limit` refusals in one of its windows, and the windows held stay bounded in
each pool and for each token run.

The accounting is an equation each call keeps, with no condition on the times.
The bound on the records of a window needs the times in order: a window that is
renewed or forgotten is past its end, so that no later record falls into it.
-/

import Dagq.Broker.DenialLimiter

namespace Dagq.Broker

open Dagq.Lib

/-! ### What a refusal does -/

namespace DenialLimiter

/-- The five outcomes of a refusal, with the limiter after it. -/
inductive AdmitDenial (limits : DenialLimits) (limiter : DenialLimiter) (key : DenialKey)
    (now : Nat) : DenialLimiter × DenialStep → Prop where
  | overflowed (absent : limiter.windows.get? key = none) (full : limiter.full key limits = true) :
      AdmitDenial limits limiter key now
        ({ limiter with overflow := limiter.overflowed key.code key.tokenRun now }, .suppress)
  | opened (absent : limiter.windows.get? key = none) (room : limiter.full key limits = false) :
      AdmitDenial limits limiter key now
        ({ limiter with windows := limiter.windows.insert key ⟨now, 1, 0⟩ }, .record 0)
  | renewed (current : DenialWindow) (held : limiter.windows.get? key = some current)
      (past : inWindow (now - current.opened) limits.window = false) :
      AdmitDenial limits limiter key now
        ({ limiter with windows := limiter.windows.insert key ⟨now, 1, 0⟩ },
          .record current.suppressed)
  | recorded (current : DenialWindow) (held : limiter.windows.get? key = some current)
      (standing : inWindow (now - current.opened) limits.window = true)
      (room : current.recorded < limits.limit) :
      AdmitDenial limits limiter key now
        ({ limiter with
            windows := limiter.windows.insert key
              { current with recorded := current.recorded + 1 } }, .record 0)
  | counted (current : DenialWindow) (held : limiter.windows.get? key = some current)
      (standing : inWindow (now - current.opened) limits.window = true)
      (spent : limits.limit ≤ current.recorded) :
      AdmitDenial limits limiter key now
        ({ limiter with
            windows := limiter.windows.insert key
              { current with suppressed := current.suppressed + 1 } }, .suppress)

theorem admitDenial_spec (limiter : DenialLimiter) (key : DenialKey) (now : Nat)
    (limits : DenialLimits) :
    AdmitDenial limits limiter key now (limiter.admitDenial key now limits) := by
  unfold admitDenial
  cases held : limiter.windows.get? key with
  | none =>
    cases full : limiter.full key limits with
    | true => exact .overflowed held full
    | false => exact .opened held full
  | some current =>
    cases standing : inWindow (now - current.opened) limits.window with
    | false =>
      simp only [standing, Bool.not_false, if_true]
      exact .renewed current held standing
    | true =>
      by_cases room : current.recorded < limits.limit
      · simp only [standing, Bool.not_true, Bool.false_eq_true, if_false, room, if_true]
        exact .recorded current held standing room
      · simp only [standing, Bool.not_true, Bool.false_eq_true, if_false, room]
        exact .counted current held standing (Nat.le_of_not_lt room)

/-! ### One call keeps the account -/

/-- The refusals an answer accounts for. -/
def accounted (answer : DenialAnswer) : Nat := answer.records + answer.carried + answer.returned

@[simp] theorem accounted_record (suppressed : Nat) :
    accounted (.step (.record suppressed)) = 1 + suppressed := rfl

@[simp] theorem accounted_suppress : accounted (.step .suppress) = 0 := rfl

@[simp] theorem accounted_counts (counts : List DenialCount) :
    accounted (.counts counts) = (counts.map DenialCount.suppressed).sum := by
  simp [accounted, DenialAnswer.records, DenialAnswer.carried, DenialAnswer.returned]

theorem held_overflowed (limiter : DenialLimiter) (code : String) (tokenRun : Option String)
    (now : Nat) :
    ((limiter.overflowed code tokenRun now).sum fun _ current => current.suppressed) =
      (limiter.overflow.sum fun _ current => current.suppressed) + 1 := by
  unfold overflowed
  cases open_ : limiter.overflow.get? (code, tokenRun) with
  | none =>
    rw [Table.sum_insert_of_get?_eq_none _ _ _ _ open_]
    simp only [Option.getD_none]
    omega
  | some current =>
    have exchanged := Table.sum_insert_of_get?_eq_some limiter.overflow
      (fun _ current => current.suppressed) _ current
      { current with suppressed := current.suppressed + 1 } open_
    simp only [Option.getD_some] at exchanged ⊢
    omega

/-- A refusal is recorded, or counted in what is held. -/
theorem admitDenial_accounted (limiter : DenialLimiter) (key : DenialKey) (now : Nat)
    (limits : DenialLimits) :
    (limiter.admitDenial key now limits).1.held +
        accounted (.step (limiter.admitDenial key now limits).2) =
      limiter.held + 1 := by
  have fresh := Table.sum_insert_of_get?_eq_none limiter.windows
    (fun _ current => current.suppressed) key
  have exchanged := Table.sum_insert_of_get?_eq_some limiter.windows
    (fun _ current => current.suppressed) key
  generalize admitted : limiter.admitDenial key now limits = result
  have outcome := admitted ▸ limiter.admitDenial_spec key now limits
  cases outcome with
  | overflowed absent full =>
    simp only [held, accounted_suppress, held_overflowed]
    omega
  | opened absent room =>
    have sums := fresh ⟨now, 1, 0⟩ absent
    simp only [held, accounted_record] at sums ⊢
    omega
  | renewed current inside past =>
    have sums := exchanged current ⟨now, 1, 0⟩ inside
    simp only [held, accounted_record] at sums ⊢
    omega
  | recorded current inside standing room =>
    have sums := exchanged current { current with recorded := current.recorded + 1 } inside
    simp only [held, accounted_record] at sums ⊢
    omega
  | counted current inside standing spent =>
    have sums := exchanged current { current with suppressed := current.suppressed + 1 } inside
    simp only [held, accounted_suppress] at sums ⊢
    omega

/-- The counts of the keys' windows that ended are what those windows held: a window without a
count reports none. -/
theorem sum_keyCounts (entries : List (DenialKey × DenialWindow)) :
    ((entries.filterMap fun entry =>
        if entry.2.suppressed > 0 then
          some (DenialCount.key entry.1 entry.2.suppressed) else none).map
      DenialCount.suppressed).sum = (entries.map fun entry => entry.2.suppressed).sum := by
  induction entries with
  | nil => rfl
  | cons entry rest inductionHypothesis =>
    by_cases counted : entry.2.suppressed > 0
    · rw [List.filterMap_cons_some (by rw [if_pos counted]), List.map_cons, List.sum_cons,
        List.map_cons, List.sum_cons, inductionHypothesis]
      rfl
    · rw [List.filterMap_cons_none (by rw [if_neg counted]), List.map_cons, List.sum_cons,
        inductionHypothesis]
      omega

/-- What the windows that ended counted leaves the limiter with their counts. -/
theorem ended_accounted (limiter : DenialLimiter) (now : Nat) (limits : DenialLimits) :
    (limiter.ended now limits).1.held + accounted (.counts (limiter.ended now limits).2) =
      limiter.held := by
  have windows := Table.sum_retain_add limiter.windows (fun _ current => current.suppressed)
    fun _ current => stands limits.window now current
  have overflow := Table.sum_retain_add limiter.overflow (fun _ current => current.suppressed)
    fun _ current => stands limits.window now current
  have overflowCounts (entries : List ((String × Option String) × DenialWindow)) :
      (entries.map fun entry => DenialCount.overflow entry.1.1 entry.1.2 entry.2.suppressed).map
        DenialCount.suppressed = entries.map fun entry => entry.2.suppressed := by
    rw [List.map_map]
    rfl
  simp only [ended, held, accounted_counts, List.map_append, List.sum_append, sum_keyCounts,
    overflowCounts]
  omega

end DenialLimiter

theorem denialMachine_accounted (limits : DenialLimits) (limiter : DenialLimiter)
    (call : DenialCall) :
    ((denialMachine limits).step limiter call).1.held +
        DenialLimiter.accounted ((denialMachine limits).step limiter call).2 =
      limiter.held + call.refusals := by
  cases call with
  | admitDenial key now => exact limiter.admitDenial_accounted key now limits
  | ended now => exact limiter.ended_accounted now limits

/-! ### The account of a run -/

theorem sum_accounted (log : List DenialEntry) :
    (log.map fun entry => DenialLimiter.accounted entry.2).sum =
      records log + carried log + returned log := by
  simp only [DenialLimiter.accounted, List.sum_map_add, records, carried, returned]

/-- Every refusal of a run is accounted for exactly once. -/
theorem refusals_eq (limits : DenialLimits) (calls : List DenialCall) :
    let run := (denialMachine limits).run DenialLimiter.default calls
    refusals run.log = records run.log + carried run.log + returned run.log + run.state.held := by
  intro run
  rw [← sum_accounted]
  refine (denialMachine limits).run_induction DenialLimiter.default
    (fun _ run => refusals run.log =
      (run.log.map fun entry => DenialLimiter.accounted entry.2).sum + run.state.held)
    rfl (fun _ call run account => ?_) calls
  have one := denialMachine_accounted limits run.state call
  simp only [Machine.follow, refusals, List.map_append, List.sum_append,
    List.map_cons, List.map_nil, List.sum_cons, List.sum_nil] at account one ⊢
  omega

/-! ### The windows held stay bounded -/

/-- The windows a limiter may hold: `keys` of each pool, `perTokenRun` of one token run. -/
structure DenialLimiter.Bounded (limits : DenialLimits) (limiter : DenialLimiter) : Prop where
  pool : ∀ pool, (limiter.windows.count fun key => key.withTokenRun == pool) ≤ limits.keys
  tokenRun : ∀ run,
    (limiter.windows.count fun key => key.tokenRun == some run) ≤ limits.perTokenRun

namespace DenialLimiter

theorem full_eq_false_iff (limiter : DenialLimiter) (key : DenialKey) (limits : DenialLimits) :
    limiter.full key limits = false ↔
      (limiter.windows.count fun held => held.withTokenRun == key.withTokenRun) < limits.keys ∧
        (key.withTokenRun = true →
          (limiter.windows.count fun held => held.tokenRun == key.tokenRun) <
            limits.perTokenRun) := by
  simp only [full, Bool.or_eq_false_iff, decide_eq_false_iff_not, Bool.and_eq_false_iff, not_le,
    ge_iff_le, imp_iff_not_or, Bool.not_eq_true]

/-- A key gets a window only while its pool and its token run have room. -/
theorem Bounded.insert_absent {limits : DenialLimits} {limiter : DenialLimiter}
    (bounded : limiter.Bounded limits) (key : DenialKey) (current : DenialWindow)
    (absent : limiter.windows.get? key = none) (room : limiter.full key limits = false) :
    Bounded limits { limiter with windows := limiter.windows.insert key current } := by
  obtain ⟨poolRoom, tokenRoom⟩ := (full_eq_false_iff limiter key limits).mp room
  constructor
  · intro pool
    rw [Table.count_insert_of_get?_eq_none _ _ _ _ absent]
    by_cases same : key.withTokenRun = pool
    · subst same
      simpa [Nat.succ_le_iff] using poolRoom
    · simpa [same] using bounded.pool pool
  · intro run
    rw [Table.count_insert_of_get?_eq_none _ _ _ _ absent]
    by_cases same : key.tokenRun = some run
    · have inside := tokenRoom (by rw [DenialKey.withTokenRun, same, Option.isSome_some])
      rw [same] at inside
      simpa [same, Nat.succ_le_iff] using inside
    · simpa [same] using bounded.tokenRun run

theorem Bounded.insert_held {limits : DenialLimits} {limiter : DenialLimiter}
    (bounded : limiter.Bounded limits) (key : DenialKey) (old current : DenialWindow)
    (held : limiter.windows.get? key = some old) :
    Bounded limits { limiter with windows := limiter.windows.insert key current } := by
  constructor
  · intro pool
    rw [Table.count_insert_of_get?_eq_some _ _ _ _ _ held]
    exact bounded.pool pool
  · intro run
    rw [Table.count_insert_of_get?_eq_some _ _ _ _ _ held]
    exact bounded.tokenRun run

theorem Bounded.step {limits : DenialLimits} {limiter : DenialLimiter}
    (bounded : limiter.Bounded limits) (call : DenialCall) :
    Bounded limits ((denialMachine limits).step limiter call).1 := by
  cases call with
  | admitDenial key now =>
    show Bounded limits (limiter.admitDenial key now limits).1
    generalize admitted : limiter.admitDenial key now limits = result
    have outcome := admitted ▸ limiter.admitDenial_spec key now limits
    cases outcome with
    | overflowed absent full => exact ⟨bounded.pool, bounded.tokenRun⟩
    | opened absent room => exact bounded.insert_absent key _ absent room
    | renewed current held past => exact bounded.insert_held key current _ held
    | recorded current held standing room => exact bounded.insert_held key current _ held
    | counted current held standing spent => exact bounded.insert_held key current _ held
  | ended now =>
    exact ⟨fun pool => (Table.count_retain_le _ _ _).trans (bounded.pool pool),
      fun run => (Table.count_retain_le _ _ _).trans (bounded.tokenRun run)⟩

end DenialLimiter

theorem denialMachine_bounded (limits : DenialLimits) (calls : List DenialCall) :
    ((denialMachine limits).run DenialLimiter.default calls).state.Bounded limits :=
  (denialMachine limits).run_induction DenialLimiter.default
    (fun _ run => run.state.Bounded limits)
    ⟨fun _ => Nat.zero_le _, fun _ => Nat.zero_le _⟩
    (fun _ call _ bounded => bounded.step call) calls

/-! ### The records of one window -/

/-- The times of the window opened at `opened`. -/
def during (opened window time : Nat) : Bool :=
  decide (opened ≤ time) && inWindow (time - opened) window

theorem recordsOf_append_singleton (log : List DenialEntry) (entry : DenialEntry)
    (key : DenialKey) (times : Nat → Bool) :
    recordsOf (log ++ [entry]) key times =
      recordsOf log key times + if entry.recordsOf key times then 1 else 0 := by
  rw [recordsOf, List.countP_append, List.countP_singleton]
  rfl

/-- What is known of one key after a run: the window it holds has as many records in its time as
it counts, at most `limit`; and the times of its records are in the window it holds, or passed. -/
structure Recorded (limits : DenialLimits) (key : DenialKey) (calls : List DenialCall)
    (run : Machine.Run DenialLimiter DenialCall DenialAnswer) : Prop where
  counted : ∀ current, run.state.windows.get? key = some current →
    recordsOf run.log key (during current.opened limits.window) ≤ current.recorded ∧
      current.recorded ≤ limits.limit
  recent : 0 < limits.window → ∀ time, 0 < recordsOf run.log key (fun other => other == time) →
    (∃ current, run.state.windows.get? key = some current ∧
        inWindow (time - current.opened) limits.window = true) ∨
      ∃ call ∈ calls, time < call.now

/-- A window that opens at `now` finds no record of its key in its time: such a record was made
at `now` itself, so the window it was made in still stands. -/
theorem Recorded.none_in_opened {limits : DenialLimits} {key : DenialKey}
    {calls : List DenialCall} {run : Machine.Run DenialLimiter DenialCall DenialAnswer}
    (recorded : Recorded limits key calls run) (now : Nat)
    (ordered : ∀ call ∈ calls, call.now ≤ now)
    (logged : run.log.map Prod.fst = calls)
    (past : ∀ current, run.state.windows.get? key = some current →
      inWindow (now - current.opened) limits.window = false) :
    recordsOf run.log key (during now limits.window) = 0 := by
  by_contra some_record
  obtain ⟨entry, member, counts⟩ := List.countP_pos_iff.mp (Nat.pos_of_ne_zero some_record)
  obtain ⟨call, answer⟩ := entry
  rcases call with ⟨admitted, time⟩ | time
  · rcases answer with (suppressed | _) | counts'
    · simp only [DenialEntry.recordsOf, during, inWindow, Bool.and_eq_true, decide_eq_true_eq]
        at counts
      obtain ⟨same, later, inside⟩ := counts
      have called : DenialCall.admitDenial admitted time ∈ calls :=
        logged ▸ List.mem_map.mpr ⟨_, member, rfl⟩
      have earlier : time ≤ now := ordered _ called
      have time_eq : time = now := Nat.le_antisymm earlier later
      subst same time_eq
      have made : 0 < recordsOf run.log admitted (fun other => other == time) :=
        List.countP_pos_iff.mpr ⟨_, member, by simp [DenialEntry.recordsOf]⟩
      rcases recorded.recent (by omega) time made with ⟨current, held, standing⟩ | ⟨call, inCalls, passed⟩
      · rw [past current held] at standing
        cases standing
      · have bound := ordered call inCalls
        omega
    · cases counts
    · cases counts
  · cases counts

/-- A key that is not the one refused keeps its window. -/
theorem admitDenial_get?_of_ne (limiter : DenialLimiter) (limits : DenialLimits)
    (key other : DenialKey) (now : Nat) (different : other ≠ key) :
    (limiter.admitDenial key now limits).1.windows.get? other = limiter.windows.get? other := by
  generalize admitted : limiter.admitDenial key now limits = result
  have outcome := admitted ▸ limiter.admitDenial_spec key now limits
  cases outcome <;> simp only [Table.get?_insert_of_ne _ _ different]

theorem recordsOf_record (key : DenialKey) (now suppressed : Nat) (times : Nat → Bool) :
    DenialEntry.recordsOf key times (.admitDenial key now, .step (.record suppressed)) =
      times now := by
  simp [DenialEntry.recordsOf]

theorem recordsOf_suppress (key admitted : DenialKey) (now : Nat) (times : Nat → Bool) :
    DenialEntry.recordsOf key times (.admitDenial admitted now, .step .suppress) = false := rfl

theorem recordsOf_other (key admitted : DenialKey) (now : Nat) (step : DenialStep)
    (times : Nat → Bool) (different : key ≠ admitted) :
    DenialEntry.recordsOf key times (.admitDenial admitted now, .step step) = false := by
  cases step with
  | record suppressed => simp [DenialEntry.recordsOf, Ne.symm different]
  | suppress => rfl

section RecordedStep

variable {limits : DenialLimits} {key : DenialKey} {calls : List DenialCall}
  {run : Machine.Run DenialLimiter DenialCall DenialAnswer}

/-- A call that neither records the key nor changes its window keeps what is known of it. -/
theorem Recorded.unchanged (recorded : Recorded limits key calls run) (call : DenialCall)
    (limiter : DenialLimiter) (answer : DenialAnswer)
    (same : limiter.windows.get? key = run.state.windows.get? key)
    (quiet : ∀ times, DenialEntry.recordsOf key times (call, answer) = false) :
    Recorded limits key (calls ++ [call]) ⟨limiter, run.log ++ [(call, answer)]⟩ := by
  constructor
  · intro current held
    rw [same] at held
    simpa [recordsOf_append_singleton, quiet] using recorded.counted current held
  · intro wide time made
    rw [recordsOf_append_singleton, quiet] at made
    rcases recorded.recent wide time (by simpa using made) with held | ⟨call', inCalls, passed⟩
    · exact Or.inl (same ▸ held)
    · exact Or.inr ⟨call', List.mem_append_left _ inCalls, passed⟩

/-- A record at `now` of a key whose window then is `next`, where the window held before, if any,
opened when `next` did or was past. -/
theorem Recorded.record (recorded : Recorded limits key calls run) (now suppressed : Nat)
    (next : DenialWindow)
    (standing : 0 < limits.window → inWindow (now - next.opened) limits.window = true)
    (limit : next.recorded ≤ limits.limit)
    (count : recordsOf run.log key (during next.opened limits.window) + 1 ≤ next.recorded)
    (kept : ∀ current, run.state.windows.get? key = some current →
      current.opened = next.opened ∨ inWindow (now - current.opened) limits.window = false) :
    Recorded limits key (calls ++ [.admitDenial key now])
      ⟨{ run.state with windows := run.state.windows.insert key next },
        run.log ++ [(.admitDenial key now, .step (.record suppressed))]⟩ := by
  constructor
  · intro current held
    rw [Table.get?_insert_self] at held
    cases held
    rw [recordsOf_append_singleton, recordsOf_record]
    refine ⟨?_, limit⟩
    split <;> omega
  · intro wide time made
    rw [Table.get?_insert_self]
    rw [recordsOf_append_singleton, recordsOf_record] at made
    by_cases at_now : now = time
    · subst at_now
      exact Or.inl ⟨next, rfl, standing wide⟩
    · have before : 0 < recordsOf run.log key (fun other => other == time) := by
        simpa [at_now] using made
      rcases recorded.recent wide time before with ⟨current, held, inside⟩ | ⟨call, inCalls, passed⟩
      · rcases kept current held with same | past
        · exact Or.inl ⟨next, rfl, same ▸ inside⟩
        · refine Or.inr ⟨.admitDenial key now, by simp, ?_⟩
          simp only [inWindow, decide_eq_true_eq, decide_eq_false_iff_not, not_lt] at inside past
          show time < now
          omega
      · exact Or.inr ⟨call, List.mem_append_left _ inCalls, passed⟩

theorem Recorded.admitDenial (recorded : Recorded limits key calls run) (limit : 1 ≤ limits.limit)
    (admitted : DenialKey) (now : Nat) (ordered : ∀ call ∈ calls, call.now ≤ now)
    (logged : run.log.map Prod.fst = calls) :
    Recorded limits key (calls ++ [.admitDenial admitted now])
      ((denialMachine limits).follow run (.admitDenial admitted now)) := by
  by_cases different : key ≠ admitted
  · exact recorded.unchanged _ _ _ (admitDenial_get?_of_ne run.state limits admitted key now different)
      fun times => recordsOf_other key admitted now _ times different
  have same : key = admitted := not_not.mp different
  subst same
  show Recorded limits key (calls ++ [.admitDenial key now])
    ⟨(run.state.admitDenial key now limits).1,
      run.log ++ [(.admitDenial key now, .step (run.state.admitDenial key now limits).2)]⟩
  generalize step_eq : run.state.admitDenial key now limits = result
  have outcome := step_eq ▸ run.state.admitDenial_spec key now limits
  have opening (past : ∀ current, run.state.windows.get? key = some current →
      inWindow (now - current.opened) limits.window = false) (suppressed : Nat) :
      Recorded limits key (calls ++ [.admitDenial key now])
        ⟨{ run.state with windows := run.state.windows.insert key ⟨now, 1, 0⟩ },
          run.log ++ [(.admitDenial key now, .step (.record suppressed))]⟩ := by
    refine recorded.record now suppressed ⟨now, 1, 0⟩ (fun wide => ?_) limit ?_
      fun current held => Or.inr (past current held)
    · simpa [inWindow] using wide
    · rw [recorded.none_in_opened now ordered logged past]
  cases outcome with
  | overflowed absent full =>
    exact recorded.unchanged _ _ _ rfl fun times => recordsOf_suppress key key now times
  | opened absent room =>
    exact opening (fun current held => by rw [absent] at held; cases held) 0
  | renewed current held past =>
    refine opening (fun other also => ?_) current.suppressed
    rw [held] at also
    cases also
    exact past
  | recorded current held standing room =>
    refine recorded.record now 0 { current with recorded := current.recorded + 1 }
      (fun _ => standing) room ?_ fun other also => ?_
    · exact Nat.succ_le_succ (recorded.counted current held).1
    · rw [held] at also
      cases also
      exact Or.inl rfl
  | counted current held standing spent =>
    constructor
    · intro next heldNext
      rw [Table.get?_insert_self] at heldNext
      cases heldNext
      simpa [recordsOf_append_singleton, recordsOf_suppress] using recorded.counted current held
    · intro wide time made
      rw [recordsOf_append_singleton, recordsOf_suppress] at made
      rw [Table.get?_insert_self]
      rcases recorded.recent wide time (by simpa using made) with
        ⟨other, also, inside⟩ | ⟨call, inCalls, passed⟩
      · rw [held] at also
        cases also
        exact Or.inl ⟨_, rfl, inside⟩
      · exact Or.inr ⟨call, List.mem_append_left _ inCalls, passed⟩

theorem Recorded.ended (recorded : Recorded limits key calls run) (now : Nat) :
    Recorded limits key (calls ++ [.ended now])
      ((denialMachine limits).follow run (.ended now)) := by
  show Recorded limits key (calls ++ [.ended now])
    ⟨(run.state.ended now limits).1, run.log ++ [(.ended now, .counts (run.state.ended now limits).2)]⟩
  constructor
  · intro current held
    have before := ((Table.get?_retain_eq_some_iff _ _ _ _).mp held).1
    rw [recordsOf_append_singleton]
    simpa [DenialEntry.recordsOf] using recorded.counted current before
  · intro wide time made
    rw [recordsOf_append_singleton] at made
    rcases recorded.recent wide time (by simpa [DenialEntry.recordsOf] using made) with
      ⟨current, held, inside⟩ | ⟨call, inCalls, passed⟩
    · by_cases stands : DenialLimiter.stands limits.window now current = true
      · exact Or.inl ⟨current, (Table.get?_retain_eq_some_iff _ _ _ _).mpr ⟨held, stands⟩, inside⟩
      · refine Or.inr ⟨.ended now, by simp, ?_⟩
        simp only [DenialLimiter.stands, inWindow, decide_eq_true_eq, not_lt] at inside stands
        show time < now
        omega
    · exact Or.inr ⟨call, List.mem_append_left _ inCalls, passed⟩

end RecordedStep

theorem TimeOrdered.last {calls : List DenialCall} {call : DenialCall}
    (ordered : TimeOrdered (calls ++ [call])) :
    TimeOrdered calls ∧ ∀ earlier ∈ calls, earlier.now ≤ call.now := by
  obtain ⟨before, -, last⟩ := List.pairwise_append.mp ordered
  exact ⟨before, fun earlier member => last earlier member call (List.mem_singleton.mpr rfl)⟩

theorem Recorded.initial (limits : DenialLimits) (key : DenialKey) :
    Recorded limits key [] ⟨DenialLimiter.default, []⟩ where
  counted _ held := by cases held
  recent _ _ made := by cases made

theorem denialMachine_recorded (limits : DenialLimits) (limit : 1 ≤ limits.limit)
    (key : DenialKey) (calls : List DenialCall) (ordered : TimeOrdered calls) :
    Recorded limits key calls ((denialMachine limits).run DenialLimiter.default calls) := by
  refine ((denialMachine limits).run_induction DenialLimiter.default
    (fun calls run => run.log.map Prod.fst = calls ∧
      (TimeOrdered calls → Recorded limits key calls run))
    ⟨rfl, fun _ => Recorded.initial limits key⟩
    (fun calls call run invariant => ?_) calls).2 ordered
  obtain ⟨logged, recorded⟩ := invariant
  refine ⟨by simp [Machine.follow, logged], fun ordered => ?_⟩
  obtain ⟨before, last⟩ := ordered.last
  cases call with
  | admitDenial admitted now => exact (recorded before).admitDenial limit admitted now last logged
  | ended now => exact (recorded before).ended now

/-- A call leaves the window of a key opened when it was, or is made past its end. -/
theorem denialMachine_held (limits : DenialLimits) (limiter : DenialLimiter) (call : DenialCall)
    (key : DenialKey) (current : DenialWindow) (held : limiter.windows.get? key = some current) :
    (∃ next, ((denialMachine limits).step limiter call).1.windows.get? key = some next ∧
        next.opened = current.opened) ∨
      inWindow (call.now - current.opened) limits.window = false := by
  cases call with
  | ended now =>
    cases stands : DenialLimiter.stands limits.window now current with
    | true => exact Or.inl ⟨current, (Table.get?_retain_eq_some_iff _ _ _ _).mpr ⟨held, stands⟩, rfl⟩
    | false => exact Or.inr stands
  | admitDenial admitted now =>
    by_cases different : key ≠ admitted
    · exact Or.inl ⟨current,
        (admitDenial_get?_of_ne limiter limits admitted key now different).trans held, rfl⟩
    have same : key = admitted := not_not.mp different
    subst same
    show (∃ next, (limiter.admitDenial key now limits).1.windows.get? key = some next ∧ _) ∨ _
    generalize step_eq : limiter.admitDenial key now limits = result
    have outcome := step_eq ▸ limiter.admitDenial_spec key now limits
    cases outcome with
    | overflowed absent full => exact Or.inl ⟨current, held, rfl⟩
    | opened absent room =>
      rw [absent] at held
      cases held
    | renewed other also past =>
      rw [held] at also
      cases also
      exact Or.inr past
    | recorded other also standing room =>
      rw [held] at also
      cases also
      exact Or.inl ⟨_, Table.get?_insert_self _ _ _, rfl⟩
    | counted other also standing spent =>
      rw [held] at also
      cases also
      exact Or.inl ⟨_, Table.get?_insert_self _ _ _, rfl⟩

theorem recordsOf_past (key : DenialKey) (opened window : Nat) (call : DenialCall)
    (answer : DenialAnswer) (past : inWindow (call.now - opened) window = false) :
    DenialEntry.recordsOf key (during opened window) (call, answer) = false := by
  cases call with
  | ended now => rfl
  | admitDenial admitted now =>
    have outside : during opened window now = false := by
      rw [during, show inWindow (now - opened) window = false from past, Bool.and_false]
    rcases answer with (suppressed | _) | counts
    · rw [DenialEntry.recordsOf, outside, Bool.and_false]
    · rfl
    · rfl

/-- At most `limit` records of a key, in the whole run, fall in the time of a window the key held
at some point of it. -/
theorem window_records_le (limits : DenialLimits) (limit : 1 ≤ limits.limit)
    (before after : List DenialCall) (ordered : TimeOrdered (before ++ after)) (key : DenialKey)
    (current : DenialWindow)
    (held : ((denialMachine limits).run DenialLimiter.default before).state.windows.get? key =
      some current) :
    recordsOf ((denialMachine limits).run DenialLimiter.default (before ++ after)).log key
      (during current.opened limits.window) ≤ limits.limit := by
  -- Induction on the calls after: the window is still the one opened then, whose count bounds its
  -- records, or a call was made past its end and no record falls in its time any more.
  suffices bounded : recordsOf
      ((denialMachine limits).run DenialLimiter.default (before ++ after)).log key
        (during current.opened limits.window) ≤ limits.limit ∧
      ((∃ next, ((denialMachine limits).run DenialLimiter.default
          (before ++ after)).state.windows.get? key = some next ∧ next.opened = current.opened) ∨
        ∃ call ∈ before ++ after, inWindow (call.now - current.opened) limits.window = false) from
    bounded.1
  induction after using List.reverseRecOn with
  | nil =>
    rw [List.append_nil] at ordered ⊢
    obtain ⟨counted, le⟩ := (denialMachine_recorded limits limit key before ordered).counted
      current held
    exact ⟨counted.trans le, Or.inl ⟨current, held, rfl⟩⟩
  | append_singleton after call inductionHypothesis =>
    rw [← List.append_assoc] at ordered ⊢
    obtain ⟨orderedBefore, last⟩ := ordered.last
    obtain ⟨bound, stage⟩ := inductionHypothesis orderedBefore
    have whole := denialMachine_recorded limits limit key _ ordered
    rw [Machine.run_append_singleton] at whole ⊢
    have ending (past : inWindow (call.now - current.opened) limits.window = false) :
        recordsOf ((denialMachine limits).follow ((denialMachine limits).run DenialLimiter.default
          (before ++ after)) call).log key (during current.opened limits.window) ≤ limits.limit := by
      rw [Machine.follow, recordsOf_append_singleton, recordsOf_past key _ _ _ _ past]
      exact bound
    rcases stage with ⟨next, heldNext, same⟩ | ⟨closing, inCalls, past⟩
    · rcases denialMachine_held limits _ call key next heldNext with ⟨last, heldLast, also⟩ | past
      · obtain ⟨counted, le⟩ := whole.counted last heldLast
        rw [also, same] at counted
        exact ⟨counted.trans le, Or.inl ⟨last, heldLast, also.trans same⟩⟩
      · rw [same] at past
        exact ⟨ending past, Or.inr ⟨call, by simp, past⟩⟩
    · have later : inWindow (call.now - current.opened) limits.window = false := by
        have order := last closing inCalls
        simp only [inWindow, decide_eq_false_iff_not, not_lt] at past ⊢
        omega
      exact ⟨ending later, Or.inr ⟨closing, List.mem_append_left _ inCalls, past⟩⟩

/-! ### A record falls in a window -/

/-- A window held was opened at a call. -/
theorem denialMachine_opened (limits : DenialLimits) (calls : List DenialCall) (key : DenialKey)
    (current : DenialWindow)
    (held : ((denialMachine limits).run DenialLimiter.default calls).state.windows.get? key =
      some current) :
    ∃ call ∈ calls, call.now = current.opened := by
  induction calls using List.reverseRecOn generalizing current with
  | nil => cases held
  | append_singleton calls call inductionHypothesis =>
    rw [Machine.run_append_singleton] at held
    have before : ∀ earlier, ((denialMachine limits).run DenialLimiter.default
        calls).state.windows.get? key = some earlier → earlier.opened = current.opened →
        ∃ made ∈ calls ++ [call], made.now = current.opened := fun earlier found same => by
      obtain ⟨made, among, isOpened⟩ := inductionHypothesis earlier found
      exact ⟨made, List.mem_append_left _ among, isOpened.trans same⟩
    have itself : call.now = current.opened →
        ∃ made ∈ calls ++ [call], made.now = current.opened := fun isOpened =>
      ⟨call, List.mem_append_right _ List.mem_cons_self, isOpened⟩
    generalize ((denialMachine limits).run DenialLimiter.default calls) = run at held before
    cases call with
    | ended now =>
      have kept := ((Table.get?_retain_eq_some_iff _ _ _ _).mp held).1
      exact before current kept rfl
    | admitDenial admitted now =>
      change (run.state.admitDenial admitted now limits).1.windows.get? key = some current at held
      by_cases different : key ≠ admitted
      · rw [admitDenial_get?_of_ne run.state limits admitted key now different] at held
        exact before current held rfl
      obtain rfl : key = admitted := not_not.mp different
      generalize step_eq : run.state.admitDenial key now limits = result at held
      have outcome := step_eq ▸ run.state.admitDenial_spec key now limits
      cases outcome with
      | overflowed absent full => exact before current held rfl
      | opened absent room =>
        rw [Table.get?_insert_self] at held
        exact itself (Option.some.inj held ▸ rfl)
      | renewed earlier also past =>
        rw [Table.get?_insert_self] at held
        exact itself (Option.some.inj held ▸ rfl)
      | recorded earlier also standing room =>
        rw [Table.get?_insert_self] at held
        exact before earlier also (Option.some.inj held ▸ rfl)
      | counted earlier also standing spent =>
        rw [Table.get?_insert_self] at held
        exact before earlier also (Option.some.inj held ▸ rfl)

/-- A record falls in the window its key then has, or opens it. -/
theorem record_in_window (limits : DenialLimits) {before : List DenialCall} {key : DenialKey}
    {now suppressed : Nat} (ordered : TimeOrdered (before ++ [.admitDenial key now]))
    (recorded : (((denialMachine limits).run DenialLimiter.default before).state.admitDenial key now
      limits).2 = .record suppressed) :
    ∃ current, ((denialMachine limits).run DenialLimiter.default
        (before ++ [.admitDenial key now])).state.windows.get? key = some current ∧
      (current.opened = now ∨ during current.opened limits.window now = true) := by
  have openedBefore := denialMachine_opened limits before key
  rw [Machine.run_append_singleton]
  generalize ((denialMachine limits).run DenialLimiter.default before) = run at recorded openedBefore
  change ∃ current, (run.state.admitDenial key now limits).1.windows.get? key = some current ∧ _
  generalize step_eq : run.state.admitDenial key now limits = result at recorded
  have outcome := step_eq ▸ run.state.admitDenial_spec key now limits
  cases outcome with
  | overflowed absent full => cases recorded
  | opened absent room => exact ⟨_, Table.get?_insert_self _ _ _, .inl rfl⟩
  | renewed current held past => exact ⟨_, Table.get?_insert_self _ _ _, .inl rfl⟩
  | recorded current held standing room =>
    obtain ⟨call, among, isOpened⟩ := openedBefore current held
    have earlier : current.opened ≤ now := isOpened ▸ ordered.last.2 call among
    refine ⟨_, Table.get?_insert_self _ _ _, .inr ?_⟩
    rw [during, decide_eq_true earlier, Bool.true_and]
    exact standing
  | counted current held standing spent => cases recorded

/-! ### The limiter's promise -/

/-- Over every run of calls in time order, every refusal is accounted for once, each record falls
in a window of its key, a window's time sees at most `limit` records of its key, and the windows
held stay bounded. -/
theorem denialLimiter_accounts (limits : DenialLimits) (limit : 1 ≤ limits.limit)
    (calls : List DenialCall) (ordered : TimeOrdered calls) :
    let run := (denialMachine limits).run DenialLimiter.default
    refusals (run calls).log = records (run calls).log + carried (run calls).log +
        returned (run calls).log + (run calls).state.held ∧
      (∀ before after key current, calls = before ++ after →
        (run before).state.windows.get? key = some current →
        recordsOf (run calls).log key (during current.opened limits.window) ≤ limits.limit) ∧
      (∀ before after key now suppressed, calls = before ++ .admitDenial key now :: after →
        ((run before).state.admitDenial key now limits).2 = .record suppressed →
        ∃ current, (run (before ++ [.admitDenial key now])).state.windows.get? key = some current ∧
          (current.opened = now ∨ during current.opened limits.window now = true)) ∧
      (run calls).state.Bounded limits := by
  intro run
  refine ⟨refusals_eq limits calls, fun before after key current split held => ?_,
    fun before after key now suppressed split recorded => ?_, denialMachine_bounded limits calls⟩
  · subst split
    exact window_records_le limits limit before after ordered key current held
  · subst split
    rw [← List.singleton_append, ← List.append_assoc] at ordered
    exact record_in_window limits (List.pairwise_append.mp ordered).1 recorded

/-- Three refusals of one key in one window of one record, and the window's end. -/
theorem denialLimiter_accounts_flood :
    let key : DenialKey := ⟨some "run-1", "queue", "unauthenticated", "unknown_token", none⟩
    let calls : List DenialCall :=
      [.admitDenial key 0, .admitDenial key 1, .admitDenial key 59, .ended 60]
    let run := (denialMachine ⟨1, 32, 4, 60⟩).run DenialLimiter.default
    refusals (run calls).log = records (run calls).log + carried (run calls).log +
        returned (run calls).log + (run calls).state.held ∧
      (∀ before after key current, calls = before ++ after →
        (run before).state.windows.get? key = some current →
        recordsOf (run calls).log key (during current.opened 60) ≤ 1) ∧
      (∀ before after key now suppressed, calls = before ++ .admitDenial key now :: after →
        ((run before).state.admitDenial key now ⟨1, 32, 4, 60⟩).2 = .record suppressed →
        ∃ current, (run (before ++ [.admitDenial key now])).state.windows.get? key = some current ∧
          (current.opened = now ∨ during current.opened 60 now = true)) ∧
      (run calls).state.Bounded ⟨1, 32, 4, 60⟩ :=
  denialLimiter_accounts ⟨1, 32, 4, 60⟩ (by decide) _ (by simp [TimeOrdered, DenialCall.now])

end Dagq.Broker
