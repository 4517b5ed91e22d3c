/-
This file shows that the limit of a deferral on the hotspots holds over every
sequence of passes, claims and restarts: once it passed, the hotspots never hold
the task again, and a supervisor that starts again takes up the deferral where
the one before left it, as long as the records show it.

A deferral that began is backed: the supervisor keeps it, and the latest record
of the task tells it, or is the record of its expiry, or hides it.
-/

import Dagq.Defer.Supervisor

namespace Dagq.Defer

open Dagq.Ledger Dagq.Lib

/-! ### What a record tells -/

section Stamp

variable (settings : Settings) (task id : Nat)

theorem stamp_reason (record : Record) :
    (stamp settings task id record).text "reason" = reasonOf record := rfl

theorem stamp_why (record : Record) :
    (stamp settings task id record).text "why" = whyOf record := rfl

theorem stamp_millis (record : Record) :
    (stamp settings task id record).millis = some settings.moment.millis := settings.moment.reads

@[simp] theorem reasonOf_deferralEnded (reason why : String) (since now : Int) (token : String) :
    reasonOf (deferralEnded reason why since now token) = some reason := rfl

@[simp] theorem whyOf_deferralEnded (reason why : String) (since now : Int) (token : String) :
    whyOf (deferralEnded reason why since now token) = some why := rfl

@[simp] theorem reasonOf_hotDeferred (overlap : Overlap) (maxSecs : Int) (token : String) :
    reasonOf (hotDeferred overlap maxSecs token) = some hotFiles := rfl

@[simp] theorem reasonOf_workerDeferred (reason : WorkerReason) (worker : Runs.Worker)
    (token : String) : reasonOf (workerDeferred reason worker token) = some reason.asStr := rfl

@[simp] theorem reasonOf_buildDeferred (build : String) (missing : List Landing) (token : String) :
    reasonOf (buildDeferred build missing token) = some notInBuild := rfl

@[simp] theorem reasonOf_orderDeferred (hold : OrderHold) (token : String) :
    reasonOf (orderDeferred hold token) = some hold.asStr := by
  cases hold <;> rfl

theorem hotFiles_not_order : hotFiles ∉ orderDeferrals := by decide

theorem orderHold_mem (hold : OrderHold) : hold.asStr ∈ orderDeferrals := by
  cases hold <;> simp [OrderHold.asStr, orderDeferrals]

/-- The reasons of a deferral for the worker are no other judgement's. -/
theorem workerReason_other (reason : WorkerReason) :
    reason.asStr ≠ hotFiles ∧ reason.asStr ≠ notInBuild ∧ reason.asStr ∉ orderDeferrals := by
  cases reason <;> decide

theorem deferralInPlace_hotDeferred (overlap : Overlap) (maxSecs : Int) (token : String) :
    deferralInPlace (stamp settings task id (hotDeferred overlap maxSecs token)) =
      some ⟨settings.moment.secs, false⟩ := by
  unfold deferralInPlace
  rw [stamp_reason, reasonOf_hotDeferred, stamp_millis]
  simp [hotFiles_not_order, stamp, hotDeferred, Moment.secs]

theorem deferralInPlace_expired (since now : Int) (token : String) :
    deferralInPlace (stamp settings task id (deferralEnded hotFiles "expired" since now token)) =
      some ⟨settings.moment.secs, true⟩ := by
  unfold deferralInPlace
  rw [stamp_reason, stamp_why, stamp_millis]
  simp [stamp, deferralEnded, Moment.secs]
  rfl

theorem reasonOf_carrying (hot : Option Deferral) (record : Record) :
    reasonOf (carrying hot record) = reasonOf record := by
  unfold carrying
  split
  · split
    · obtain ⟨kind, payload⟩ := record
      cases payload with
      | object fields =>
        simp only [reasonOf, Value.set, Value.get, List.find?_cons]
        rw [show (hotExpiredSince == "reason") = false by decide]
        dsimp only
        rw [List.find?_filter]
        congr 3
        funext field
        by_cases same : field.1 = "reason"
        · rw [same]
          decide
        · simp [same]
      | _ => rfl
    · rfl
  · rfl

/-- An order's record that carries an expired deferral tells it. -/
theorem deferralInPlace_carrying {record : Record} {reason : String} {fields}
    (isObject : record.2 = .object fields) (ofOrder : reasonOf record = some reason)
    (isOrder : reason ∈ orderDeferrals) {hot : Deferral} (expired : hot.expired = true)
    (fits : checked hot.since = some hot.since) :
    deferralInPlace (stamp settings task id (carrying (some hot) record)) = some hot := by
  have kept : (stamp settings task id (carrying (some hot) record)).text "reason" =
      some reason := by
    rw [stamp_reason, reasonOf_carrying, ofOrder]
  obtain ⟨kind, payload⟩ := record
  obtain rfl : payload = .object fields := isObject
  have carried : ((stamp settings task id (carrying (some hot) (kind, .object fields))).payload.get
      hotExpiredSince).bind Value.asI64 = some hot.since := by
    simp only [stamp, carrying, expired, if_true, Value.set, Value.get, List.find?_cons,
      beq_self_eq_true, Option.map_some, Option.bind_some]
    exact fits
  unfold deferralInPlace
  rw [kept, carried]
  simp only [Option.map_some, List.contains_iff_mem.mpr isOrder, if_true]
  rw [← expired]

end Stamp

/-! ### Backed deferrals -/

/-- The record of a hotspot deferral that ran out. -/
def Expiry (event : RunEvent) : Prop :=
  event.kind = .claimDeferralEnded ∧ event.text "reason" = some hotFiles ∧
    event.text "why" = some "expired" ∧
    ∃ since, checked since = some since ∧ deferralInPlace event = some ⟨since, true⟩

/-- The latest record of a task hides a deferral, tells it, or is that of its expiry. -/
def Backs (latest : Option RunEvent) (hot : Deferral) : Prop :=
  ∃ event, latest = some event ∧
    (Hides event ∨ deferralInPlace event = some hot ∨ (hot.expired = true ∧ Expiry event))

/-- A deferral that began is kept, and the latest record of its task backs it. -/
def Backed (begun hot : Option Deferral) (latest : Option RunEvent) : Prop :=
  ∀ deferral, begun = some deferral → ∃ placed, hot = some placed ∧
    placed.expired = deferral.expired ∧
    (deferral.expired = false → placed.since = deferral.since) ∧
    checked placed.since = some placed.since ∧ Backs latest placed

theorem backed_none (hot : Option Deferral) (latest : Option RunEvent) : Backed none hot latest :=
  fun _ began => by cases began

section Stages

variable (settings : Settings) (task : Nat) (log : List RunEvent) (begun : Option Deferral)

def begunAfter (records : List Record) : Option Deferral :=
  records.foldl (watch settings.moment.secs) begun

def latestAfter (records : List Record) : Option RunEvent :=
  (written settings task log records).getLast?

theorem begunAfter_append_singleton (records : List Record) (record : Record) :
    begunAfter settings begun (records ++ [record]) =
      watch settings.moment.secs (begunAfter settings begun records) record := by
  rw [begunAfter, List.foldl_append]
  rfl

theorem latestAfter_append_singleton (records : List Record) (record : Record) :
    latestAfter settings task log (records ++ [record]) =
      some (stamp settings task (written settings task log records).length record) := by
  rw [latestAfter, written, List.foldl_append]
  exact List.getLast?_concat

variable {settings task log begun}

theorem begunAfter_other {records : List Record} {record : Record} {reason : String}
    (named : reasonOf record = some reason) (notHot : reason ≠ hotFiles)
    (notWait : record.1 = .claimDeferred → reason ≠ notInBuild) :
    begunAfter settings begun (records ++ [record]) = begunAfter settings begun records := by
  rw [begunAfter_append_singleton, watch, named]
  by_cases deferred : record.1 = .claimDeferred
  · simp [deferred, notHot, notWait deferred]
  · simp [deferred, notHot]

/-- A record of another judgement than the hotspots' and the claim order's. -/
theorem Backed.hidden {records : List Record} {hot : Option Deferral} {record : Record}
    {reason : String}
    (backed : Backed (begunAfter settings begun records) hot (latestAfter settings task log records))
    (named : reasonOf record = some reason)
    (notHot : reason ≠ hotFiles) (notOrder : reason ∉ orderDeferrals)
    (notWait : record.1 = .claimDeferred → reason ≠ notInBuild) :
    Backed (begunAfter settings begun (records ++ [record])) hot
      (latestAfter settings task log (records ++ [record])) := by
  rw [begunAfter_other named notHot notWait, latestAfter_append_singleton]
  intro deferral began
  obtain ⟨placed, kept, expired, since, fits, _⟩ := backed deferral began
  exact ⟨placed, kept, expired, since, fits, _, rfl,
    Or.inl ⟨reason, (stamp_reason settings task _ record).trans named, notHot, notOrder⟩⟩

/-- The end of a deferral of another judgement. -/
theorem Backed.endedOther {records : List Record} {hot : Option Deferral} {reason why : String}
    {since now : Int} {token : String}
    (backed : Backed (begunAfter settings begun records) hot (latestAfter settings task log records))
    (notHot : reason ≠ hotFiles) (notOrder : reason ∉ orderDeferrals) :
    Backed (begunAfter settings begun (records ++ [deferralEnded reason why since now token])) hot
      (latestAfter settings task log (records ++ [deferralEnded reason why since now token])) :=
  backed.hidden (reasonOf_deferralEnded reason why since now token) notHot notOrder
    fun deferred => by cases deferred

theorem begunAfter_endedOther {records : List Record} {reason why : String} {since now : Int}
    {token : String} (notHot : reason ≠ hotFiles) :
    begunAfter settings begun (records ++ [deferralEnded reason why since now token]) =
      begunAfter settings begun records := by
  rw [begunAfter_append_singleton, watch, reasonOf_deferralEnded]
  simp [deferralEnded, notHot]

theorem leftOut_not_expired (interrupt : Bool) (leftOut : Option LeftOut) :
    ((if interrupt then none else leftOut).map LeftOut.asStr).getD "cleared" ≠ "expired" := by
  cases interrupt <;> rcases leftOut with _ | (_ | _) <;> decide

/-- A hotspot deferral that ended otherwise than by its limit is over. -/
theorem begunAfter_ended {records : List Record} {why : String} {since now : Int} {token : String}
    (notExpired : why ≠ "expired") :
    begunAfter settings begun (records ++ [deferralEnded hotFiles why since now token]) = none := by
  rw [begunAfter_append_singleton, watch, reasonOf_deferralEnded, whyOf_deferralEnded]
  simp [deferralEnded, notExpired]

theorem begunAfter_hotDeferred (records : List Record) (overlap : Overlap) (maxSecs : Int)
    (token : String) :
    begunAfter settings begun (records ++ [hotDeferred overlap maxSecs token]) =
      some ⟨settings.moment.secs, false⟩ := by
  rw [begunAfter_append_singleton, watch, reasonOf_hotDeferred]
  simp [hotDeferred]

/-- A wait for the build replaces an open deferral. -/
theorem begunAfter_buildDeferred (records : List Record) (build : String) (missing : List Landing)
    (token : String) :
    begunAfter settings begun (records ++ [buildDeferred build missing token]) =
      (begunAfter settings begun records).filter fun deferral => deferral.expired := by
  rw [begunAfter_append_singleton, watch, reasonOf_buildDeferred]
  simp [buildDeferred, show notInBuild ≠ hotFiles by decide]

theorem begunAfter_expired (records : List Record) (since now : Int) (token : String) :
    begunAfter settings begun (records ++ [deferralEnded hotFiles "expired" since now token]) =
      (begunAfter settings begun records).map fun deferral => ⟨deferral.since, true⟩ := by
  rw [begunAfter_append_singleton, watch, reasonOf_deferralEnded, whyOf_deferralEnded]
  simp [deferralEnded]

/-- A hotspot deferral that starts is told by its record. -/
theorem backed_hotDeferred {records : List Record} (overlap : Overlap) {maxSecs : Int}
    {token : String} :
    Backed (begunAfter settings begun (records ++ [hotDeferred overlap maxSecs token]))
      (some ⟨settings.moment.secs, false⟩)
      (latestAfter settings task log (records ++ [hotDeferred overlap maxSecs token])) := by
  rw [begunAfter_hotDeferred, latestAfter_append_singleton]
  intro deferral began
  obtain rfl := Option.some.inj began
  exact ⟨_, rfl, rfl, fun _ => rfl, settings.moment.fits, _, rfl,
    Or.inr (Or.inl (deferralInPlace_hotDeferred settings task _ overlap maxSecs token))⟩

/-- A wait for the build replaces an open deferral and hides one that ran out. -/
theorem Backed.waits {records : List Record} {hot : Option Deferral} (missing : List Landing)
    {build token : String}
    (backed : Backed (begunAfter settings begun records) hot
      (latestAfter settings task log records)) :
    Backed (begunAfter settings begun (records ++ [buildDeferred build missing token]))
      (hot.filter fun placed => placed.expired)
      (latestAfter settings task log (records ++ [buildDeferred build missing token])) := by
  rw [begunAfter_buildDeferred, latestAfter_append_singleton]
  intro deferral began
  obtain ⟨before, ran⟩ := Option.filter_eq_some_iff.mp began
  obtain ⟨placed, held, same, since, fits, _⟩ := backed deferral before
  refine ⟨placed, Option.filter_eq_some_iff.mpr ⟨held, same.trans ran⟩, same, since, fits, _, rfl,
    Or.inl ⟨notInBuild, ?_, by decide, by decide⟩⟩
  rw [stamp_reason, reasonOf_buildDeferred]

/-- A hotspot deferral that ran out is behind the record of its expiry. -/
theorem Backed.expires {records : List Record} {hot : Deferral}
    (backed : Backed (begunAfter settings begun records) (some hot)
      (latestAfter settings task log records)) (now : Int) (token : String) :
    Backed
      (begunAfter settings begun (records ++ [deferralEnded hotFiles "expired" hot.since now token]))
      (some ⟨hot.since, true⟩)
      (latestAfter settings task log
        (records ++ [deferralEnded hotFiles "expired" hot.since now token])) := by
  rw [begunAfter_expired, latestAfter_append_singleton]
  intro deferral began
  obtain ⟨before, found, equal⟩ := Option.map_eq_some_iff.mp began
  obtain ⟨placed, kept, _, _, fits, _⟩ := backed before found
  obtain rfl := Option.some.inj kept
  refine ⟨_, rfl, by rw [← equal], fun open_ => ?_, fits, _, rfl, Or.inr (Or.inr ⟨rfl, ?_⟩)⟩
  · rw [← equal] at open_
    cases open_
  · exact ⟨rfl, rfl, rfl, _, settings.moment.fits, deferralInPlace_expired settings task _ _ _ _⟩

end Stages

/-! ### One candidate -/

/-- What a supervisor keeps of the worker and of the order is of their own reasons. -/
structure Reasoned (kept : Kept) : Prop where
  worker : ∀ why since, kept.worker = some (why, since) → why ≠ hotFiles ∧ why ∉ orderDeferrals
  order : ∀ why since, kept.order = some (why, since) → why ∈ orderDeferrals

section Candidate

variable {settings : Settings} {look : Look} {task : Nat} {log : List RunEvent}
  {begun : Option Deferral}

/-- A judgement keeps the deferrals backed, and one that passes the task leaves none open. -/
structure Sound (settings : Settings) (task : Nat) (log : List RunEvent) (begun : Option Deferral)
    (judged : Judged) : Prop where
  backed : Backed (begunAfter settings begun judged.records) judged.kept.hot
    (latestAfter settings task log judged.records)
  reasoned : Reasoned judged.kept
  expired : judged.outcome = .passed → ∀ placed, judged.kept.hot = some placed →
    placed.expired = true

theorem notInBuild_other : notInBuild ≠ hotFiles ∧ notInBuild ∉ orderDeferrals := by decide

theorem hotStep_sound {records : List Record} {kept : Kept} (reasoned : Reasoned kept)
    (backed : Backed (begunAfter settings begun records) kept.hot
      (latestAfter settings task log records)) :
    Sound settings task log begun (hotStep settings look records kept) := by
  have same : ∀ hot, Reasoned { kept with hot := hot } := fun _ =>
    ⟨reasoned.worker, reasoned.order⟩
  unfold hotStep decide
  cases met : (if look.interrupt = true then none else look.overlap) with
  | none =>
    cases placed : kept.hot with
    | none =>
      dsimp only
      rw [Option.toList_none, List.append_nil]
      rw [placed] at backed
      exact ⟨backed, same _, fun _ _ held => by cases held⟩
    | some deferral =>
      dsimp only
      by_cases ran : deferral.expired = true
      · rw [if_pos ran]
        dsimp only
        rw [Option.toList_none, List.append_nil]
        rw [placed] at backed
        exact ⟨backed, same _, fun _ _ held => (Option.some.inj held) ▸ ran⟩
      · rw [if_neg ran]
        dsimp only
        refine ⟨?_, same _, fun _ _ held => by cases held⟩
        rw [Option.toList_some, begunAfter_ended (leftOut_not_expired look.interrupt look.leftOut)]
        exact backed_none _ _
  | some overlap =>
    cases placed : kept.hot with
    | none =>
      dsimp only
      by_cases noLimit : settings.maxSecs ≤ 0
      · rw [if_pos noLimit]
        dsimp only
        rw [Option.toList_none, List.append_nil]
        rw [placed] at backed
        exact ⟨backed, same _, fun _ _ held => by cases held⟩
      · rw [if_neg noLimit]
        dsimp only
        refine ⟨?_, same _, fun passed => by cases passed⟩
        exact backed_hotDeferred overlap
    | some deferral =>
      dsimp only
      by_cases ran : deferral.expired = true
      · rw [if_pos ran]
        dsimp only
        rw [Option.toList_none, List.append_nil]
        rw [placed] at backed
        exact ⟨backed, same _, fun _ _ held => (Option.some.inj held) ▸ ran⟩
      · rw [if_neg ran]
        by_cases reached : settings.maxSecs ≤ settings.moment.secs - deferral.since
        · rw [if_pos reached]
          dsimp only
          refine ⟨?_, same _, fun _ _ held => by rw [← Option.some.inj held]⟩
          rw [placed] at backed
          exact backed.expires _ _
        · rw [if_neg reached]
          dsimp only
          rw [Option.toList_none, List.append_nil]
          rw [placed] at backed
          exact ⟨backed, same _, fun passed => by cases passed⟩

theorem buildStep_sound {records : List Record} {workerCleared : Bool} {kept : Kept}
    (reasoned : Reasoned kept)
    (backed : Backed (begunAfter settings begun records) kept.hot
      (latestAfter settings task log records)) :
    Sound settings task log begun (buildStep settings look records workerCleared kept) := by
  have same : ∀ build hot, Reasoned { kept with build := build, hot := hot } := fun _ _ =>
    ⟨reasoned.worker, reasoned.order⟩
  unfold buildStep buildDecide
  cases look.lacking with
  | some missing =>
    cases (if workerCleared = true then none else kept.build) with
    | some since =>
      dsimp only
      rw [Option.toList_none, List.append_nil]
      exact ⟨backed, same _ _, fun passed => by cases passed⟩
    | none =>
      refine ⟨?_, same _ _, fun passed => by cases passed⟩
      exact backed.waits missing
  | none =>
    cases (if workerCleared = true then none else kept.build) with
    | some since =>
      refine hotStep_sound (same _ _) ?_
      exact backed.endedOther notInBuild_other.1 notInBuild_other.2
    | none =>
      refine hotStep_sound (same _ _) ?_
      rw [Option.toList_none, List.append_nil]
      exact backed

theorem candidateStep_sound {kept : Kept} (reasoned : Reasoned kept)
    (backed : Backed begun kept.hot log.getLast?) :
    Sound settings task log begun (candidateStep settings look kept) := by
  have same : ∀ why : WorkerReason, ∀ now,
      Reasoned { kept with worker := some (why.asStr, now) } := fun why now =>
    ⟨fun other since held => by
      rw [← (Prod.mk.inj (Option.some.inj held)).1]
      exact ⟨(workerReason_other why).1, (workerReason_other why).2.2⟩, reasoned.order⟩
  have none_ : Reasoned { kept with worker := none } :=
    ⟨fun _ _ held => (by cases held), reasoned.order⟩
  unfold candidateStep workerStep
  cases look.worker with
  | some reason =>
    obtain ⟨worker, why⟩ := reason
    have deferred : ∀ records, Backed (begunAfter settings begun records) kept.hot
        (latestAfter settings task log records) →
        Backed (begunAfter settings begun (records ++ [workerDeferred why worker settings.token]))
          kept.hot
          (latestAfter settings task log
            (records ++ [workerDeferred why worker settings.token])) := fun records before =>
      before.hidden (reasonOf_workerDeferred why worker _) (workerReason_other why).1
        (workerReason_other why).2.2 fun _ => (workerReason_other why).2.1
    cases placed : kept.worker with
    | none => exact ⟨deferred [] backed, same why _, fun passed => by cases passed⟩
    | some was =>
      obtain ⟨was, since⟩ := was
      dsimp only
      by_cases changed : why.asStr ≠ was
      · rw [if_pos changed]
        obtain ⟨notHot, notOrder⟩ := reasoned.worker was since placed
        have ended : Backed
            (begunAfter settings begun
              ([] ++ [deferralEnded was "reason_changed" since settings.moment.secs settings.token]))
            kept.hot
            (latestAfter settings task log
              ([] ++ [deferralEnded was "reason_changed" since settings.moment.secs
                settings.token])) := Backed.endedOther backed notHot notOrder
        exact ⟨deferred _ ended, same why _, fun passed => by cases passed⟩
      · rw [if_neg changed]
        dsimp only
        rw [← placed]
        exact ⟨backed, reasoned, fun passed => by cases passed⟩
  | none =>
    cases placed : kept.worker with
    | none =>
      refine buildStep_sound none_ ?_
      exact backed
    | some was =>
      obtain ⟨notHot, notOrder⟩ := reasoned.worker was.1 was.2 placed
      refine buildStep_sound none_ ?_
      exact @Backed.endedOther settings task log begun [] _ _ _ _ _ _ backed notHot notOrder

/-- Once its limit passed, the hotspots do not hold a task. -/
theorem hotStep_limit {records : List Record} {kept : Kept} {deferral : Deferral}
    (backed : Backed (begunAfter settings begun records) kept.hot
      (latestAfter settings task log records))
    (began : begunAfter settings begun records = some deferral)
    (limit : deferral.expired = true ∨
      settings.maxSecs ≤ settings.moment.secs - deferral.since) :
    (hotStep settings look records kept).outcome ≠ .forHotspot := by
  obtain ⟨placed, held, expired, since, _, _⟩ := backed deferral began
  unfold hotStep decide
  rw [held]
  cases (if look.interrupt = true then none else look.overlap) with
  | none =>
    dsimp only
    by_cases ran : placed.expired = true
    · rw [if_pos ran]
      simp
    · rw [if_neg ran]
      simp
  | some overlap =>
    dsimp only
    by_cases ran : placed.expired = true
    · rw [if_pos ran]
      simp
    · have notRan : deferral.expired = false := by
        rw [← expired]
        simpa using ran
      have reached : settings.maxSecs ≤ settings.moment.secs - placed.since := by
        rw [since notRan]
        rcases limit with ran | reached
        · rw [notRan] at ran
          cases ran
        · exact reached
      rw [if_neg ran, if_pos reached]
      simp

theorem buildStep_limit {records : List Record} {workerCleared : Bool} {kept : Kept}
    {deferral : Deferral}
    (backed : Backed (begunAfter settings begun records) kept.hot
      (latestAfter settings task log records))
    (began : begunAfter settings begun records = some deferral)
    (limit : deferral.expired = true ∨
      settings.maxSecs ≤ settings.moment.secs - deferral.since) :
    (buildStep settings look records workerCleared kept).outcome ≠ .forHotspot := by
  unfold buildStep buildDecide
  cases look.lacking with
  | some missing =>
    cases (if workerCleared = true then none else kept.build) with
    | some since => simp
    | none => simp
  | none =>
    cases (if workerCleared = true then none else kept.build) with
    | some since =>
      refine @hotStep_limit settings look task log begun _ _ _ ?_ ?_ limit
      · exact backed.endedOther notInBuild_other.1 notInBuild_other.2
      · exact (begunAfter_endedOther notInBuild_other.1).trans began
    | none =>
      refine @hotStep_limit settings look task log begun _ _ _ ?_ ?_ limit
      · rw [Option.toList_none, List.append_nil]
        exact backed
      · rw [Option.toList_none, List.append_nil]
        exact began

theorem candidateStep_limit (task : Nat) {kept : Kept} {deferral : Deferral} (reasoned : Reasoned kept)
    (backed : Backed begun kept.hot log.getLast?) (began : begun = some deferral)
    (limit : deferral.expired = true ∨
      settings.maxSecs ≤ settings.moment.secs - deferral.since) :
    (candidateStep settings look kept).outcome ≠ .forHotspot := by
  unfold candidateStep workerStep
  cases look.worker with
  | some reason =>
    obtain ⟨worker, why⟩ := reason
    cases kept.worker with
    | none => simp
    | some was =>
      dsimp only
      by_cases changed : why.asStr ≠ was.1
      · rw [if_pos changed]
        simp
      · rw [if_neg changed]
        simp
  | none =>
    cases placed : kept.worker with
    | none => exact @buildStep_limit settings look task log begun [] _ _ _ backed began limit
    | some was =>
      obtain ⟨notHot, notOrder⟩ := reasoned.worker was.1 was.2 placed
      refine @buildStep_limit settings look task log begun _ _ _ _ ?_ ?_ limit
      · exact @Backed.endedOther settings task log begun [] _ _ _ _ _ _ backed notHot notOrder
      · exact (@begunAfter_endedOther settings begun [] _ _ _ _ _ notHot).trans began

/-! ### The claim order -/

theorem begunAfter_order {records : List Record} {hot : Option Deferral} {record : Record}
    {reason : String} (ofOrder : reasonOf record = some reason) (isOrder : reason ∈ orderDeferrals) :
    begunAfter settings begun (records ++ [carrying hot record]) =
      begunAfter settings begun records := by
  have notHot : reason ≠ hotFiles := fun same => hotFiles_not_order (same ▸ isOrder)
  have notWait : reason ≠ notInBuild := fun same => notInBuild_other.2 (same ▸ isOrder)
  rw [begunAfter_append_singleton, watch, reasonOf_carrying, ofOrder]
  simp [notHot, notWait]

/-- A record of the claim order of a task that passed carries its expired deferral on. -/
theorem Backed.order {records : List Record} {hot : Option Deferral} {record : Record}
    {reason : String} {fields : List (String × Value)}
    (backed : Backed (begunAfter settings begun records) hot (latestAfter settings task log records))
    (expired : ∀ placed, hot = some placed → placed.expired = true)
    (isObject : record.2 = .object fields) (ofOrder : reasonOf record = some reason)
    (isOrder : reason ∈ orderDeferrals) :
    Backed (begunAfter settings begun (records ++ [carrying hot record])) hot
      (latestAfter settings task log (records ++ [carrying hot record])) := by
  rw [begunAfter_order ofOrder isOrder, latestAfter_append_singleton]
  intro deferral began
  obtain ⟨placed, held, same, since, fits, _⟩ := backed deferral began
  refine ⟨placed, held, same, since, fits, _, rfl, Or.inr (Or.inl ?_)⟩
  rw [held]
  exact deferralInPlace_carrying settings task _ isObject ofOrder isOrder (expired placed held) fits

theorem classDeferralStep_not_passed (why : String) (reason : Option String)
    (normalSecs : Option Int) (end_ : String) :
    classDeferralStep why reason true false normalSecs ≠ .ended end_ := by
  unfold classDeferralStep
  simp only [Bool.and_false, Bool.false_and, Bool.or_false, Bool.not_false, Bool.and_true]
  split
  · simp
  · simp

theorem orderStep_outcome (settings : Settings) (look : Look) (judged : Judged) :
    (orderStep settings look judged).outcome = judged.outcome := by
  unfold orderStep
  dsimp only
  split <;> rfl

/-- An order's record of a task that passed leaves its judgement sound. -/
theorem Sound.ordered {judged : Judged} (sound : Sound settings task log begun judged)
    (passed : judged.outcome = .passed) {record : Record} {reason : String}
    {fields : List (String × Value)} (isObject : record.2 = .object fields)
    (ofOrder : reasonOf record = some reason) (isOrder : reason ∈ orderDeferrals)
    {order : Option (String × Int)}
    (named : ∀ why since, order = some (why, since) → why ∈ orderDeferrals) :
    Sound settings task log begun
      ⟨judged.records ++ [carrying judged.kept.hot record], { judged.kept with order := order },
        judged.outcome⟩ where
  backed := sound.backed.order (sound.expired passed) isObject ofOrder isOrder
  reasoned := ⟨sound.reasoned.worker, named⟩
  expired := sound.expired

/-- A judgement that records nothing for the order stays sound. -/
theorem Sound.unordered {judged : Judged} (sound : Sound settings task log begun judged)
    {order : Option (String × Int)}
    (named : ∀ why since, order = some (why, since) → why ∈ orderDeferrals) :
    Sound settings task log begun
      ⟨judged.records ++ [], { judged.kept with order := order }, judged.outcome⟩ where
  backed := by
    rw [List.append_nil]
    exact sound.backed
  reasoned := ⟨sound.reasoned.worker, named⟩
  expired := sound.expired

theorem orderDeferred_object (hold : OrderHold) (token : String) :
    ∃ fields, (orderDeferred hold token).2 = .object fields := by
  cases hold <;> exact ⟨_, rfl⟩

/-- The claim order's record of a task it holds, after what the task's deferral came to. -/
theorem Sound.holds {judged : Judged} (sound : Sound settings task log begun judged)
    (passed : judged.outcome = .passed) (hold : OrderHold) (token : String) (now : Int) :
    Sound settings task log begun
      ⟨judged.records ++ [carrying judged.kept.hot (orderDeferred hold token)],
        { judged.kept with order := some (hold.asStr, now) }, judged.outcome⟩ := by
  obtain ⟨fields, isObject⟩ := orderDeferred_object hold token
  refine sound.ordered passed isObject (reasonOf_orderDeferred hold token) (orderHold_mem hold) ?_
  intro why since held
  rw [← (Prod.mk.inj (Option.some.inj held)).1]
  exact orderHold_mem hold

theorem orderStep_sound {judged : Judged} (sound : Sound settings task log begun judged)
    (isCandidate : judged.outcome ≠ .notCandidate) :
    Sound settings task log begun (orderStep settings look judged) := by
  have unnamed : ∀ why since, (none : Option (String × Int)) = some (why, since) →
      why ∈ orderDeferrals := fun _ _ held => by cases held
  have candidate : (judged.outcome != .notCandidate) = true := by simpa using isCandidate
  unfold orderStep
  rw [candidate]
  by_cases passed : judged.outcome = .passed
  · rw [show (judged.outcome == .passed) = true by simpa using passed]
    dsimp only
    rw [if_pos rfl]
    cases placed : judged.kept.order with
    | none =>
      cases look.order with
      | none => exact sound.unordered unnamed
      | some hold => exact (sound.unordered unnamed).holds passed hold _ _
    | some order =>
      obtain ⟨why, since⟩ := order
      have isOrder := sound.reasoned.order why since placed
      dsimp only
      cases classDeferralStep why (look.order.map OrderHold.asStr) true true
          settings.normalSecs with
      | stays =>
        cases look.order with
        | none => exact sound.unordered (placed ▸ sound.reasoned.order)
        | some hold => exact sound.unordered (placed ▸ sound.reasoned.order)
      | superseded =>
        cases look.order with
        | none => exact sound.unordered unnamed
        | some hold => exact (sound.unordered unnamed).holds passed hold _ _
      | ended end_ =>
        have ended := @Sound.ordered settings task log begun judged sound passed
          (deferralEnded why end_ since settings.moment.secs settings.token) why _ rfl
          (reasonOf_deferralEnded why end_ since _ _) isOrder none unnamed
        cases look.order with
        | none => exact ended
        | some hold => exact ended.holds passed hold _ _
  · -- Nothing is recorded for the order of a task passed over before it.
    rw [show (judged.outcome == .passed) = false by simpa using passed]
    dsimp only
    cases placed : judged.kept.order with
    | none => exact sound.unordered unnamed
    | some order =>
      obtain ⟨why, since⟩ := order
      dsimp only
      cases step : classDeferralStep why ((if false = true then look.order else none).map
          OrderHold.asStr) true false settings.normalSecs with
      | stays => exact sound.unordered (placed ▸ sound.reasoned.order)
      | superseded => exact sound.unordered unnamed
      | ended end_ => exact absurd step (classDeferralStep_not_passed why _ _ end_)

theorem orderStep_reasoned {judged : Judged} (reasoned : Reasoned judged.kept) :
    Reasoned (orderStep settings look judged).kept := by
  have named : ∀ (hold : OrderHold) (now : Int) why since,
      some (hold.asStr, now) = some (why, since) → why ∈ orderDeferrals :=
    fun hold now why since held => by
      rw [← (Prod.mk.inj (Option.some.inj held)).1]
      exact orderHold_mem hold
  unfold orderStep
  dsimp only
  cases (if (judged.outcome == .passed) = true then look.order else none) with
  | none =>
    cases placed : judged.kept.order with
    | none => exact ⟨reasoned.worker, fun _ _ held => (by cases held)⟩
    | some order =>
      dsimp only
      cases classDeferralStep order.1 _ _ _ _ with
      | stays => exact ⟨reasoned.worker, placed ▸ reasoned.order⟩
      | superseded => exact ⟨reasoned.worker, fun _ _ held => (by cases held)⟩
      | ended end_ => exact ⟨reasoned.worker, fun _ _ held => (by cases held)⟩
  | some hold =>
    cases placed : judged.kept.order with
    | none => exact ⟨reasoned.worker, named hold _⟩
    | some order =>
      dsimp only
      cases classDeferralStep order.1 _ _ _ _ with
      | stays => exact ⟨reasoned.worker, fun why since held => reasoned.order why since
          (placed.trans held)⟩
      | superseded => exact ⟨reasoned.worker, named hold _⟩
      | ended end_ => exact ⟨reasoned.worker, named hold _⟩

theorem hotStep_candidate (records : List Record) (kept : Kept) :
    (hotStep settings look records kept).outcome ≠ .notCandidate := by
  unfold hotStep
  rcases decide look.interrupt look.overlap look.leftOut kept.hot settings.moment.secs
    settings.maxSecs settings.token with ⟨_ | _, _⟩ <;> simp

theorem buildStep_candidate (records : List Record) (workerCleared : Bool) (kept : Kept) :
    (buildStep settings look records workerCleared kept).outcome ≠ .notCandidate := by
  unfold buildStep
  rcases buildDecide look.lacking workerCleared kept.build kept.hot settings.build
    settings.moment.secs settings.token with ⟨_ | _, _, _⟩
  · exact hotStep_candidate _ _
  · simp

theorem candidateStep_candidate (kept : Kept) :
    (candidateStep settings look kept).outcome ≠ .notCandidate := by
  unfold candidateStep
  rcases workerStep look.worker kept.worker settings.moment.secs settings.token with
    ⟨_ | _ | _, _⟩
  · simp
  · exact buildStep_candidate _ _ _
  · exact buildStep_candidate _ _ _

theorem judge_sound {kept : Kept} (isCandidate : look.candidate = true) (reasoned : Reasoned kept)
    (backed : Backed begun kept.hot log.getLast?) :
    Sound settings task log begun (judge settings look kept) := by
  unfold judge
  rw [if_pos isCandidate]
  exact orderStep_sound (candidateStep_sound reasoned backed) (candidateStep_candidate kept)

theorem judge_reasoned_gone {kept : Kept} (gone : ¬look.candidate = true)
    (reasoned : Reasoned kept) : Reasoned (judge settings look kept).kept := by
  unfold judge
  rw [if_neg gone]
  exact orderStep_reasoned ⟨fun _ _ held => (by cases held), reasoned.order⟩

theorem judge_limit (task : Nat) {kept : Kept} {deferral : Deferral}
    (isCandidate : look.candidate = true) (reasoned : Reasoned kept)
    (backed : Backed begun kept.hot log.getLast?) (began : begun = some deferral)
    (limit : deferral.expired = true ∨
      settings.maxSecs ≤ settings.moment.secs - deferral.since) :
    (judge settings look kept).outcome ≠ .forHotspot := by
  unfold judge
  rw [if_pos isCandidate, orderStep_outcome]
  exact candidateStep_limit task reasoned backed began limit

/-! ### A deferral that ran out stays -/

/-- A record of the hotspots. -/
def OfHotspots (record : Record) : Prop := reasonOf record = some hotFiles

theorem begunAfter_ran {records : List Record} {deferral : Deferral}
    (unhot : ∀ record ∈ records, ¬OfHotspots record) (ran : deferral.expired = true) :
    begunAfter settings (some deferral) records = some deferral := by
  have kept : ∀ record, ¬OfHotspots record →
      watch settings.moment.secs (some deferral) record = some deferral := by
    intro record notHot
    unfold watch
    by_cases deferred : record.1 = .claimDeferred
    · rw [if_pos deferred, if_neg (show ¬reasonOf record = some hotFiles from notHot)]
      simp [ran]
    · rw [if_neg deferred, if_neg (fun ended => notHot ended.2)]
  induction records with
  | nil => rfl
  | cons record records inductionHypothesis =>
    show begunAfter settings (watch settings.moment.secs (some deferral) record) records = _
    rw [kept record (unhot record (List.mem_cons_self ..))]
    exact inductionHypothesis fun other among => unhot other (List.mem_cons_of_mem _ among)

theorem hotStep_ran (records : List Record) {kept : Kept} {placed : Deferral}
    (held : kept.hot = some placed) (ran : placed.expired = true) :
    (hotStep settings look records kept).records = records := by
  unfold hotStep decide
  rw [held]
  cases (if look.interrupt = true then none else look.overlap) with
  | none => simp [ran]
  | some overlap => simp [ran]

theorem not_ofHotspots_ended {reason why : String} {since now : Int} {token : String}
    (notHot : reason ≠ hotFiles) : ¬OfHotspots (deferralEnded reason why since now token) :=
  fun named => notHot (Option.some.inj named)

theorem buildStep_ran {records : List Record} {workerCleared : Bool} {kept : Kept}
    {placed : Deferral} (held : kept.hot = some placed) (ran : placed.expired = true)
    (unhot : ∀ record ∈ records, ¬OfHotspots record) :
    ∀ record ∈ (buildStep settings look records workerCleared kept).records,
      ¬OfHotspots record := by
  have appended : ∀ last, ¬OfHotspots last → ∀ record ∈ records ++ [last], ¬OfHotspots record := by
    intro last notHot record among
    rcases List.mem_append.mp among with before | isLast
    · exact unhot record before
    · rw [List.mem_singleton.mp isLast]
      exact notHot
  unfold buildStep buildDecide
  cases look.lacking with
  | some missing =>
    cases (if workerCleared = true then none else kept.build) with
    | some since =>
      dsimp only
      rw [Option.toList_none, List.append_nil]
      exact unhot
    | none => exact appended _ fun named => notInBuild_other.1 (Option.some.inj named)
  | none =>
    cases (if workerCleared = true then none else kept.build) with
    | some since =>
      dsimp only
      rw [@hotStep_ran settings look _ { kept with build := none } placed held ran]
      exact appended _ (not_ofHotspots_ended notInBuild_other.1)
    | none =>
      dsimp only
      rw [@hotStep_ran settings look _ { kept with build := none } placed held ran, Option.toList_none, List.append_nil]
      exact unhot

theorem candidateStep_ran {kept : Kept} {placed : Deferral} (reasoned : Reasoned kept)
    (held : kept.hot = some placed) (ran : placed.expired = true) :
    ∀ record ∈ (candidateStep settings look kept).records, ¬OfHotspots record := by
  have nothing : ∀ record ∈ ([] : List Record), ¬OfHotspots record :=
    fun _ among => by cases among
  unfold candidateStep workerStep
  cases look.worker with
  | some reason =>
    obtain ⟨worker, why⟩ := reason
    have notHot : ¬OfHotspots (workerDeferred why worker settings.token) :=
      fun named => (workerReason_other why).1 (Option.some.inj named)
    cases before : kept.worker with
    | none =>
      intro record among
      rw [List.mem_singleton.mp among]
      exact notHot
    | some was =>
      dsimp only
      by_cases changed : why.asStr ≠ was.1
      · rw [if_pos changed]
        intro record among
        rcases List.mem_cons.mp among with isFirst | isLast
        · rw [isFirst]
          exact not_ofHotspots_ended (reasoned.worker was.1 was.2 before).1
        · rw [List.mem_singleton.mp isLast]
          exact notHot
      · rw [if_neg changed]
        exact nothing
  | none =>
    cases before : kept.worker with
    | none => exact @buildStep_ran settings look _ _ _ placed held ran nothing
    | some was =>
      refine @buildStep_ran settings look _ _ _ placed held ran ?_
      intro record among
      rw [List.mem_singleton.mp among]
      exact not_ofHotspots_ended (reasoned.worker was.1 was.2 before).1

theorem not_ofHotspots_order {hot : Option Deferral} {record : Record} {reason : String}
    (named : reasonOf record = some reason) (isOrder : reason ∈ orderDeferrals) :
    ¬OfHotspots (carrying hot record) := by
  intro isHot
  rw [OfHotspots, reasonOf_carrying, named] at isHot
  exact hotFiles_not_order (Option.some.inj isHot ▸ isOrder)

theorem orderStep_ran {judged : Judged} (reasoned : Reasoned judged.kept)
    (unhot : ∀ record ∈ judged.records, ¬OfHotspots record) :
    ∀ record ∈ (orderStep settings look judged).records, ¬OfHotspots record := by
  have appended : ∀ (records : List Record) last, (∀ record ∈ records, ¬OfHotspots record) →
      ¬OfHotspots last → ∀ record ∈ records ++ [last], ¬OfHotspots record := by
    intro records last before notHot record among
    rcases List.mem_append.mp among with among | isLast
    · exact before record among
    · rw [List.mem_singleton.mp isLast]
      exact notHot
  have none_ : ∀ record ∈ judged.records ++ [], ¬OfHotspots record := by
    rw [List.append_nil]
    exact unhot
  have hold_ : ∀ hold : OrderHold,
      ¬OfHotspots (carrying judged.kept.hot (orderDeferred hold settings.token)) := fun hold =>
    not_ofHotspots_order (reasonOf_orderDeferred hold _) (orderHold_mem hold)
  unfold orderStep
  dsimp only
  cases (if (judged.outcome == .passed) = true then look.order else none) with
  | none =>
    cases placed : judged.kept.order with
    | none => exact none_
    | some order =>
      dsimp only
      cases classDeferralStep order.1 _ _ _ _ with
      | stays => exact none_
      | superseded => exact none_
      | ended end_ =>
        exact appended _ _ unhot (not_ofHotspots_order (reasonOf_deferralEnded _ _ _ _ _)
          (reasoned.order order.1 order.2 placed))
  | some hold =>
    cases placed : judged.kept.order with
    | none => exact appended _ _ none_ (hold_ hold)
    | some order =>
      dsimp only
      cases classDeferralStep order.1 _ _ _ _ with
      | stays => exact none_
      | superseded => exact appended _ _ none_ (hold_ hold)
      | ended end_ =>
        refine appended _ _ (appended _ _ unhot ?_) (hold_ hold)
        exact not_ofHotspots_order (reasonOf_deferralEnded _ _ _ _ _)
          (reasoned.order order.1 order.2 placed)

/-- A deferral that ran out is still so after a judgement of the task as a candidate. -/
theorem judge_ran {kept : Kept} {deferral : Deferral} (isCandidate : look.candidate = true)
    (reasoned : Reasoned kept) (backed : Backed (some deferral) kept.hot log.getLast?)
    (ran : deferral.expired = true) :
    begunAfter settings (some deferral) (judge settings look kept).records = some deferral := by
  obtain ⟨placed, held, same, _, _, _⟩ := backed deferral rfl
  refine begunAfter_ran ?_ ran
  unfold judge
  rw [if_pos isCandidate]
  refine orderStep_ran ?_ (candidateStep_ran reasoned held (same.trans ran))
  exact (@candidateStep_sound settings look 0 log _ kept reasoned backed).reasoned

end Candidate

end Dagq.Defer
