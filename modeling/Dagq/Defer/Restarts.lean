/-
This file carries the limit of the hotspot deferrals over the whole system: every
sequence of passes, claims and restarts. What one judgement keeps, each step
keeps of every task; so a supervisor that starts again from records that show the
deferrals goes on where the one before stopped.
-/

import Dagq.Defer.Limit

namespace Dagq.Defer

open Dagq.Ledger Dagq.Lib Relation

/-! ### No deferral, no record of one -/

theorem deferralInPlace_hides {event : RunEvent} (hides : Hides event) :
    deferralInPlace event = none := by
  obtain ⟨reason, named, notHot, notOrder⟩ := hides
  unfold deferralInPlace
  rw [named]
  simp [notHot, notOrder]

/-- A task without a deferral is held by none, and its latest record tells none. -/
def Clear (begun hot : Option Deferral) (latest : Option RunEvent) : Prop :=
  begun = none → hot = none ∧ latest.bind deferralInPlace = none

section Candidate

variable {settings : Settings} {look : Look} {task : Nat} {log : List RunEvent}
  {begun : Option Deferral}

theorem deferralInPlace_ended (settings : Settings) (task id : Nat) {why : String}
    (notExpired : why ≠ "expired") (since now : Int) (token : String) :
    deferralInPlace (stamp settings task id (deferralEnded hotFiles why since now token)) =
      none := by
  unfold deferralInPlace
  rw [stamp_reason, stamp_why, reasonOf_deferralEnded, whyOf_deferralEnded]
  simp [stamp, deferralEnded, hotFiles_not_order, notExpired]

/-- A claim order's record of a task without a deferral tells none. -/
theorem deferralInPlace_order (settings : Settings) (task id : Nat) {record : Record}
    {reason : String} (ofOrder : reasonOf record = some reason) (isOrder : reason ∈ orderDeferrals)
    (carriesNone : record.2.get hotExpiredSince = none) :
    deferralInPlace (stamp settings task id record) = none := by
  unfold deferralInPlace
  rw [stamp_reason, ofOrder]
  simp [isOrder, stamp, carriesNone]

/-- After a judgement, a task without a deferral is clear. -/
def LeavesClear (settings : Settings) (task : Nat) (log : List RunEvent) (begun : Option Deferral)
    (judged : Judged) : Prop :=
  Clear (begunAfter settings begun judged.records) judged.kept.hot
    (latestAfter settings task log judged.records)

theorem Clear.hidden {records : List Record} {hot : Option Deferral} {record : Record}
    {reason : String}
    (clear : Clear (begunAfter settings begun records) hot (latestAfter settings task log records))
    (named : reasonOf record = some reason) (notHot : reason ≠ hotFiles)
    (notOrder : reason ∉ orderDeferrals)
    (notWait : record.1 = .claimDeferred → reason ≠ notInBuild) :
    Clear (begunAfter settings begun (records ++ [record])) hot
      (latestAfter settings task log (records ++ [record])) := by
  rw [begunAfter_other named notHot notWait, latestAfter_append_singleton]
  intro began
  refine ⟨(clear began).1, deferralInPlace_hides ⟨reason, ?_, notHot, notOrder⟩⟩
  rw [stamp_reason, named]

theorem Clear.endedOther {records : List Record} {hot : Option Deferral} {reason why : String}
    {since now : Int} {token : String}
    (clear : Clear (begunAfter settings begun records) hot (latestAfter settings task log records))
    (notHot : reason ≠ hotFiles) (notOrder : reason ∉ orderDeferrals) :
    Clear (begunAfter settings begun (records ++ [deferralEnded reason why since now token])) hot
      (latestAfter settings task log (records ++ [deferralEnded reason why since now token])) :=
  clear.hidden (reasonOf_deferralEnded reason why since now token) notHot notOrder
    fun deferred => by cases deferred

theorem Clear.of_some {began : Deferral} {hot : Option Deferral} {latest : Option RunEvent} :
    Clear (some began) hot latest :=
  fun none_ => by cases none_

/-- A held deferral of a clear task began. -/
theorem Clear.began {begun : Option Deferral} {hot : Deferral} {latest : Option RunEvent}
    (clear : Clear begun (some hot) latest) : ∃ began, begun = some began := by
  cases begun with
  | none => cases (clear rfl).1
  | some began => exact ⟨began, rfl⟩

theorem hotStep_clear {records : List Record} {kept : Kept}
    (clear : Clear (begunAfter settings begun records) kept.hot
      (latestAfter settings task log records)) :
    LeavesClear settings task log begun (hotStep settings look records kept) := by
  have same : ∀ hot, hot = kept.hot → Clear (begunAfter settings begun (records ++ [])) hot
      (latestAfter settings task log (records ++ [])) := by
    intro hot unchanged
    rw [List.append_nil, unchanged]
    exact clear
  unfold LeavesClear hotStep decide
  cases placed : kept.hot with
  | none =>
    cases (if look.interrupt = true then none else look.overlap) with
    | none => exact same _ placed.symm
    | some overlap =>
      dsimp only
      by_cases noLimit : settings.maxSecs ≤ 0
      · rw [if_pos noLimit]
        exact same _ placed.symm
      · rw [if_neg noLimit]
        show Clear (begunAfter settings begun (records ++ [_])) _ _
        rw [begunAfter_hotDeferred]
        exact Clear.of_some
  | some deferral =>
    cases (if look.interrupt = true then none else look.overlap) with
    | none =>
      dsimp only
      by_cases ran : deferral.expired = true
      · rw [if_pos ran]
        exact same _ placed.symm
      · rw [if_neg ran]
        intro _
        refine ⟨rfl, ?_⟩
        show (latestAfter settings task log (records ++ [_])).bind _ = none
        rw [latestAfter_append_singleton]
        exact deferralInPlace_ended settings task _ (leftOut_not_expired _ _) _ _ _
    | some overlap =>
      dsimp only
      by_cases ran : deferral.expired = true
      · rw [if_pos ran]
        exact same _ placed.symm
      · rw [if_neg ran]
        by_cases reached : settings.maxSecs ≤ settings.moment.secs - deferral.since
        · rw [if_pos reached]
          show Clear (begunAfter settings begun (records ++ [_])) _ _
          obtain ⟨began, found⟩ := (placed ▸ clear).began
          rw [begunAfter_expired, found]
          exact Clear.of_some
        · rw [if_neg reached]
          exact same _ placed.symm

/-- A wait for the build leaves a task clear whose open deferral it replaced. -/
theorem Clear.waits {records : List Record} {hot : Option Deferral} (missing : List Landing)
    {build token : String}
    (backed : Backed (begunAfter settings begun records) hot
      (latestAfter settings task log records))
    (clear : Clear (begunAfter settings begun records) hot
      (latestAfter settings task log records)) :
    Clear (begunAfter settings begun (records ++ [buildDeferred build missing token]))
      (hot.filter fun placed => placed.expired)
      (latestAfter settings task log (records ++ [buildDeferred build missing token])) := by
  rw [begunAfter_buildDeferred, latestAfter_append_singleton]
  intro replaced
  constructor
  · cases began : begunAfter settings begun records with
    | none => rw [(clear began).1, Option.filter_none]
    | some deferral =>
      obtain ⟨placed, held, same, _, _, _⟩ := backed deferral began
      rw [began, Option.filter_eq_none_iff] at replaced
      rw [held, Option.filter_eq_none_iff]
      intro other isPlaced
      rw [← Option.some.inj isPlaced, same]
      exact replaced deferral rfl
  · rw [Option.bind_some]
    refine deferralInPlace_hides ⟨notInBuild, ?_, notInBuild_other.1, notInBuild_other.2⟩
    rw [stamp_reason, reasonOf_buildDeferred]

theorem buildStep_clear {records : List Record} {workerCleared : Bool} {kept : Kept}
    (backed : Backed (begunAfter settings begun records) kept.hot
      (latestAfter settings task log records))
    (clear : Clear (begunAfter settings begun records) kept.hot
      (latestAfter settings task log records)) :
    LeavesClear settings task log begun (buildStep settings look records workerCleared kept) := by
  unfold buildStep buildDecide
  cases look.lacking with
  | some missing =>
    cases (if workerCleared = true then none else kept.build) with
    | some since =>
      show Clear (begunAfter settings begun (records ++ [])) kept.hot
        (latestAfter settings task log (records ++ []))
      rw [List.append_nil]
      exact clear
    | none => exact clear.waits missing backed
  | none =>
    cases (if workerCleared = true then none else kept.build) with
    | some since =>
      refine hotStep_clear ?_
      exact clear.endedOther notInBuild_other.1 notInBuild_other.2
    | none =>
      refine hotStep_clear ?_
      rw [Option.toList_none, List.append_nil]
      exact clear

theorem candidateStep_clear {kept : Kept} (reasoned : Reasoned kept)
    (backed : Backed begun kept.hot log.getLast?) (clear : Clear begun kept.hot log.getLast?) :
    LeavesClear settings task log begun (candidateStep settings look kept) := by
  unfold candidateStep workerStep
  cases look.worker with
  | some reason =>
    obtain ⟨worker, why⟩ := reason
    have deferred : ∀ records, Clear (begunAfter settings begun records) kept.hot
        (latestAfter settings task log records) →
        Clear (begunAfter settings begun (records ++ [workerDeferred why worker settings.token]))
          kept.hot
          (latestAfter settings task log
            (records ++ [workerDeferred why worker settings.token])) := fun records before =>
      before.hidden (reasonOf_workerDeferred why worker _) (workerReason_other why).1
        (workerReason_other why).2.2 fun _ => (workerReason_other why).2.1
    cases placed : kept.worker with
    | none => exact deferred [] clear
    | some was =>
      dsimp only
      by_cases changed : why.asStr ≠ was.1
      · rw [if_pos changed]
        obtain ⟨notHot, notOrder⟩ := reasoned.worker was.1 was.2 placed
        exact deferred [_] (@Clear.endedOther settings task log begun [] _ _ _ _ _ _ clear notHot
          notOrder)
      · rw [if_neg changed]
        exact clear
  | none =>
    cases placed : kept.worker with
    | none => exact @buildStep_clear settings look task log begun [] false _ backed clear
    | some was =>
      obtain ⟨notHot, notOrder⟩ := reasoned.worker was.1 was.2 placed
      refine buildStep_clear ?_ ?_
      · exact @Backed.endedOther settings task log begun [] _ _ _ _ _ _ backed notHot notOrder
      · exact @Clear.endedOther settings task log begun [] _ _ _ _ _ _ clear notHot notOrder

/-- A claim order's record carries nothing of a task without a deferral. -/
theorem Clear.order {records : List Record} {hot : Option Deferral} {record : Record}
    {reason : String}
    (clear : Clear (begunAfter settings begun records) hot (latestAfter settings task log records))
    (ofOrder : reasonOf record = some reason) (isOrder : reason ∈ orderDeferrals)
    (carriesNone : record.2.get hotExpiredSince = none) :
    Clear (begunAfter settings begun (records ++ [carrying hot record])) hot
      (latestAfter settings task log (records ++ [carrying hot record])) := by
  rw [begunAfter_order ofOrder isOrder, latestAfter_append_singleton]
  intro began
  have unheld := (clear began).1
  refine ⟨unheld, ?_⟩
  rw [unheld]
  exact deferralInPlace_order settings task _ ofOrder isOrder carriesNone

theorem orderDeferred_carriesNone (hold : OrderHold) (token : String) :
    (orderDeferred hold token).2.get hotExpiredSince = none := by
  cases hold <;> rfl

theorem orderStep_clear {judged : Judged} (reasoned : Reasoned judged.kept)
    (clear : LeavesClear settings task log begun judged) :
    LeavesClear settings task log begun (orderStep settings look judged) := by
  have same : Clear (begunAfter settings begun (judged.records ++ [])) judged.kept.hot
      (latestAfter settings task log (judged.records ++ [])) := by
    rw [List.append_nil]
    exact clear
  have ended : ∀ order, judged.kept.order = some order → ∀ why,
      Clear
        (begunAfter settings begun (judged.records ++ [carrying judged.kept.hot
          (deferralEnded order.1 why order.2 settings.moment.secs settings.token)]))
        judged.kept.hot
        (latestAfter settings task log (judged.records ++ [carrying judged.kept.hot
          (deferralEnded order.1 why order.2 settings.moment.secs settings.token)])) :=
    fun order placed why => Clear.order clear (reasonOf_deferralEnded _ _ _ _ _)
      (reasoned.order order.1 order.2 placed) rfl
  unfold LeavesClear orderStep
  dsimp only
  cases (if (judged.outcome == .passed) = true then look.order else none) with
  | none =>
    cases placed : judged.kept.order with
    | none => exact same
    | some order =>
      dsimp only
      cases classDeferralStep order.1 _ _ _ _ with
      | stays => exact same
      | superseded => exact same
      | ended end_ => exact ended order placed end_
  | some hold =>
    have held : ∀ records, Clear (begunAfter settings begun records) judged.kept.hot
        (latestAfter settings task log records) →
        Clear
          (begunAfter settings begun
            (records ++ [carrying judged.kept.hot (orderDeferred hold settings.token)]))
          judged.kept.hot
          (latestAfter settings task log
            (records ++ [carrying judged.kept.hot (orderDeferred hold settings.token)])) :=
      fun records before => before.order (reasonOf_orderDeferred hold _) (orderHold_mem hold)
        (orderDeferred_carriesNone hold _)
    cases placed : judged.kept.order with
    | none => exact held _ same
    | some order =>
      dsimp only
      cases classDeferralStep order.1 _ _ _ _ with
      | stays => exact same
      | superseded => exact held _ same
      | ended end_ => exact held _ (ended order placed end_)

theorem judge_clear {kept : Kept} (isCandidate : look.candidate = true) (reasoned : Reasoned kept)
    (backed : Backed begun kept.hot log.getLast?) (clear : Clear begun kept.hot log.getLast?) :
    LeavesClear settings task log begun (judge settings look kept) := by
  unfold judge
  rw [if_pos isCandidate]
  exact orderStep_clear (@candidateStep_sound settings look task log begun kept reasoned
    backed).reasoned (candidateStep_clear reasoned backed clear)

end Candidate

/-! ### What a restart finds -/

theorem reasonInPlace_kept {kept : String → Bool} {event : RunEvent} {reason : String}
    {since : Int} (found : reasonInPlace kept event = some (reason, since)) :
    kept reason = true := by
  unfold reasonInPlace at found
  by_cases deferred : event.kind = .claimDeferred
  · rw [if_pos deferred] at found
    obtain ⟨named, _, inner⟩ := Option.bind_eq_some_iff.mp found
    obtain ⟨millis, _, inner⟩ := Option.bind_eq_some_iff.mp inner
    by_cases keeps : kept named = true
    · rw [if_pos keeps] at inner
      rw [← (Prod.mk.inj (Option.some.inj inner)).1]
      exact keeps
    · rw [if_neg keeps] at inner
      cases inner
  · rw [if_neg deferred] at found
    cases found

theorem rebuilt_reasoned (system : System) (task : Nat) : Reasoned (system.rebuilt task) where
  worker why since found := by
    obtain ⟨event, _, inner⟩ := Option.bind_eq_some_iff.mp found
    have kept := reasonInPlace_kept inner
    simp only [Bool.and_eq_true, bne_iff_ne, ne_eq, Bool.not_eq_true', List.contains_eq_mem,
      decide_eq_false_iff_not] at kept
    exact ⟨kept.1.1, kept.2⟩
  order why since found := by
    obtain ⟨event, _, inner⟩ := Option.bind_eq_some_iff.mp found
    have kept := reasonInPlace_kept inner
    simpa using kept

/-- The record of an expiry is read at its own time. -/
theorem Expiry.millis {event : RunEvent} (expiry : Expiry event) :
    ∃ millis, event.millis = some millis ∧ checked (millis.tdiv 1000) = some (millis.tdiv 1000) ∧
      deferralInPlace event = some ⟨millis.tdiv 1000, true⟩ := by
  obtain ⟨kind, reason, why, since, fits, told⟩ := expiry
  cases read : event.millis with
  | none =>
    unfold deferralInPlace at told
    rw [reason, read] at told
    simp [hotFiles_not_order, kind, why] at told
  | some millis =>
    have read_ : deferralInPlace event = some ⟨millis.tdiv 1000, true⟩ := by
      unfold deferralInPlace
      rw [reason, read]
      simp [hotFiles_not_order, kind, why]
    rw [read_] at told
    have same : millis.tdiv 1000 = since := (Deferral.mk.inj (Option.some.inj told)).1
    exact ⟨millis, rfl, by rw [same]; exact fits, read_⟩

/-- The deferral made from the records is backed as the one held was. -/
theorem Backed.rebuilt {begun held : Option Deferral} {latest : Option RunEvent}
    (backed : Backed begun held latest)
    (shown : begun ≠ none → ∀ event, latest = some event → ¬Hides event) :
    Backed begun (latest.bind deferralInPlace) latest := by
  intro deferral found
  have began : begun ≠ none := by simp [found]
  obtain ⟨placed, isHeld, same, since, fits, event, isLatest, backs⟩ := backed deferral found
  rcases backs with hides | tells | ⟨ran, expiry⟩
  · exact absurd hides (shown began event isLatest)
  · refine ⟨placed, ?_, same, since, fits, event, isLatest, Or.inr (Or.inl tells)⟩
    rw [isLatest, Option.bind_some, tells]
  · obtain ⟨millis, _, fits, told⟩ := expiry.millis
    refine ⟨⟨millis.tdiv 1000, true⟩, ?_, ran.symm.trans same, fun open_ => ?_, fits, event,
      isLatest, Or.inr (Or.inl told)⟩
    · rw [isLatest, Option.bind_some, told]
    · rw [← same, ran] at open_
      cases open_

/-! ### The system -/

/-- What every reachable state has: of each task, a deferral that began is held and backed. -/
structure Tracked (system : System) : Prop where
  backed : ∀ task, Backed (system.begun task) (system.held task) (system.latest task)
  same : ∀ memory, system.memory = some memory → ∀ task, (memory task).hot = system.held task
  reasoned : ∀ memory, system.memory = some memory → ∀ task, Reasoned (memory task)

section Tracked

variable {system : System}

/-- What a pass starts from: what the supervisor kept, or what the records show. -/
theorem Tracked.kept (tracked : Tracked system) (shown : system.memory = none → Shown system)
    (task : Nat) :
    Reasoned (system.kept task) ∧
      Backed (system.begun task) (system.kept task).hot (system.latest task) := by
  unfold System.kept
  cases remembered : system.memory with
  | some memory =>
    refine ⟨tracked.reasoned memory remembered task, ?_⟩
    rw [Option.getD_some, tracked.same memory remembered task]
    exact tracked.backed task
  | none => exact ⟨rebuilt_reasoned system task, (tracked.backed task).rebuilt (shown remembered task)⟩

theorem Tracked.pass (tracked : Tracked system) (settings : Settings) (looks : Nat → Look)
    (shown : system.memory = none → Shown system) : Tracked (system.pass settings looks) where
  backed task := by
    obtain ⟨reasoned, backed⟩ := tracked.kept shown task
    show Backed (if (looks task).candidate = true then _ else none) _ _
    by_cases candidate : (looks task).candidate = true
    · rw [if_pos candidate]
      exact (judge_sound candidate reasoned backed).backed
    · rw [if_neg candidate]
      exact backed_none _ _
  same memory kept task := by
    rw [← Option.some.inj kept]
    rfl
  reasoned memory kept task := by
    obtain ⟨reasoned, backed⟩ := tracked.kept shown task
    rw [← Option.some.inj kept]
    show Reasoned (judge settings (looks task) (system.kept task)).kept
    by_cases candidate : (looks task).candidate = true
    · exact (@judge_sound settings (looks task) task _ _ _ candidate reasoned backed).reasoned
    · exact judge_reasoned_gone candidate reasoned

theorem Tracked.step {after : System} (tracked : Tracked system) (next : Step system after) :
    Tracked after := by
  cases next with
  | pass settings looks shown => exact tracked.pass settings looks shown
  | claimed task event kind owner =>
    refine ⟨fun other => ?_, tracked.same, tracked.reasoned⟩
    show Backed (Function.update system.begun task none other) (system.held other)
      (Function.update system.records task (system.records task ++ [event]) other).getLast?
    by_cases own : other = task
    · rw [own, Function.update_self]
      exact backed_none _ _
    · rw [Function.update_of_ne own, Function.update_of_ne own]
      exact tracked.backed other
  | restart => exact ⟨tracked.backed, fun _ kept => (by cases kept), fun _ kept => (by cases kept)⟩

/-- Once its limit passed, a deferral does not hold its task at the hotspots. -/
theorem Tracked.limit (tracked : Tracked system) (settings : Settings) (looks : Nat → Look)
    (shown : system.memory = none → Shown system) {task : Nat} {begun : Deferral}
    (began : system.begun task = some begun) (candidate : (looks task).candidate = true)
    (limit : begun.expired = true ∨ settings.maxSecs ≤ settings.moment.secs - begun.since) :
    (system.judged settings looks task).outcome ≠ .forHotspot := by
  obtain ⟨reasoned, backed⟩ := tracked.kept shown task
  exact judge_limit task candidate reasoned backed began limit

end Tracked

/-- What happens while `task` stays a candidate and is not claimed. -/
inductive Waits (task : Nat) : System → System → Prop
  | pass {system : System} (settings : Settings) (looks : Nat → Look)
      (shown : system.memory = none → Shown system) (candidate : (looks task).candidate = true) :
      Waits task system (system.pass settings looks)
  | claimed {system : System} (other : Nat) (event : RunEvent) (kind : event.kind = .runClaimed)
      (owner : event.taskId = some other) (apart : other ≠ task) :
      Waits task system (system.claimed other event)
  | restart {system : System} : Waits task system system.restart

theorem Waits.step {task : Nat} {system after : System} (waits : Waits task system after) :
    Step system after := by
  cases waits with
  | pass settings looks shown candidate => exact .pass settings looks shown
  | claimed other event kind owner apart => exact .claimed other event kind owner
  | restart => exact .restart

/-- A deferral that ran out stays so while its task is a candidate. -/
theorem Waits.ran {task : Nat} {system after : System} {begun : Deferral}
    (waits : Waits task system after) (tracked : Tracked system)
    (began : system.begun task = some begun) (ran : begun.expired = true) :
    after.begun task = some begun := by
  cases waits with
  | pass settings looks shown candidate =>
    obtain ⟨reasoned, backed⟩ := tracked.kept shown task
    show (if (looks task).candidate = true then _ else none) = _
    rw [if_pos candidate]
    rw [began] at backed ⊢
    exact judge_ran candidate reasoned backed ran
  | claimed other event kind owner apart =>
    show Function.update system.begun other none task = _
    rw [Function.update_of_ne (Ne.symm apart), began]
  | restart => exact began

/-- A task that waits and has no deferral: held by none, and no record tells one. -/
def Quiet (task : Nat) (system : System) : Prop :=
  Clear (system.begun task) (system.held task) (system.latest task)

theorem Waits.quiet {task : Nat} {system after : System} (waits : Waits task system after)
    (tracked : Tracked system) (quiet : Quiet task system) : Quiet task after := by
  cases waits with
  | pass settings looks shown candidate =>
    obtain ⟨reasoned, backed⟩ := tracked.kept shown task
    have clear : Clear (system.begun task) (system.kept task).hot (system.latest task) := by
      intro none_
      obtain ⟨unheld, untold⟩ := quiet none_
      refine ⟨?_, untold⟩
      unfold System.kept
      cases remembered : system.memory with
      | some memory => exact (tracked.same memory remembered task).trans unheld
      | none => exact untold
    show Clear (if (looks task).candidate = true then _ else none) _ _
    rw [if_pos candidate]
    exact judge_clear candidate reasoned backed clear
  | claimed other event kind owner apart =>
    show Clear (Function.update system.begun other none task) (system.held task)
      (Function.update system.records other (system.records other ++ [event]) task).getLast?
    rw [Function.update_of_ne (Ne.symm apart), Function.update_of_ne (Ne.symm apart)]
    exact quiet
  | restart => exact quiet

end Dagq.Defer
