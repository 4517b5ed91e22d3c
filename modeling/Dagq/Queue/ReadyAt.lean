/-
This file proves that the query for when a task became claimable drops nothing that matters: of all
events, those of other tasks and of goals that the task's own events never name change nothing that
the replay judges by. So the time read of the events picked is the time read of all of them.
-/

import Dagq.Lib.Ordered
import Dagq.Queue.ClaimFacts

namespace Dagq.Queue

open Dagq.Lib Dagq.Ledger Dagq.Priorities

/-! ### What is named -/

variable {task : Nat} {tasks goals : List Int}

/-- What a task's own event names is listed. -/
structure Names (task : Nat) (tasks goals : List Int) (event : QueueEvent) : Prop where
  predecessor : event.taskId = some task → event.kind = .dependencyAdded →
    ∀ number, event.number "predecessor_id" = some number → number ∈ tasks
  goal : event.taskId = some task → event.kind = .goalDependencyAdded ∨ event.kind = .taskCreated →
    ∀ number, event.number "goal_id" = some number → number ∈ goals
  moved : event.taskId = some task → event.kind = .taskGoalChanged →
    ∀ number, event.number "to" = some number → number ∈ goals

theorem mem_named {events : List QueueEvent} {kinds : List QueueKind} {key : String}
    {event : QueueEvent} {number : Int} (member : event ∈ events) (own : event.taskId = some task)
    (isKind : event.kind ∈ kinds) (isNumber : event.number key = some number) :
    number ∈ named task events kinds key :=
  List.mem_filterMap.mpr ⟨event, List.mem_filter.mpr ⟨member, by simp [own, isKind]⟩, isNumber⟩

theorem names_of_mem {events : List QueueEvent} {event : QueueEvent} (member : event ∈ events) :
    Names task (namedTasks task events) (namedGoals task events) event where
  predecessor own isKind _ isNumber := mem_named member own (by simp [isKind]) isNumber
  goal own isKind _ isNumber := by
    refine List.mem_append_left _ (List.mem_append_left _ (mem_named member own ?_ isNumber))
    rcases isKind with isKind | isKind <;> simp [isKind]
  moved own isKind _ isNumber :=
    List.mem_append_right _ (mem_named member own (by simp [isKind]) isNumber)

/-! ### Replays that agree -/

/-- Two replays agree on all but tasks and goals that are not listed. -/
structure Agree (tasks goals : List Int) (first second : Replay) : Prop where
  ready : first.ready = second.ready
  goal : first.goal = second.goal
  dependencies : first.dependencies = second.dependencies
  goalDependencies : first.goalDependencies = second.goalDependencies
  completed : ∀ number ∈ tasks, number ∈ first.completed ↔ number ∈ second.completed
  achieved : ∀ number ∈ goals, number ∈ first.achieved ↔ number ∈ second.achieved
  drafts : ∀ number ∈ goals, number ∈ first.drafts ↔ number ∈ second.drafts
  listed : ∀ number ∈ first.dependencies, number ∈ tasks
  goalListed : ∀ number ∈ first.goalDependencies, number ∈ goals
  ownListed : ∀ number, first.goal = some number → number ∈ goals

/-- Replays that agree judge alike. -/
theorem Agree.now {first second : Replay} (agree : Agree tasks goals first second) :
    first.now = second.now := by
  have dependencies : first.dependencies ⊆ first.completed ↔ second.dependencies ⊆ second.completed := by
    rw [← agree.dependencies]
    exact forall_congr' fun number => imp_congr_right fun member =>
      agree.completed number (agree.listed number member)
  have goalDependencies :
      first.goalDependencies ⊆ first.achieved ↔ second.goalDependencies ⊆ second.achieved := by
    rw [← agree.goalDependencies]
    exact forall_congr' fun number => imp_congr_right fun member =>
      agree.achieved number (agree.goalListed number member)
  have ownGoal : (first.goal.all fun goal => decide (goal ∉ first.drafts)) =
      second.goal.all fun goal => decide (goal ∉ second.drafts) := by
    rw [← agree.goal]
    cases isGoal : first.goal with
    | none => rfl
    | some goal =>
      simp only [Option.all_some, agree.drafts goal (agree.ownListed goal isGoal)]
  simp only [Replay.now, agree.ready, dependencies, goalDependencies, ownGoal]

theorem mem_extend {known : Finset Int} {named : Option Int} {number : Int} :
    number ∈ Replay.extend known named ↔ named = some number ∨ number ∈ known := by
  cases named <;> simp [Replay.extend, eq_comm]

theorem mem_without {known : Finset Int} {named : Option Int} {number : Int} :
    number ∈ Replay.without known named ↔ named ≠ some number ∧ number ∈ known := by
  cases named <;> simp [Replay.without, eq_comm]

/-- The task's own events keep replays alike, since what they name is listed. -/
theorem Agree.ofTask {first second : Replay} (agree : Agree tasks goals first second)
    {event : QueueEvent} (names : Names task tasks goals event) (own : event.taskId = some task) :
    Agree tasks goals (first.ofTask event) (second.ofTask event) := by
  unfold Replay.ofTask
  cases isKind : event.kind with
  | taskCreated =>
    exact { agree with
      ready := rfl
      goal := rfl
      ownListed := names.goal own (Or.inr isKind) }
  | taskStatusChanged => exact { agree with ready := rfl }
  | runClaimed => exact { agree with ready := rfl }
  | dependencyAdded =>
    refine { agree with dependencies := by rw [agree.dependencies], listed := ?_ }
    intro number member
    rcases mem_extend.mp member with isNumber | old
    · exact names.predecessor own isKind number isNumber
    · exact agree.listed number old
  | dependencyRemoved =>
    refine { agree with dependencies := by rw [agree.dependencies], listed := ?_ }
    exact fun number member => agree.listed number (mem_without.mp member).2
  | goalDependencyAdded =>
    refine { agree with goalDependencies := by rw [agree.goalDependencies], goalListed := ?_ }
    intro number member
    rcases mem_extend.mp member with isNumber | old
    · exact names.goal own (Or.inl isKind) number isNumber
    · exact agree.goalListed number old
  | goalDependencyRemoved =>
    refine { agree with goalDependencies := by rw [agree.goalDependencies], goalListed := ?_ }
    exact fun number member => agree.goalListed number (mem_without.mp member).2
  | taskGoalChanged => exact { agree with goal := rfl, ownListed := names.moved own isKind }
  | _ => exact agree

theorem Agree.ofOther {first second : Replay} (agree : Agree tasks goals first second)
    (event : QueueEvent) (other : Nat) :
    Agree tasks goals (first.ofOther other event) (second.ofOther other event) := by
  unfold Replay.ofOther
  split
  · split
    · refine { agree with completed := fun number listed => ?_ }
      rw [Finset.mem_insert, Finset.mem_insert, agree.completed number listed]
    · refine { agree with completed := fun number listed => ?_ }
      rw [Finset.mem_erase, Finset.mem_erase, agree.completed number listed]
  · exact agree

theorem Agree.ofGoal {first second : Replay} (agree : Agree tasks goals first second)
    (event : QueueEvent) (goal : Nat) :
    Agree tasks goals (first.ofGoal goal event) (second.ofGoal goal event) := by
  have achieved := agree.achieved
  have drafts := agree.drafts
  unfold Replay.ofGoal
  split <;> try split
  all_goals first
    | exact agree
    | exact { agree with
        achieved := fun number listed => by
          simp only [Finset.mem_insert, Finset.mem_erase, achieved number listed]
        drafts := fun number listed => by
          simp only [Finset.mem_insert, Finset.mem_erase, drafts number listed] }

/-- Both learn an event of the task, or of what is listed, alike. -/
theorem Agree.learn {first second : Replay} (agree : Agree tasks goals first second)
    {event : QueueEvent} (names : Names task tasks goals event) :
    Agree tasks goals (first.learn task event) (second.learn task event) := by
  unfold Replay.learn
  cases isTask : event.taskId with
  | some other =>
    by_cases same : other = task
    · subst same
      simpa using agree.ofTask names isTask
    · simpa [same] using agree.ofOther event other
  | none =>
    cases event.goalId with
    | some goal => exact agree.ofGoal event goal
    | none => exact agree

/-- An event that is not read changes nothing that is listed. -/
theorem Agree.skip {first second : Replay} (agree : Agree tasks goals first second)
    {event : QueueEvent} (unread : isReadFor task tasks goals event = false) :
    Agree tasks goals (first.learn task event) second := by
  simp only [isReadFor, Bool.or_eq_false_iff] at unread
  obtain ⟨⟨notOwn, notOther⟩, notGoal⟩ := unread
  unfold Replay.learn
  cases isTask : event.taskId with
  | some other =>
    by_cases same : other = task
    · subst same
      have unknown : ownKinds.contains event.kind = false := by simpa [isTask] using notOwn
      simp only [if_true]
      unfold Replay.ofTask
      split <;> rename_i isKind <;> first | exact agree | (rw [isKind] at unknown; cases unknown)
    · simp only [same, if_false]
      unfold Replay.ofOther
      split
      · rename_i isKind
        have unlisted : (other : Int) ∉ tasks := by simpa [isTask, isKind] using notOther
        have apart : ∀ number ∈ tasks, number ≠ other := fun number listed isOther =>
          unlisted (isOther ▸ listed)
        split
        all_goals
          refine { agree with completed := fun number listed => ?_ }
          simp [apart number listed, agree.completed number listed]
      · exact agree
  | none =>
    cases isGoal : event.goalId with
    | none => exact agree
    | some goal =>
      have apart : event.kind ∈ goalKinds → ∀ number ∈ goals, number ≠ goal := by
        rintro isKind number listed rfl
        have unlisted : (goal : Int) ∉ goals := by
          simpa [isTask, isGoal, isKind] using notGoal
        exact unlisted listed
      dsimp only
      unfold Replay.ofGoal
      cases isKind : event.kind <;> dsimp only <;> try split
      all_goals first
        | exact agree
        | have other := apart (by rw [isKind]; decide)
          exact { agree with
            achieved := fun number listed => by
              simp [other number listed, agree.achieved number listed]
            drafts := fun number listed => by
              simp [other number listed, agree.drafts number listed] }

/-! ### The same time -/

/-- The replays agree, and have judged the same. -/
structure Alike (tasks goals : List Int) (first second : Replay) : Prop extends
    Agree tasks goals first second where
  judged : first.candidate = first.now
  candidate : first.candidate = second.candidate
  since : first.since = second.since

theorem Agree.of_eq {first second other same : Replay} (agree : Agree tasks goals first second)
    (isOther : other = { first with candidate := other.candidate, since := other.since })
    (isSame : same = { second with candidate := same.candidate, since := same.since }) :
    Agree tasks goals other same := by
  rw [isOther, isSame]
  exact { agree with }

theorem Replay.now_judge (replay : Replay) (event : QueueEvent) :
    (replay.judge event).now = replay.now := rfl

theorem Replay.learn_candidate (replay : Replay) (event : QueueEvent) :
    (replay.learn task event).candidate = replay.candidate := by
  unfold Replay.learn Replay.ofTask Replay.ofOther Replay.ofGoal
  repeat' split
  all_goals rfl

theorem Replay.learn_since (replay : Replay) (event : QueueEvent) :
    (replay.learn task event).since = replay.since := by
  unfold Replay.learn Replay.ofTask Replay.ofOther Replay.ofGoal
  repeat' split
  all_goals rfl

theorem Alike.read {first second : Replay} (alike : Alike tasks goals first second)
    {event : QueueEvent} (names : Names task tasks goals event) :
    Alike tasks goals (first.read task event) (second.read task event) := by
  have agree := alike.toAgree.learn names
  have sameNow := agree.now
  refine ⟨agree.of_eq rfl rfl, rfl, sameNow, ?_⟩
  simp only [Replay.read, Replay.judge, Replay.learn_candidate, Replay.learn_since, sameNow,
    alike.candidate, alike.since]

/-- A replay that reads one more event judges as before where that event is not read. -/
theorem Alike.skip {first second : Replay} (alike : Alike tasks goals first second)
    {event : QueueEvent} (unread : isReadFor task tasks goals event = false) :
    Alike tasks goals (first.read task event) second := by
  have agree := alike.toAgree.skip unread
  have sameNow : (first.learn task event).now = first.candidate :=
    agree.now.trans (alike.toAgree.now.symm.trans alike.judged.symm)
  refine ⟨agree.of_eq rfl rfl, rfl, sameNow.trans alike.candidate, ?_⟩
  simp only [Replay.read, Replay.judge, Replay.learn_candidate, Replay.learn_since, sameNow]
  simp [alike.since]

theorem alike_foldl {events : List QueueEvent}
    (names : ∀ event ∈ events, Names task tasks goals event) {first second : Replay}
    (alike : Alike tasks goals first second) :
    Alike tasks goals (events.foldl (Replay.read task) first)
      ((events.filter (isReadFor task tasks goals)).foldl (Replay.read task) second) := by
  induction events generalizing first second with
  | nil => exact alike
  | cons event rest inductionHypothesis =>
    have later : ∀ event ∈ rest, Names task tasks goals event :=
      fun other member => names other (List.mem_cons_of_mem _ member)
    by_cases isRead : isReadFor task tasks goals event = true
    · rw [List.filter_cons_of_pos isRead]
      exact inductionHypothesis later (alike.read (names event List.mem_cons_self))
    · rw [List.filter_cons_of_neg isRead]
      exact inductionHypothesis later (alike.skip (Bool.not_eq_true _ ▸ isRead))

theorem taskReadyAt_since (task : Nat) (events : List QueueEvent) :
    taskReadyAt task events = (replayOf task events).since := by
  have alike : Alike (namedTasks task events) (namedGoals task events) {} {} := by
    refine ⟨⟨rfl, rfl, rfl, rfl, ?_, ?_, ?_, ?_, ?_, ?_⟩, rfl, rfl, rfl⟩ <;> simp
  have names : ∀ event ∈ events.insertionSort fun first second => first.id ≤ second.id,
      Names task (namedTasks task events) (namedGoals task events) event :=
    fun event member => names_of_mem ((List.mem_insertionSort _).mp member)
  rw [taskReadyAt, claimableSince, replayOf, replayOf, ← filter_insertionSort]
  exact (alike_foldl names alike).since.symm

/-- The time that a claim records, read of the events its query picks, is the time read of all
events, whatever they are and in whatever order. -/
theorem taskReadyAt_eq (task : Nat) (events : List QueueEvent) :
    taskReadyAt task events = claimableSince task events :=
  taskReadyAt_since task events

end Dagq.Queue
