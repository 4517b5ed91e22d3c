/-
This file proves that the AI's roles never change a priority a person set. A
task takes such a priority from its own row or from its goal's, and each write
of an AI role leaves the value and the person at one of the two: an edit of
either is refused, and a move carries the value off as the task's own unless the
new goal has the same from a person.
-/

import Dagq.Lib.Transition
import Dagq.Priorities.Store

namespace Dagq.Priorities

open Dagq.Lib Dagq.Queue

namespace PriorityStore

/-! ### A person's priority in the rows -/

/-- What every stored task satisfies. -/
structure Readable (row : TaskRow) : Prop where
  positive : 0 < row.id
  titled : isBlank row.title = false
  goalPositive : row.goalId.all (0 < ·) = true

/-- The row takes the value a person set: its own, or its goal's. -/
def Takes (store : PriorityStore) (row : TaskRow) (value : Priority) : Prop :=
  (row.priority = some value ∧ row.priorityBy ≠ some .ai) ∨
    (row.priority = none ∧ ∃ goal, store.goalOf row = some goal ∧ goal.priority = value ∧
      goal.priorityBy = .human)

/-- The task is stored, with the value a person set. -/
def Held (store : PriorityStore) (id : Nat) (value : Priority) : Prop :=
  ∃ row, store.tasks.get? id = some row ∧ Readable row ∧ store.Takes row value

/-- The task a row is read as. -/
def taskOf (store : PriorityStore) (row : TaskRow) : Task :=
  { id := row.id
    title := row.title
    status := row.status
    goalId := row.goalId
    priority := (basePriority row.priority ((store.goalOf row).map Goal.priority)).1
    prioritySource := (basePriority row.priority ((store.goalOf row).map Goal.priority)).2
    priorityBy := .effective row.priority row.priorityBy ((store.goalOf row).map Goal.priorityBy)
    ownPriority := row.priority
    ownPriorityBy := row.priority.bind fun _ => row.priorityBy
    goalPriority := (store.goalOf row).map Goal.priority
    goalPriorityBy := ((store.goalOf row).map Goal.priority).bind fun _ =>
      (store.goalOf row).map Goal.priorityBy }

variable {store before after : PriorityStore} {row : TaskRow} {task : Task} {id : Nat}
  {value : Priority} {role : ActorRole}

theorem restoreTask_ok (read : store.restoreTask row = .ok task) :
    Readable row ∧ task = store.taskOf row := by
  unfold restoreTask Task.restore at read
  obtain ⟨restored, passed, recorded⟩ := bind_ok read
  obtain ⟨_, positive, passed⟩ := bind_ok passed
  obtain ⟨_, titled, passed⟩ := bind_ok passed
  obtain ⟨_, goalPositive, passed⟩ := bind_ok passed
  refine ⟨⟨of_decide_eq_true (require_ok positive), ?_, require_ok goalPositive⟩, ?_⟩
  · exact (Bool.not_eq_true' _).mp (require_ok titled)
  · rw [← Except.ok.inj recorded, ← Except.ok.inj passed]
    rfl

theorem restoreTask_readable (readable : Readable row) :
    store.restoreTask row = .ok (store.taskOf row) := by
  unfold restoreTask Task.restore
  rw [decide_eq_true readable.positive, readable.titled, readable.goalPositive]
  rfl

theorem readRow_ok (read : store.readRow id = .ok row) : store.tasks.get? id = some row := by
  unfold readRow at read
  split at read
  · rename_i found
    rw [found, Except.ok.inj read]
  · cases read

/-- The goal a write reads is the one stored. -/
theorem readGoal_ok {goalId : Nat} {goal : Goal} (read : store.readGoal goalId = .ok goal) :
    store.goals.get? goalId = some goal ∧ 0 < goal.id ∧ goal.id = goalId := by
  unfold readGoal at read
  split at read
  · rename_i stored found
    unfold Goal.restore at read
    obtain ⟨_, positive, read⟩ := bind_ok read
    obtain ⟨_, _, read⟩ := bind_ok read
    obtain ⟨_, _, read⟩ := bind_ok read
    obtain ⟨_, _, read⟩ := bind_ok read
    rw [← Except.ok.inj read]
    exact ⟨found, of_decide_eq_true (require_ok positive), (Keyed.get?_eq_some_iff.mp found).2⟩
  · cases read

/-- A row takes a person's value exactly when the task it is read as has it from a person. -/
theorem takes_iff :
    store.Takes row value ↔
      (store.taskOf row).priority = value ∧ (store.taskOf row).priorityBy = .human := by
  unfold Takes taskOf
  match row.priority, row.priorityBy, store.goalOf row with
  | some own, none, _ => simp [basePriority, PriorityBy.effective]
  | some own, some setBy, _ => cases setBy <;> simp [basePriority, PriorityBy.effective]
  | none, _, none => simp [basePriority, PriorityBy.effective]
  | none, _, some goal => simp [basePriority, PriorityBy.effective]

theorem held_iff :
    store.Held id value ↔
      ∃ task, store.readTask id = .ok task ∧ task.priority = value ∧ task.priorityBy = .human := by
  unfold Held readTask
  constructor
  · rintro ⟨row, found, readable, takes⟩
    refine ⟨store.taskOf row, ?_, takes_iff.mp takes⟩
    have read : store.readRow id = .ok row := by
      unfold readRow
      rw [found]
    rw [read]
    exact restoreTask_readable readable
  · rintro ⟨task, read, takes⟩
    obtain ⟨row, found, restored⟩ := bind_ok read
    obtain ⟨readable, rfl⟩ := restoreTask_ok restored
    exact ⟨row, readRow_ok found, readable, takes_iff.mpr takes⟩

/-! ### What a write leaves -/

/-- The task's row keeps its priority and its goal. -/
def KeepsRow (before after : PriorityStore) (id : Nat) : Prop :=
  ∀ row, before.tasks.get? id = some row → Readable row →
    ∃ later, after.tasks.get? id = some later ∧ Readable later ∧ later.priority = row.priority ∧
      later.priorityBy = row.priorityBy ∧ later.goalId = row.goalId

/-- A goal whose priority a person set keeps it. -/
def KeepsGoals (before after : PriorityStore) : Prop :=
  ∀ goalId goal, before.goals.get? goalId = some goal → goal.priorityBy = .human →
    ∃ later, after.goals.get? goalId = some later ∧ later.priority = goal.priority ∧
      later.priorityBy = .human

theorem KeepsRow.of_tasks (same : after.tasks = before.tasks) : KeepsRow before after id := by
  intro row found readable
  rw [← same] at found
  exact ⟨row, found, readable, rfl, rfl, rfl⟩

theorem KeepsGoals.of_goals (same : after.goals = before.goals) : KeepsGoals before after := by
  intro goalId goal found person
  rw [← same] at found
  exact ⟨goal, found, rfl, person⟩

/-- A row of the same priority and goal put in place of the task's own, or another task's row. -/
theorem KeepsRow.set {old new : TaskRow} {taskId : Nat} (found : store.tasks.get? taskId = some old)
    (named : new.id = old.id)
    (same : Readable old → Readable new ∧ new.priority = old.priority ∧
      new.priorityBy = old.priorityBy ∧ new.goalId = old.goalId) :
    KeepsRow store (store.setRow new) id := by
  intro row held readable
  have keyed : new.id = taskId := named.trans (Keyed.get?_eq_some_iff.mp found).2
  by_cases own : id = taskId
  · have isOld : old = row := Option.some.inj (found.symm.trans (own ▸ held))
    rw [← isOld] at readable ⊢
    obtain ⟨stays, priority, priorityBy, goalId⟩ := same readable
    exact ⟨new, Keyed.get?_set_self held (keyed.trans own.symm), stays, priority, priorityBy, goalId⟩
  · have different : id ≠ new.id := fun equal => own (equal.trans keyed)
    exact ⟨row, Keyed.get?_set_of_ne held different, readable, rfl, rfl, rfl⟩

theorem goalOf_eq (row : TaskRow) (goal : Goal) :
    store.goalOf row = some goal ↔
      ∃ goalId, row.goalId = some goalId ∧ store.goals.get? goalId = some goal := by
  unfold goalOf
  exact Option.bind_eq_some_iff

/-- Where the row and the goals keep what a person set, the task keeps it. -/
theorem Held.frame (held : before.Held id value) (rows : KeepsRow before after id)
    (goals : KeepsGoals before after) : after.Held id value := by
  obtain ⟨row, found, readable, takes⟩ := held
  obtain ⟨later, laterFound, laterReadable, priority, priorityBy, goalId⟩ := rows row found readable
  refine ⟨later, laterFound, laterReadable, ?_⟩
  rcases takes with ⟨own, person⟩ | ⟨inherits, goal, goalFound, goalValue, person⟩
  · exact Or.inl ⟨priority.trans own, priorityBy ▸ person⟩
  · obtain ⟨named, names, stored⟩ := (goalOf_eq row goal).mp goalFound
    obtain ⟨laterGoal, laterStored, laterValue, laterPerson⟩ := goals named goal stored person
    have laterGoalFound : after.goalOf later = some laterGoal :=
      (goalOf_eq later laterGoal).mpr ⟨named, goalId.trans names, laterStored⟩
    exact Or.inr ⟨priority.trans inherits, laterGoal, laterGoalFound, laterValue.trans goalValue,
      laterPerson⟩

/-! ### Moves -/

/-- A move to another goal puts the task's own priority, with the one it keeps, in the new goal. -/
theorem setGoal_ok {moved : Task} {destination : Option Destination} {movedBy : MovedBy}
    (passed : task.setGoal destination movedBy = .ok moved) :
    moved = task ∨
      moved = (task.keep (task.priorityKeptOnMove destination movedBy)).join destination := by
  obtain ⟨_, _, passed⟩ := bind_ok passed
  split at passed
  · exact Or.inl (Except.ok.inj passed).symm
  · exact Or.inr (Except.ok.inj passed).symm

/-- A move keeps a person's priority as the task's own, unless the task has its own, or goes to a
goal where a person set the same. -/
theorem keep_spec (destination : Option Destination) (person : task.priorityBy = .human) :
    (task.ownPriority.isSome = true ∧ task.keep (task.priorityKeptOnMove destination .ai) = task) ∨
    (task.ownPriority = none ∧
      task.keep (task.priorityKeptOnMove destination .ai) = task ∧
      ∃ goal, destination = some goal ∧ goal.priority = task.priority ∧
        goal.priorityBy = .human) ∨
    (task.ownPriority = none ∧
      task.keep (task.priorityKeptOnMove destination .ai) =
        { task with ownPriority := some task.priority, ownPriorityBy := some .human }) := by
  unfold Task.priorityKeptOnMove Task.personsPriorityTakenFromGoal
  rw [if_pos rfl]
  match own : task.ownPriority, destination with
  | some _, _ => exact Or.inl ⟨rfl, rfl⟩
  | none, none =>
    refine Or.inr (Or.inr ⟨rfl, ?_⟩)
    simp [Task.keep, person]
  | none, some goal =>
    by_cases same : goal.priority = task.priority ∧ goal.priorityBy = .human
    · refine Or.inr (Or.inl ⟨rfl, ?_, goal, rfl, same⟩)
      simp [Task.keep, same.1, same.2]
    · refine Or.inr (Or.inr ⟨rfl, ?_⟩)
      simp [Task.keep, person, same]

/-- The goal a task moves to is the stored goal its new row names. -/
theorem readGoals_ok {goalId : Option Nat} {goal : Option Goal}
    (read : store.readGoals goalId = .ok goal) :
    (goal.map Goal.id).all (0 < ·) = true ∧
      ∀ destination, goal = some destination →
        store.goals.get? destination.id = some destination := by
  unfold readGoals at read
  split at read
  · obtain ⟨stored, read, isStored⟩ := bind_ok read
    obtain ⟨found, positive, named⟩ := readGoal_ok read
    rw [← Except.ok.inj isStored]
    refine ⟨decide_eq_true positive, fun destination same => ?_⟩
    rw [← Option.some.inj same, named]
    exact found
  · rw [← Except.ok.inj read]
    exact ⟨rfl, fun _ none => (by cases none)⟩

/-- The row of a task moved by the AI takes the value a person set before. -/
theorem Takes.moved {goal : Option Goal} {moved : Task} (takes : store.Takes row value)
    (stored : ∀ destination, goal = some destination →
      store.goals.get? destination.id = some destination)
    (passed : (store.taskOf row).setGoal (goal.map Destination.of) .ai = .ok moved) :
    store.Takes (movedRow row moved) value := by
  obtain ⟨isValue, person⟩ := takes_iff.mp takes
  rcases setGoal_ok passed with rfl | rfl
  · -- the task stays in its goal
    have same : movedRow row (store.taskOf row) = row := by
      unfold movedRow taskOf
      simp only [ne_eq, not_true_eq_false, if_false]
    rw [same]
    exact takes
  · rcases keep_spec (goal.map Destination.of) person with
      ⟨own, kept⟩ | ⟨inherits, kept, destination, isDestination, sameValue, samePerson⟩ |
        ⟨inherits, kept⟩
    · -- its own priority stays as it is
      rw [kept]
      rcases takes with ⟨isOwn, notAi⟩ | ⟨isNone, _⟩
      · refine Or.inl ⟨isOwn, ?_⟩
        show (if row.priority ≠ row.priority then _ else row.priorityBy) ≠ some .ai
        rw [if_neg (not_not.mpr rfl)]
        exact notAi
      · have none : (store.taskOf row).ownPriority = none := isNone
        rw [none] at own
        cases own
    · -- the new goal has the same value, a person's
      rw [kept]
      obtain ⟨joined, isJoined, rfl⟩ := Option.map_eq_some_iff.mp isDestination
      refine Or.inr ⟨inherits, joined, ?_, sameValue.trans isValue, samePerson⟩
      refine (goalOf_eq _ _).mpr ⟨joined.id, ?_, stored joined isJoined⟩
      rw [isJoined]
      rfl
    · -- the value becomes its own, a person's
      rw [kept]
      have rowInherits : row.priority = none := inherits
      refine Or.inl ⟨congrArg some isValue, ?_⟩
      show (if row.priority ≠ some _ then some PriorityBy.human else row.priorityBy) ≠ some .ai
      rw [rowInherits, if_pos (by simp)]
      simp

theorem Readable.moved {goal : Option Goal} {moved : Task} (readable : Readable row)
    (positive : (goal.map Goal.id).all (0 < ·) = true)
    (passed : (store.taskOf row).setGoal (goal.map Destination.of) .ai = .ok moved) :
    Readable (movedRow row moved) := by
  refine ⟨readable.positive, readable.titled, ?_⟩
  show moved.goalId.all (0 < ·) = true
  rcases setGoal_ok passed with rfl | rfl
  · exact readable.goalPositive
  · show ((goal.map Destination.of).map Destination.id).all (0 < ·) = true
    rw [Option.map_map]
    exact positive

/-- A move by the AI, of this task or of another, keeps what a person set. -/
theorem Held.setGoalIn {taskId : Nat} {goalId : Option Nat} {dependsOnGoal createsCycle : Bool}
    (held : before.Held id value)
    (applied : before.setGoalIn taskId goalId .ai dependsOnGoal createsCycle = .ok after) :
    after.Held id value := by
  obtain ⟨row, isRow, applied⟩ := bind_ok applied
  obtain ⟨task, restored, applied⟩ := bind_ok applied
  obtain ⟨readable, isTask⟩ := restoreTask_ok restored
  rw [isTask] at applied
  obtain ⟨goal, isGoal, applied⟩ := bind_ok applied
  obtain ⟨moved, moves, applied⟩ := bind_ok applied
  obtain ⟨_, _, applied⟩ := bind_ok applied
  obtain ⟨positive, stored⟩ := readGoals_ok isGoal
  have found := readRow_ok isRow
  have named : row.id = taskId := (Keyed.get?_eq_some_iff.mp found).2
  rw [← Except.ok.inj applied]
  obtain ⟨own, ownFound, ownReadable, takes⟩ := held
  by_cases same : id = taskId
  · have isOwn : own = row := Option.some.inj (ownFound.symm.trans (same ▸ found))
    rw [isOwn] at takes
    refine ⟨movedRow row moved, ?_, readable.moved positive moves, takes.moved stored moves⟩
    exact Keyed.get?_set_self ownFound (named.trans same.symm)
  · refine ⟨own, Keyed.get?_set_of_ne ownFound fun equal => ?_, ownReadable, takes⟩
    exact same (equal.trans named)

/-! ### Edits -/

/-- Only a person's role changes a priority a person set. -/
theorem checkPriorityChange_ok {holder : PriorityHolder} {priority : Priority}
    {setBy : PriorityBy} {checked : Unit} (isAi : changesPersonsPriority role = false)
    (passed : checkPriorityChange role holder priority setBy = .ok checked) : setBy ≠ .human := by
  have allowed := require_ok passed
  rw [isAi, Bool.or_false, bne_iff_ne] at allowed
  exact allowed

/-- An AI role leaves the priority of a task that has a person's, and changes another task's. -/
theorem Held.changePriority {taskId : Nat} {priority : Option Priority}
    (held : before.Held id value) (isAi : changesPersonsPriority role = false)
    (applied : before.changePriority role taskId priority = .ok after) : after.Held id value := by
  obtain ⟨row, isRow, applied⟩ := bind_ok applied
  obtain ⟨task, restored, applied⟩ := bind_ok applied
  obtain ⟨changed, _, applied⟩ := bind_ok applied
  split at applied
  · rw [← Except.ok.inj applied]
    exact held
  · obtain ⟨_, allowed, applied⟩ := bind_ok applied
    obtain ⟨_, isTask⟩ := restoreTask_ok restored
    rw [isTask] at allowed
    have found := readRow_ok isRow
    have named : row.id = taskId := (Keyed.get?_eq_some_iff.mp found).2
    obtain ⟨own, ownFound, ownReadable, takes⟩ := held
    have different : id ≠ taskId := by
      intro same
      have isOwn : own = row := Option.some.inj (ownFound.symm.trans (same ▸ found))
      rw [isOwn] at takes
      exact checkPriorityChange_ok isAi allowed (takes_iff.mp takes).2
    rw [← Except.ok.inj applied]
    refine ⟨own, Keyed.get?_set_of_ne ownFound fun equal => ?_, ownReadable, takes⟩
    exact different (equal.trans named)

/-- A goal put in place of its own keeps what a person set where it keeps its own. -/
theorem KeepsGoals.set {old new : Goal} {goalId : Nat} (found : store.goals.get? goalId = some old)
    (named : new.id = old.id)
    (same : old.priorityBy = .human → new.priority = old.priority ∧ new.priorityBy = .human) :
    KeepsGoals store { store with goals := store.goals.set new } := by
  intro wanted goal held person
  have keyed : new.id = goalId := named.trans (Keyed.get?_eq_some_iff.mp found).2
  by_cases own : wanted = goalId
  · have isOld : old = goal := Option.some.inj (found.symm.trans (own ▸ held))
    rw [← isOld] at person ⊢
    exact ⟨new, Keyed.get?_set_self held (keyed.trans own.symm), same person⟩
  · have different : wanted ≠ new.id := fun equal => own (equal.trans keyed)
    exact ⟨goal, Keyed.get?_set_of_ne held different, rfl, person⟩

/-- What an edit of a goal leaves of its number and its priority. -/
theorem Goal.edit_ok {goal edited : Goal} {change : GoalEdit} (passed : goal.edit change = .ok edited) :
    edited.id = goal.id ∧ edited.priority = change.priority.getD goal.priority := by
  obtain ⟨prioritized, first, passed⟩ := bind_ok passed
  obtain ⟨tagged, second, third⟩ := bind_ok passed
  have firstKept : prioritized.id = goal.id ∧
      prioritized.priority = change.priority.getD goal.priority := by
    match isPriority : change.priority with
    | some priority =>
      rw [isPriority] at first
      obtain ⟨_, _, first⟩ := bind_ok first
      rw [← Except.ok.inj first]
      exact ⟨rfl, rfl⟩
    | none =>
      rw [isPriority] at first
      rw [← Except.ok.inj first]
      exact ⟨rfl, rfl⟩
  have secondKept : tagged.id = prioritized.id ∧ tagged.priority = prioritized.priority := by
    match isTags : change.tags with
    | some tags =>
      rw [isTags] at second
      obtain ⟨_, _, second⟩ := bind_ok second
      rw [← Except.ok.inj second]
      exact ⟨rfl, rfl⟩
    | none =>
      rw [isTags] at second
      rw [← Except.ok.inj second]
      exact ⟨rfl, rfl⟩
  have thirdKept : edited.id = tagged.id ∧ edited.priority = tagged.priority := by
    match isTitle : change.title with
    | some title =>
      rw [isTitle] at third
      obtain ⟨_, _, third⟩ := bind_ok third
      rw [← Except.ok.inj third]
      exact ⟨rfl, rfl⟩
    | none =>
      rw [isTitle] at third
      rw [← Except.ok.inj third]
      exact ⟨rfl, rfl⟩
  exact ⟨thirdKept.1.trans (secondKept.1.trans firstKept.1),
    thirdKept.2.trans (secondKept.2.trans firstKept.2)⟩

/-- An AI role that edits a goal whose priority a person set leaves it. -/
theorem editedBy_ok {old : Goal} {priority : Option Priority} {priorityBy : PriorityBy}
    (isAi : changesPersonsPriority role = false) (person : old.priorityBy = .human)
    (passed : editedBy role old priority = .ok priorityBy) :
    priority.getD old.priority = old.priority ∧ priorityBy = .human := by
  unfold editedBy at passed
  match priority with
  | none => exact ⟨rfl, (Except.ok.inj passed).symm.trans person⟩
  | some given =>
    dsimp only at passed
    by_cases different : given ≠ old.priority
    · rw [if_pos different] at passed
      obtain ⟨_, allowed, _⟩ := bind_ok passed
      exact absurd person (checkPriorityChange_ok isAi allowed)
    · rw [if_neg different] at passed
      exact ⟨not_not.mp different, (Except.ok.inj passed).symm.trans person⟩

theorem KeepsGoals.editGoal {goalId : Nat} {change : GoalEdit}
    (isAi : changesPersonsPriority role = false)
    (applied : before.editGoal role goalId change = .ok after) : KeepsGoals before after := by
  obtain ⟨old, read, applied⟩ := bind_ok applied
  obtain ⟨priorityBy, setBy, applied⟩ := bind_ok applied
  obtain ⟨edited, edits, applied⟩ := bind_ok applied
  obtain ⟨found, _, _⟩ := readGoal_ok read
  obtain ⟨named, priority⟩ := Goal.edit_ok edits
  rw [← Except.ok.inj applied]
  refine KeepsGoals.set found named fun person => ?_
  obtain ⟨unchanged, isPerson⟩ := editedBy_ok isAi person setBy
  exact ⟨priority.trans unchanged, isPerson⟩

theorem KeepsGoals.addGoal {creator : Creator} {request : Option (Nat × Priority)} {title : String}
    {priority : Option Priority} {tags : List String}
    (applied : before.addGoal creator request title priority tags = .ok after) :
    KeepsGoals before after := by
  obtain ⟨_, _, applied⟩ := bind_ok applied
  obtain ⟨_, _, applied⟩ := bind_ok applied
  obtain ⟨_, _, applied⟩ := bind_ok applied
  rw [← Except.ok.inj applied]
  intro goalId goal found person
  refine ⟨goal, Keyed.get?_add (fun old member => ?_) found, rfl, person⟩
  exact Nat.ne_of_lt (Keyed.lt_nextKey member)

theorem KeepsRow.insertTask {creator : Creator} {request : Option (Nat × Priority)}
    {title : String} {goalId : Option Nat} {priority : Option Priority}
    (applied : before.insertTask creator request title goalId priority = .ok after) :
    KeepsRow before after id ∧ after.goals = before.goals := by
  obtain ⟨_, _, applied⟩ := bind_ok applied
  obtain ⟨_, _, applied⟩ := bind_ok applied
  obtain ⟨_, _, applied⟩ := bind_ok applied
  obtain ⟨_, _, applied⟩ := bind_ok applied
  rw [← Except.ok.inj applied]
  refine ⟨fun row found readable => ?_, rfl⟩
  refine ⟨row, Keyed.get?_add (fun old member => ?_) found, readable, rfl, rfl, rfl⟩
  exact Nat.ne_of_lt (Keyed.lt_nextKey member)

/-! ### Runs -/

/-- A step of an AI role keeps what a person set. -/
theorem Held.step (held : before.Held id value) (next : AiStep before after) :
    after.Held id value := by
  cases next with
  | refused => exact held
  | done role operation isAi applied =>
    cases operation with
    | setGoal taskId goalId dependsOnGoal createsCycle =>
      have movedBy : MovedBy.of role = .ai := by
        unfold MovedBy.of
        rw [isAi]
        rfl
      rw [apply, movedBy] at applied
      exact held.setGoalIn applied
    | setPriority taskId priority => exact held.changePriority isAi applied
    | editGoal goalId change =>
      have tasks : after.tasks = before.tasks := by
        obtain ⟨_, _, applied⟩ := bind_ok applied
        obtain ⟨_, _, applied⟩ := bind_ok applied
        obtain ⟨_, _, applied⟩ := bind_ok applied
        rw [← Except.ok.inj applied]
      exact held.frame (.of_tasks tasks) (.editGoal isAi applied)
    | addGoal creator request title priority tags =>
      have tasks : after.tasks = before.tasks := by
        obtain ⟨_, _, applied⟩ := bind_ok applied
        obtain ⟨_, _, applied⟩ := bind_ok applied
        obtain ⟨_, _, applied⟩ := bind_ok applied
        rw [← Except.ok.inj applied]
      exact held.frame (.of_tasks tasks) (.addGoal applied)
    | addTask creator request title goalId priority =>
      obtain ⟨rows, goals⟩ := KeepsRow.insertTask applied
      exact held.frame rows (.of_goals goals)
    | editTask taskId title =>
      obtain ⟨row, isRow, applied⟩ := bind_ok applied
      obtain ⟨task, restored, applied⟩ := bind_ok applied
      obtain ⟨edited, edits, applied⟩ := bind_ok applied
      obtain ⟨_, titled, edits⟩ := bind_ok edits
      obtain ⟨_, _, edits⟩ := bind_ok edits
      rw [← Except.ok.inj applied, ← Except.ok.inj edits]
      refine held.frame (KeepsRow.set (readRow_ok isRow) rfl fun readable => ?_) (.of_goals rfl)
      have nonBlank := (Bool.not_eq_true' _).mp (require_ok titled)
      exact ⟨⟨readable.positive, nonBlank, readable.goalPositive⟩, rfl, rfl, rfl⟩
    | setStatus taskId status =>
      obtain ⟨row, isRow, applied⟩ := bind_ok applied
      rw [← Except.ok.inj applied]
      refine held.frame (KeepsRow.set (readRow_ok isRow) rfl fun readable => ?_) (.of_goals rfl)
      exact ⟨⟨readable.positive, readable.titled, readable.goalPositive⟩, rfl, rfl, rfl⟩
    | setClosed goalId closed =>
      obtain ⟨goal, read, applied⟩ := bind_ok applied
      obtain ⟨found, _, _⟩ := readGoal_ok read
      rw [← Except.ok.inj applied]
      exact held.frame (.of_tasks rfl) (KeepsGoals.set found rfl fun person => ⟨rfl, person⟩)

/-- Whatever the AI's roles do, a task whose priority a person set is read with that priority, set
by a person, at every later point, its own or its goal's. -/
theorem persons_priority_kept {task : Task} (path : Relation.ReflTransGen AiStep before after)
    (read : before.readTask id = .ok task) (person : task.priorityBy = .human) :
    ∃ later, after.readTask id = .ok later ∧ later.priority = task.priority ∧
      later.priorityBy = .human := by
  have held : before.Held id task.priority := held_iff.mpr ⟨task, read, rfl, person⟩
  refine held_iff.mp (path_invariant path (Held · id task.priority) held ?_)
  intro first second kept next
  exact kept.step next

/-- A goal of a person's with a task that takes its priority, and a goal of the AI's. -/
def goalScoped : PriorityStore where
  tasks := Keyed.empty.put ⟨1, "fix the build", .ready, some 1, none, none⟩
  goals := (Keyed.empty.put ⟨2, "tidy up", .high, .ai, [], none, none⟩).put
    ⟨1, "ship it", .high, .human, [], none, none⟩

/-- The task moved to the goal of the AI's: the value becomes its own. -/
def carried : PriorityStore :=
  goalScoped.setRow ⟨1, "fix the build", .ready, some 2, some .high, some .human⟩

/-- The goal of the AI's lowered. -/
def lowered : PriorityStore :=
  { carried with goals := carried.goals.set ⟨2, "tidy up", .low, .ai, [], none, none⟩ }

theorem path_lowered : Relation.ReflTransGen AiStep goalScoped lowered := by
  have moved : AiStep goalScoped carried := .done .planner (.setGoal 1 (some 2) false false) rfl rfl
  have edited : AiStep carried lowered :=
    .done .planner (.editGoal 2 ⟨none, some .low, none⟩) rfl rfl
  have refused : AiStep lowered lowered :=
    .refused .supervisor (.setPriority 1 none) (.personsPriority (.task 1) .high .supervisor) rfl rfl
  exact ((Relation.ReflTransGen.single moved).tail edited).tail refused

theorem persons_priority_kept_lowered :
    ∃ later, lowered.readTask 1 = .ok later ∧ later.priority = .high ∧ later.priorityBy = .human :=
  @persons_priority_kept goalScoped lowered 1
    (goalScoped.taskOf ⟨1, "fix the build", .ready, some 1, none, none⟩) path_lowered rfl rfl

end PriorityStore

end Dagq.Priorities
