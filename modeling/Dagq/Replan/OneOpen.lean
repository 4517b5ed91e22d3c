/-
This file derives that the writes keep one open operation of a task, whoever
writes and whatever it read: an edit opens an operation on a task with none
open, or moves one that has ended or is not fenced yet while it is alone. Along
any run the generation of an operation only grows, and one that guards its run
keeps it. A write decided under another generation changes nothing.
-/

import Dagq.Replan.Runs

namespace Dagq.Replan

open Dagq.Lib

namespace ReplanStore

/-! ### One open operation -/

/-- The rows say of an operation that it is closed where its status does, and no task has two open
ones. -/
structure OneOpen (store : ReplanStore) : Prop where
  closedAt : ∀ op ∈ store.operations.items, op.closedAt.isSome = op.status.isClosed
  alone : ∀ first ∈ store.operations.items, ∀ second ∈ store.operations.items,
    first.taskId = second.taskId → first.closedAt = none → second.closedAt = none → first = second

theorem oneOpen_empty : OneOpen empty :=
  ⟨fun _ member => absurd member List.not_mem_nil, fun _ member => absurd member List.not_mem_nil⟩

theorem OneOpen.of_operations {before after : ReplanStore} (held : OneOpen before)
    (same : after.operations = before.operations) : OneOpen after := by
  refine ⟨?_, ?_⟩
  · rw [same]
    exact held.closedAt
  · rw [same]
    exact held.alone

/-- A row of an operation keeps it, where no other of its task is open while it is. -/
theorem OneOpen.setOperation {store : ReplanStore} (held : OneOpen store)
    (old : ReplanOperation) {op : ReplanOperation} (id : op.id = old.id) (taskId : op.taskId = old.taskId)
    (closedAt : op.closedAt.isSome = op.status.isClosed)
    (alone : op.closedAt = none → ∀ other ∈ store.openOperations old.taskId, other.id = old.id) :
    OneOpen (store.setOperation op) := by
  have other_is : op.closedAt = none → ∀ other ∈ store.operations.items, other.taskId = op.taskId →
      other.closedAt = none → other.id ≠ op.id → False := by
    intro opened other inside sameTask otherOpened different
    have inOpen := mem_openOperations.mpr ⟨inside, sameTask.trans taskId, otherOpened⟩
    exact different ((alone opened other inOpen).trans id.symm)
  refine ⟨fun row inside => ?_, fun first firstIn second secondIn sameTask firstOpen secondOpen => ?_⟩
  · rcases Keyed.mem_set.mp inside with ⟨rfl, _⟩ | ⟨inside, _⟩
    · exact closedAt
    · exact held.closedAt row inside
  · rcases Keyed.mem_set.mp firstIn with ⟨firstNew, _⟩ | ⟨firstOld, firstOther⟩
    · rcases Keyed.mem_set.mp secondIn with ⟨secondNew, _⟩ | ⟨secondOld, secondOther⟩
      · exact firstNew.trans secondNew.symm
      · rw [firstNew] at sameTask firstOpen
        exact (other_is firstOpen second secondOld sameTask.symm secondOpen secondOther).elim
    · rcases Keyed.mem_set.mp secondIn with ⟨secondNew, _⟩ | ⟨secondOld, _⟩
      · rw [secondNew] at sameTask secondOpen
        exact (other_is secondOpen first firstOld sameTask firstOpen firstOther).elim
      · exact held.alone first firstOld second secondOld sameTask firstOpen secondOpen

/-- While the row was open already, no other of its task is. -/
theorem OneOpen.alone_of_open {store : ReplanStore} (held : OneOpen store) {old : ReplanOperation}
    (member : old ∈ store.operations.items) (opened : old.closedAt = none) :
    ∀ other ∈ store.openOperations old.taskId, other.id = old.id := by
  intro other inside
  obtain ⟨inside, sameTask, otherOpened⟩ := mem_openOperations.mp inside
  rw [held.alone other inside old member sameTask otherOpened opened]

theorem OneOpen.same {store : ReplanStore} (held : OneOpen store) {old op : ReplanOperation}
    (member : old ∈ store.operations.items) (same : SameRow old op) :
    OneOpen (store.setOperation op) := by
  refine held.setOperation old same.id same.taskId ?_ fun opened => ?_
  · rw [same.closedAt, same.status]
    exact held.closedAt old member
  · exact held.alone_of_open member (same.closedAt ▸ opened)

theorem OneOpen.edit {before after : ReplanStore} (held : OneOpen before)
    (edit : Edit before after) : OneOpen after := by
  cases edit with
  | note | claim | refer | endRequest | addPlanner | waitPlanner | closePlanner =>
    exact held.of_operations rfl
  | opens op fresh closedAt status requestId alone =>
    have isFresh : ∀ old ∈ before.operations.items, old.id ≠ op.id := fun old member =>
      fresh ▸ Nat.ne_of_lt (Keyed.lt_nextKey member)
    have noOther : ∀ other ∈ before.operations.items, other.taskId = op.taskId →
        other.closedAt = none → False := by
      intro other inside sameTask opened
      have inOpen := mem_openOperations.mpr ⟨inside, sameTask, opened⟩
      rw [alone] at inOpen
      cases inOpen
    refine ⟨fun row inside => ?_,
      fun first firstIn second secondIn sameTask firstOpen secondOpen => ?_⟩
    · rcases (Keyed.mem_add isFresh).mp inside with inside | rfl
      · exact held.closedAt row inside
      · rw [closedAt, status]
        rfl
    · rcases (Keyed.mem_add isFresh).mp firstIn with firstOld | firstNew
      · rcases (Keyed.mem_add isFresh).mp secondIn with secondOld | secondNew
        · exact held.alone first firstOld second secondOld sameTask firstOpen secondOpen
        · rw [secondNew] at sameTask
          exact (noOther first firstOld sameTask firstOpen).elim
      · rcases (Keyed.mem_add isFresh).mp secondIn with secondOld | secondNew
        · rw [firstNew] at sameTask
          exact (noOther second secondOld sameTask.symm secondOpen).elim
        · exact firstNew.trans secondNew.symm
  | touch old op member same => exact held.same member same
  | move old op member moved alone _ =>
    refine held.setOperation old moved.id moved.taskId moved.closedAt fun opened => ?_
    have notClosed : op.status.isClosed = false := by
      rw [← moved.closedAt, opened]
      rfl
    by_cases guards : old.status.guards = true
    · refine held.alone_of_open member (Option.isNone_iff_eq_none.mp
        (Option.isSome_eq_false_iff.mp ?_))
      rw [held.closedAt old member]
      by_contra closed
      have free := ReplanStatus.not_guards_of_closed (eq_true_of_ne_false closed)
      rw [free] at guards
      cases guards
    · refine alone ?_
      rw [needsTaskAlone, notClosed, eq_false_of_ne_true guards]
      rfl
  | carry old op member opened free id taskId status closedAt _ _ =>
    refine held.setOperation old id taskId ?_ fun _ => held.alone_of_open member opened
    rw [closedAt, status]
    exact held.closedAt old member
  | attach old op request member opened none fresh own same =>
    have rows : OneOpen { before with requests := before.requests.add request } :=
      held.of_operations rfl
    refine rows.setOperation old same.id same.taskId ?_ fun _ => rows.alone_of_open member opened
    rw [same.closedAt, same.status]
    exact held.closedAt old member

theorem OneOpen.change {before after : ReplanStore} (held : OneOpen before)
    (change : Change before after) : OneOpen after := by
  rcases change with edit | renewal
  · exact held.edit edit
  · cases renewal with
    | renew old op request ended member opened names isEnded recorded fresh status own same =>
      have rows : OneOpen (({ before with requests := before.requests.add request }).note
          (.requestRecorded request.id request.requestedBy old.id (some ended))) :=
        held.of_operations rfl
      refine rows.setOperation old same.id same.taskId ?_ fun _ =>
        rows.alone_of_open member opened
      rw [same.closedAt, same.status]
      exact held.closedAt old member

theorem oneOpen_of_reached {store : ReplanStore} (reached : Reached store) : OneOpen store := by
  refine reached.invariant OneOpen oneOpen_empty fun before after _ held step => ?_
  exact path_invariant (written_of_step step).changes OneOpen held fun _ _ => OneOpen.change

/-! ### What an operation keeps -/

/-- Every operation goes on, its generation no lower; one past its fence keeps its run. -/
def Advance (before after : ReplanStore) : Prop :=
  ∀ old ∈ before.operations.items, ∃ new ∈ after.operations.items, new.id = old.id ∧
    old.generation ≤ new.generation ∧
    (old.status.settled = true → new.status.settled = true ∧ new.runId = old.runId)

theorem Advance.refl (store : ReplanStore) : Advance store store :=
  fun old member => ⟨old, member, rfl, le_rfl, fun settled => ⟨settled, rfl⟩⟩

theorem Advance.trans {first second third : ReplanStore} (earlier : Advance first second)
    (later : Advance second third) : Advance first third := by
  intro old member
  obtain ⟨middle, inside, sameId, grows, keeps⟩ := earlier old member
  obtain ⟨new, newIn, newId, growsOn, keepsOn⟩ := later middle inside
  refine ⟨new, newIn, newId.trans sameId, grows.trans growsOn, fun settled => ?_⟩
  obtain ⟨settled, sameRun⟩ := keeps settled
  obtain ⟨settled, stillRun⟩ := keepsOn settled
  exact ⟨settled, stillRun.trans sameRun⟩

theorem Advance.of_operations {before after : ReplanStore}
    (same : after.operations = before.operations) : Advance before after := by
  intro old member
  refine ⟨old, ?_, rfl, le_rfl, fun settled => ⟨settled, rfl⟩⟩
  rw [same]
  exact member

/-- A row written advances, where it keeps what the advance asks of it. -/
theorem advance_setOperation {before middle : ReplanStore} {old op : ReplanOperation}
    (sameRows : middle.operations = before.operations) (member : old ∈ before.operations.items)
    (id : op.id = old.id) (generation : old.generation ≤ op.generation)
    (keeps : old.status.settled = true → op.status.settled = true ∧ op.runId = old.runId) :
    Advance before (middle.setOperation op) := by
  intro row inside
  by_cases isOld : row.id = old.id
  · obtain rfl := before.operations.eq_of_key inside member isOld
    have written : row ∈ middle.operations.items := by
      rw [sameRows]
      exact inside
    exact ⟨op, mem_setOperation_self written id, id, generation, keeps⟩
  · have different : row.id ≠ op.id := fun same => isOld (same.trans id)
    refine ⟨row, (mem_setOperation_other different).mpr ?_, rfl, le_rfl,
      fun settled => ⟨settled, rfl⟩⟩
    rw [sameRows]
    exact inside

theorem advance_same {before middle : ReplanStore} {old op row : ReplanOperation}
    (sameRows : middle.operations = before.operations) (member : old ∈ before.operations.items)
    (same : SameRow row op) (id : row.id = old.id) (generation : row.generation = old.generation)
    (status : row.status = old.status) (runId : row.runId = old.runId) :
    Advance before (middle.setOperation op) := by
  refine advance_setOperation sameRows member (same.id.trans id) (generation ▸ same.generation)
    fun settled => ⟨?_, same.runId.trans runId⟩
  rw [same.status, status]
  exact settled

theorem advance_of_edit {before after : ReplanStore} (held : OneOpen before)
    (edit : Edit before after) : Advance before after := by
  cases edit with
  | note | claim | refer | endRequest | addPlanner | waitPlanner | closePlanner =>
    exact .of_operations rfl
  | opens op fresh =>
    intro old member
    refine ⟨old, (Keyed.mem_add fun other inside => ?_).mpr (Or.inl member), rfl, le_rfl,
      fun settled => ⟨settled, rfl⟩⟩
    exact fresh ▸ Nat.ne_of_lt (Keyed.lt_nextKey inside)
  | touch old op member same => exact advance_same rfl member same rfl rfl rfl rfl
  | move old op member moved _ _ =>
    exact advance_setOperation rfl member moved.id moved.generation fun settled =>
      ⟨ReplanStatus.settled_of_canMoveTo settled moved.moves, moved.runId⟩
  | carry old op member opened free id _ _ _ _ generation =>
    refine advance_setOperation rfl member id generation fun settled => ?_
    have notClosed : old.status.isClosed = false := by
      rw [← held.closedAt old member, opened]
      rfl
    rw [ReplanStatus.settled, free, notClosed] at settled
    cases settled
  | attach old op request member opened none fresh own same =>
    exact advance_same rfl member same rfl rfl rfl rfl

theorem advance_of_change {before after : ReplanStore} (held : OneOpen before)
    (change : Change before after) : Advance before after := by
  rcases change with edit | renewal
  · exact advance_of_edit held edit
  · cases renewal with
    | renew old op request ended member opened names isEnded recorded fresh status own same =>
      exact advance_same rfl member same rfl rfl rfl rfl

theorem advance_of_path {before after : ReplanStore} (reached : Reached before)
    (path : Relation.ReflTransGen ReplanStep before after) : Advance before after := by
  induction path with
  | refl => exact .refl before
  | tail earlier step inductionHypothesis =>
    rename_i middle last
    have held := oneOpen_of_reached (reached.path earlier)
    have advanced := path_invariant (written_of_step step).changes
      (fun store => OneOpen store ∧ Advance middle store) ⟨held, .refl middle⟩
      fun _ _ kept change => ⟨kept.1.change change, kept.2.trans (advance_of_change kept.1 change)⟩
    exact inductionHypothesis.trans advanced.2

/-! ### A write under another generation -/

theorem moveInAs_stale {outside : Outside} {store after : ReplanStore} (op : ReplanOperation)
    {generation : Int} {step : ReplanMove} {now : Int} {apply : Bool}
    (member : op ∈ store.operations.items) (stale : op.generation ≠ generation)
    (moves : store.moveInAs outside op.id generation step now apply = .ok after) : False := by
  obtain ⟨row, _, read, sameGeneration, _⟩ := moveInAs_ok moves
  obtain ⟨inside, same⟩ := readOperation_ok read
  obtain rfl := store.operations.eq_of_key inside member same
  exact stale sameGeneration

/-- A write decided under a generation other than the operation's is refused, or finds nothing to
do. -/
theorem write_stale {outside : Outside} {now : Int} {store after : ReplanStore}
    {write : ReplanWrite} {op : ReplanOperation} {generation : Int}
    (member : op ∈ store.operations.items)
    (decided : write.decidedUnder = some (op.id, generation)) (stale : op.generation ≠ generation)
    (written : store.write outside now write = .ok after) : after = store := by
  have sameRow : ∀ {row : ReplanOperation}, store.readOperation op.id = .ok row → row = op := by
    intro row read
    obtain ⟨inside, same⟩ := readOperation_ok read
    exact store.operations.eq_of_key inside member same
  cases write with
  | move id given step apply =>
    cases decided
    exact (moveInAs_stale op member stale written).elim
  | resolve choice problem byRole byId =>
    obtain ⟨isOp, isGeneration⟩ := Prod.mk.inj (Option.some.inj decided)
    unfold write resolveReplan at written
    obtain ⟨_, _, written⟩ := bind_ok written
    obtain ⟨row, read, written⟩ := bind_ok written
    obtain ⟨target, resolved, _⟩ := bind_ok written
    rw [isOp] at read
    obtain rfl := sameRow read
    exact absurd ((resolveTo_ok resolved).2.trans isGeneration) stale
  | holdApply id given reason again replan =>
    cases decided
    unfold write holdApply at written
    obtain ⟨row, read, written⟩ := bind_ok written
    obtain rfl := sameRow read
    rw [if_pos stale] at written
    exact (Except.ok.inj written).symm
  | replanAgain id given reason =>
    cases decided
    obtain ⟨row, read, again⟩ := bind_ok written
    obtain rfl := sameRow read
    unfold replanAgain at again
    obtain ⟨_, _, again⟩ := bind_ok again
    obtain ⟨_, moves, _⟩ := bind_ok again
    exact (moveInAs_stale row member stale moves).elim
  | reopen id given why =>
    cases decided
    unfold write reopenBlocked at written
    obtain ⟨row, read, written⟩ := bind_ok written
    obtain rfl := sameRow read
    simp only at written
    split at written
    · exact (Except.ok.inj written).symm
    · obtain ⟨closed, supersedes, moves⟩ := bind_ok written
      have stays := ((supersede_ok supersedes).2 row fun other inside =>
        of_decide_eq_true (List.mem_filter.mp inside).2).mpr member
      exact (moveInAs_stale row stays stale moves).elim
  | record | claim | openPlanner | closePlanner | waitForAnswer | decline | link | nameProposal =>
    cases decided

theorem act_stale {outside : Outside} {now : Int} {store : ReplanStore} {write : ReplanWrite}
    {op : ReplanOperation} {generation : Int} (member : op ∈ store.operations.items)
    (decided : write.decidedUnder = some (op.id, generation))
    (stale : op.generation ≠ generation) : store.act outside now write = store := by
  unfold act
  split
  · rename_i written
    exact write_stale member decided stale written
  · rfl

theorem openOperations_length {store : ReplanStore} (held : OneOpen store) (task : Nat) :
    (store.openOperations task).length ≤ 1 := by
  refine store.operations.length_filter_le_one _ fun first firstIn second secondIn => ?_
  obtain ⟨firstRow, firstTask, firstOpen⟩ := mem_openOperations.mp firstIn
  obtain ⟨secondRow, secondTask, secondOpen⟩ := mem_openOperations.mp secondIn
  exact held.alone first firstRow second secondRow (firstTask.trans secondTask.symm) firstOpen
    secondOpen

/-- At every point each task has one open operation at most; from there on the generation of an
operation only grows, and one that guards its run keeps it; and a write decided under a generation
other than the operation's changes nothing. -/
theorem operations_orderly {store : ReplanStore} (reached : Reached store) :
    (∀ task, (store.openOperations task).length ≤ 1) ∧
    (∀ later, Relation.ReflTransGen ReplanStep store later → ∀ op ∈ store.operations.items,
      ∃ row ∈ later.operations.items, row.id = op.id ∧ op.generation ≤ row.generation ∧
        (op.status.guards = true → row.runId = op.runId)) ∧
    (∀ outside now write generation, ∀ op ∈ store.operations.items,
      ReplanWrite.decidedUnder write = some (op.id, generation) → op.generation ≠ generation →
        store.act outside now write = store) := by
  refine ⟨openOperations_length (oneOpen_of_reached reached), fun later path op member => ?_,
    fun outside now write generation op member decided stale => act_stale member decided stale⟩
  obtain ⟨row, inside, same, grows, keeps⟩ := advance_of_path reached path op member
  refine ⟨row, inside, same, grows, fun guards => (keeps ?_).2⟩
  rw [ReplanStatus.settled, guards]
  rfl

/-- Nothing outside stands in the way. -/
def quiet : Outside where
  hold := fun _ => none
  premise := fun _ _ _ => .ok ()
  release := fun _ _ => .ok ()
  children := fun _ => []
  taskStatus := fun _ => .inProgress
  goalOf := fun _ => none
  runDone := fun _ => false

/-- A person's request on the run of task 1. -/
def requested : ReplanStore :=
  (empty.act quiet 0 (.claim 1 "first")).act quiet 1 (.record ⟨"first", "the plan is wrong", []⟩
    .manual "user" "person")

theorem reached_requested : Reached requested :=
  .step (.step .start ⟨quiet, 0, .claim 1 "first", rfl⟩) ⟨quiet, 1, _, rfl⟩

theorem operations_orderly_requested :
    (requested.openOperations 1).length = 1 ∧ (∀ task, (requested.openOperations task).length ≤ 1) ∧
      requested.act quiet 2 (.move 1 0 { target := .pauseRequested, reason := "diagnosed" } false) =
        requested := by
  refine ⟨by decide +kernel, (operations_orderly reached_requested).1, ?_⟩
  have found : ∃ op, requested.operations.get? 1 = some op ∧ op.generation = 1 := by
    decide +kernel
  obtain ⟨op, found, generation⟩ := found
  obtain ⟨member, isOne⟩ := Keyed.get?_eq_some_iff.mp found
  refine (operations_orderly reached_requested).2.2 quiet 2 _ 0 op member ?_ ?_
  · rw [isOne]
    rfl
  · rw [generation]
    decide

end ReplanStore

end Dagq.Replan
