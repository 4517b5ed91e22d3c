/-
This file says once what a write of the store may do: one edit of it at a time,
each with the guard under which a write makes it, and the renewal of a request
apart, which a write makes at most once and after its other edits. The facts
that hold along every run of writes are then facts about one edit.
-/

import Dagq.Replan.Store

namespace Dagq.Replan

open Dagq.Lib

/-- The request a record renews, if it is the record of a renewal. -/
def ReplanRecord.renews : ReplanRecord → Option Nat
  | .requestRecorded _ _ _ renews => renews
  | _ => none

namespace ReplanStore

/-- The request, if it is recorded, is not open. -/
def RequestEnded (store : ReplanStore) (request : Nat) : Prop :=
  ∀ row ∈ store.requests.items, row.id = request → row.status ≠ .opened

/-- The rows of an operation before and after an edit that leaves where it is. -/
structure SameRow (old op : ReplanOperation) : Prop where
  id : op.id = old.id
  taskId : op.taskId = old.taskId
  runId : op.runId = old.runId
  status : op.status = old.status
  closedAt : op.closedAt = old.closedAt
  requestId : op.requestId = old.requestId
  generation : old.generation ≤ op.generation

/-- The rows of an operation before and after a move along the table. -/
structure MovedRow (old op : ReplanOperation) : Prop where
  id : op.id = old.id
  taskId : op.taskId = old.taskId
  runId : op.runId = old.runId
  moves : old.status.canMoveTo op.status = true
  closedAt : op.closedAt.isSome = op.status.isClosed
  requestId : op.requestId = old.requestId
  generation : old.generation ≤ op.generation

/-- One edit. -/
inductive Edit : ReplanStore → ReplanStore → Prop where
  | note (store : ReplanStore) (record : ReplanRecord) (plain : record.renews = none) :
      Edit store (store.note record)
  | claim (store : ReplanStore) (run : ClaimedRun) :
      Edit store { store with runs := store.runs ++ [run] }
  /-- An operation is opened on a task that has none open. -/
  | opens (store : ReplanStore) (op : ReplanOperation) (fresh : op.id = store.operations.nextKey)
      (closedAt : op.closedAt = none) (status : op.status.isClosed = false)
      (requestId : op.requestId = none) (alone : store.openOperations op.taskId = []) :
      Edit store { store with operations := store.operations.add op }
  | touch (store : ReplanStore) (old op : ReplanOperation) (member : old ∈ store.operations.items)
      (same : SameRow old op) : Edit store (store.setOperation op)
  /-- A move, alone where it needs to be; one that closes leaves no request open without a
  planner. -/
  | move (store : ReplanStore) (old op : ReplanOperation) (member : old ∈ store.operations.items)
      (moved : MovedRow old op)
      (alone : needsTaskAlone old.status op.status = true →
        ∀ other ∈ store.openOperations old.taskId, other.id = old.id)
      (settled : op.status.isClosed = true → ∀ request, op.requestId = some request →
        store.plannerOpen request = false → store.RequestEnded request) :
      Edit store (store.setOperation op)
  /-- An open operation that does not guard its task goes on with another run. -/
  | carry (store : ReplanStore) (old op : ReplanOperation) (member : old ∈ store.operations.items)
      (opened : old.closedAt = none) (free : old.status.guards = false) (id : op.id = old.id)
      (taskId : op.taskId = old.taskId) (status : op.status = old.status)
      (closedAt : op.closedAt = old.closedAt) (requestId : op.requestId = old.requestId)
      (generation : old.generation ≤ op.generation) : Edit store (store.setOperation op)
  /-- An open operation without a request gets one. -/
  | attach (store : ReplanStore) (old op : ReplanOperation) (request : PlanRequest)
      (member : old ∈ store.operations.items) (opened : old.closedAt = none)
      (none : old.requestId = none) (fresh : request.id = store.requests.nextKey)
      (own : request.replanOperation = some old.id)
      (same : SameRow { old with requestId := some request.id } op) :
      Edit store (({ store with requests := store.requests.add request }).setOperation op)
  | refer (store : ReplanStore) (old request : PlanRequest) (member : old ∈ store.requests.items)
      (id : request.id = old.id) (status : request.status = old.status)
      (operation : request.replanOperation = old.replanOperation) :
      Edit store (store.setRequest request)
  | endRequest (store : ReplanStore) (old request : PlanRequest)
      (member : old ∈ store.requests.items) (id : request.id = old.id)
      (ended : request.status ≠ .opened)
      (operation : request.replanOperation = old.replanOperation) :
      Edit store (store.setRequest request)
  | addPlanner (store : ReplanStore) (planner : Planner) (fresh : planner.id = store.planners.nextKey) :
      Edit store { store with planners := store.planners.add planner }
  | waitPlanner (store : ReplanStore) (old : Planner) (member : old ∈ store.planners.items) :
      Edit store { store with planners := store.planners.set { old with answerWait := true } }
  /-- A planner ends, and leaves no request of a closed operation open without one. -/
  | closePlanner (store : ReplanStore) (old : Planner) (member : old ∈ store.planners.items)
      (settled : ∀ op ∈ store.operations.items, op.status.isClosed = true →
        ∀ request ∈ store.requests.items, request.replanOperation = some op.id →
          old.requestId = some request.id →
          ({ store with planners := store.planners.set { old with closed := true } }).plannerOpen
            request.id = false → request.status ≠ .opened) :
      Edit store { store with planners := store.planners.set { old with closed := true } }

/-- A request that ended is renewed for its operation, which is not closed. -/
inductive Renewal : ReplanStore → ReplanStore → Prop where
  | renew (store : ReplanStore) (old op : ReplanOperation) (request : PlanRequest) (ended : Nat)
      (member : old ∈ store.operations.items) (opened : old.closedAt = none)
      (names : old.requestId = some ended) (isEnded : store.RequestEnded ended)
      (recorded : ∃ row ∈ store.requests.items, row.id = ended)
      (fresh : request.id = store.requests.nextKey) (status : request.status = .opened)
      (own : request.replanOperation = some old.id)
      (same : SameRow { old with requestId := some request.id } op) :
      Renewal store ((({ store with requests := store.requests.add request }).note
        (.requestRecorded request.id request.requestedBy old.id (some ended))).setOperation op)

/-- What a write does: edits, and at most one renewal after them, with what it notes of it. -/
inductive Written : ReplanStore → ReplanStore → Prop where
  | edited {before after : ReplanStore} (edits : Relation.ReflTransGen Edit before after) :
      Written before after
  | renewed {before middle renewed : ReplanStore} (edits : Relation.ReflTransGen Edit before middle)
      (renewal : Renewal middle renewed) (records : List ReplanRecord)
      (plain : ∀ record ∈ records, record.renews = none) :
      Written before { renewed with records := renewed.records ++ records }

theorem Written.refl (store : ReplanStore) : Written store store := .edited .refl

theorem Written.after {before middle after : ReplanStore}
    (edits : Relation.ReflTransGen Edit before middle) (written : Written middle after) :
    Written before after := by
  cases written with
  | edited more => exact .edited (edits.trans more)
  | renewed more renewal records plain => exact .renewed (edits.trans more) renewal records plain

theorem Written.note {before after : ReplanStore} (written : Written before after)
    (record : ReplanRecord) (plain : record.renews = none) : Written before (after.note record) := by
  cases written with
  | edited edits => exact .edited (edits.tail (.note after record plain))
  | renewed edits renewal records others =>
    have all : ∀ other ∈ records ++ [record], other.renews = none := by
      intro other member
      rcases List.mem_append.mp member with old | new
      · exact others other old
      · rw [List.mem_singleton.mp new]
        exact plain
    have whole := Written.renewed edits renewal (records ++ [record]) all
    rw [← List.append_assoc] at whole
    exact whole

/-! ### A move -/

theorem readOperation_ok {store : ReplanStore} {id : Nat} {op : ReplanOperation}
    (read : store.readOperation id = .ok op) : op ∈ store.operations.items ∧ op.id = id := by
  unfold readOperation at read
  split at read
  · rename_i found
    cases read
    exact Keyed.get?_eq_some_iff.mp found
  · cases read

theorem readRequest_ok {store : ReplanStore} {id : Nat} {request : PlanRequest}
    (read : store.readRequest id = .ok request) :
    request ∈ store.requests.items ∧ request.id = id := by
  unfold readRequest at read
  split at read
  · rename_i found
    cases read
    exact Keyed.get?_eq_some_iff.mp found
  · cases read

theorem requestEnded_of_row {store : ReplanStore} {row : PlanRequest}
    (member : row ∈ store.requests.items) (ended : row.status ≠ .opened) :
    store.RequestEnded row.id := by
  intro other inside same
  rw [store.requests.eq_of_key inside member same]
  exact ended

theorem requestEnded_set {store : ReplanStore} {request : PlanRequest}
    (ended : request.status ≠ .opened) : (store.setRequest request).RequestEnded request.id := by
  intro row member same
  rcases Keyed.mem_set.mp member with ⟨isNew, _⟩ | ⟨_, other⟩
  · rw [isNew]
    exact ended
  · exact absurd same other

theorem checkAlone_ok {store : ReplanStore} {op : ReplanOperation} {target : ReplanStatus}
    {checked : Unit} (passed : store.checkAlone op target = .ok checked)
    (needs : needsTaskAlone op.status target = true) :
    ∀ other ∈ store.openOperations op.taskId, other.id = op.id := by
  unfold checkAlone at passed
  rw [if_pos needs] at passed
  split at passed
  · cases passed
  · rename_i noOther
    intro other member
    have same := List.find?_eq_none.mp noOther other member
    simpa using same

theorem moved_row {op : ReplanOperation} {step : ReplanMove} {now : Int}
    (moves : op.status.canMoveTo step.target = true) : MovedRow op (moved op step now) := by
  refine ⟨rfl, rfl, rfl, moves, ?_, rfl, le_generationAfter _ _ _⟩
  show (if step.target.isClosed then some now else none).isSome = step.target.isClosed
  cases step.target.isClosed <;> rfl

/-- A decline for an operation leaves the request ended, and nothing else changed. -/
theorem declineForOperation_ok {store after : ReplanStore} {request op : Nat}
    {outcome : ReplanStatus} {reason : String} {endedPlanner : Option Nat} {now : Int} {was : Bool}
    (declined : store.declineForOperation request op outcome reason endedPlanner now =
      .ok (after, was)) :
    after = { store with requests := after.requests, records := after.records } ∧
      Relation.ReflTransGen Edit store after ∧ after.RequestEnded request := by
  unfold declineForOperation at declined
  obtain ⟨row, read, declined⟩ := bind_ok declined
  obtain ⟨member, isRequest⟩ := readRequest_ok read
  split at declined
  · rename_i ended
    cases declined
    exact ⟨rfl, .refl, isRequest ▸ requestEnded_of_row member ended⟩
  · cases declined
    let new : PlanRequest :=
      { row with status := .declined, statusReason := some reason, updatedAt := now }
    have ended : new.status ≠ .opened := fun same => RequestStatus.noConfusion same
    have isNew : new.id = request := isRequest
    refine ⟨rfl, ?_, ?_⟩
    · exact (Relation.ReflTransGen.single (.endRequest store row new member rfl ended rfl)).tail
        (.note _ _ rfl)
    · have setEnded : (store.setRequest new).RequestEnded new.id := requestEnded_set ended
      rw [isNew] at setEnded
      exact setEnded

/-- A decline reads no operation and no planner: it does the same before they are written. -/
theorem declineForOperation_frame (store : ReplanStore) (operations : Keyed ReplanOperation.id)
    (planners : Keyed Planner.id) (request op : Nat) (outcome : ReplanStatus) (reason : String)
    (endedPlanner : Option Nat) (now : Int) :
    ({ store with operations := operations, planners := planners } :
        ReplanStore).declineForOperation request op outcome reason endedPlanner now =
      (store.declineForOperation request op outcome reason endedPlanner now).map fun declined =>
        ({ declined.1 with operations := operations, planners := planners }, declined.2) := by
  unfold declineForOperation
  have sameRead : ({ store with operations := operations, planners := planners } :
    ReplanStore).readRequest request = store.readRequest request := rfl
  rw [sameRead]
  cases store.readRequest request with
  | error error => rfl
  | ok current =>
    show (if current.status ≠ .opened then _ else _) = Except.map _ (if current.status ≠ .opened
      then _ else _)
    by_cases ended : current.status ≠ .opened
    · rw [if_pos ended, if_pos ended]
      rfl
    · rw [if_neg ended, if_neg ended]
      rfl

/-- What a move that closes does to the request comes to a decline before the row is written. -/
theorem declineAtClose_ok {store closed : ReplanStore} {op after : ReplanOperation}
    {step : ReplanMove} {now : Int} {declined : Option Nat}
    (settles : (store.setOperation after).declineAtClose op step now = .ok (closed, declined)) :
    ∃ ended : ReplanStore, Relation.ReflTransGen Edit store ended ∧
      ended.operations = store.operations ∧ closed = ended.setOperation after ∧
      (step.target.isClosed = true → ∀ request, op.requestId = some request →
        ended.plannerOpen request = false → ended.RequestEnded request) := by
  unfold declineAtClose at settles
  split at settles
  · rename_i noRequest
    cases settles
    exact ⟨store, .refl, rfl, rfl, fun _ _ names => by rw [noRequest] at names; cases names⟩
  · rename_i request names
    split at settles
    · rename_i undecided
      obtain ⟨⟨inner, was⟩, isDeclined, settles⟩ := bind_ok settles
      cases settles
      have framed := (declineForOperation_frame store (store.operations.set after) store.planners _ _
        _ _ _ _).symm.trans isDeclined
      obtain ⟨⟨ended, did⟩, first, same⟩ := map_ok framed
      cases same
      obtain ⟨sameRows, edits, isEnded⟩ := declineForOperation_ok first
      refine ⟨ended, edits, (by rw [sameRows]), (by rw [sameRows]; rfl), fun _ other isOther _ => ?_⟩
      rw [names] at isOther
      cases isOther
      exact isEnded
    · rename_i decided
      cases settles
      refine ⟨store, .refl, rfl, rfl, fun isClosed other isOther noPlanner => ?_⟩
      rw [names] at isOther
      cases isOther
      refine absurd ?_ decided
      show (step.target.isClosed && !store.plannerOpen request) = true
      rw [isClosed, noPlanner]
      rfl

/-- What a move does: its edits, with the operation's row as it leaves it, and the renewal of its
request if it made one. -/
structure MoveOutcome (store after : ReplanStore) (op row : ReplanOperation)
    (target : ReplanStatus) : Prop where
  written : Written store after
  id : row.id = op.id
  member : row ∈ after.operations.items
  status : row.status = target
  closedAt : row.closedAt.isSome = target.isClosed
  others : ∀ other : ReplanOperation, other.id ≠ op.id →
    (other ∈ after.operations.items ↔ other ∈ store.operations.items)
  /-- With the request kept, or away from the planner, it was all edits. -/
  edits : row.requestId = op.requestId ∨ target.handsToPlanner = false →
    Relation.ReflTransGen Edit store after

theorem mem_setOperation_self {store : ReplanStore} {old op : ReplanOperation}
    (member : old ∈ store.operations.items) (same : op.id = old.id) :
    op ∈ (store.setOperation op).operations.items :=
  Keyed.mem_set.mpr (Or.inl ⟨rfl, old, member, same.symm⟩)

theorem mem_setOperation_other {store : ReplanStore} {op other : ReplanOperation}
    (different : other.id ≠ op.id) :
    other ∈ (store.setOperation op).operations.items ↔ other ∈ store.operations.items := by
  refine Keyed.mem_set.trans ⟨?_, fun member => Or.inr ⟨member, different⟩⟩
  rintro (⟨isNew, _⟩ | ⟨member, _⟩)
  · rw [isNew] at different
    exact absurd rfl different
  · exact member

/-- A request found declined at the close of an operation ended, and is recorded. -/
theorem declinedAtClose_ok {store : ReplanStore} {request op : Nat}
    (declined : store.declinedAtClose request op = true) :
    ∃ row ∈ store.requests.items, row.id = request ∧ row.status ≠ .opened := by
  unfold declinedAtClose at declined
  have isDeclined := (Bool.and_eq_true_iff.mp declined).1
  obtain ⟨row, found, status⟩ := (Option.any_eq_true _ _).mp isDeclined
  obtain ⟨member, isRequest⟩ := Keyed.get?_eq_some_iff.mp found
  refine ⟨row, member, isRequest, fun opened => ?_⟩
  rw [opened] at status
  exact absurd status (by decide)

/-- A renewal records a request that is not there yet, and leaves the operations as they are. -/
theorem renewDeclined_ok {store after : ReplanStore} {ended op id : Nat} {now : Int}
    (renewed : store.renewDeclined ended op now = .ok (after, id)) :
    ∃ request : PlanRequest, request.id = id ∧ id = store.requests.nextKey ∧
      request.status = .opened ∧ request.replanOperation = some op ∧
      (∃ row ∈ store.requests.items, row.id = ended) ∧
      after = ({ store with requests := store.requests.add request }).note
        (.requestRecorded request.id request.requestedBy op (some ended)) := by
  unfold renewDeclined at renewed
  obtain ⟨old, read, renewed⟩ := bind_ok renewed
  obtain ⟨member, isEnded⟩ := readRequest_ok read
  cases renewed
  exact ⟨_, rfl, rfl, rfl, rfl, ⟨old, member, isEnded⟩, rfl⟩

/-- The row of an operation, kept or written once more under another request, as a move ends. -/
structure RowAfter (store after : ReplanStore) (row final : ReplanOperation) : Prop where
  member : final ∈ after.operations.items
  id : final.id = row.id
  status : final.status = row.status
  closedAt : final.closedAt = row.closedAt
  others : ∀ other : ReplanOperation, other.id ≠ row.id →
    (other ∈ after.operations.items ↔ other ∈ store.operations.items)

theorem rowAfter_refl {store : ReplanStore} {row : ReplanOperation}
    (member : row ∈ store.operations.items) : RowAfter store store row row :=
  ⟨member, rfl, rfl, rfl, fun _ _ => Iff.rfl⟩

theorem rowAfter_request {store after : ReplanStore} {row : ReplanOperation} (request : Nat)
    (member : row ∈ store.operations.items) (sameRows : after.operations = store.operations) :
    RowAfter store (after.setOperation { row with requestId := some request }) row
      { row with requestId := some request } := by
  rw [← sameRows] at member
  refine ⟨mem_setOperation_self member rfl, rfl, rfl, rfl, fun _ different => ?_⟩
  rw [← sameRows]
  exact mem_setOperation_other different

/-- A renewal at a move renews the operation's request, which had ended, for its row. -/
theorem renewAtMove_ok {store renewed : ReplanStore} {op row final : ReplanOperation}
    {step : ReplanMove} {now : Int} {renewal : Option Nat}
    (moves : store.renewAtMove op row step now = .ok (renewed, final, renewal))
    (member : row ∈ store.operations.items) (names : row.requestId = op.requestId)
    (isOp : row.id = op.id) (closedAt : row.closedAt.isSome = step.target.isClosed) :
    (renewed = store ∧ final = row) ∨
      (Renewal store renewed ∧ RowAfter store renewed row final ∧ op.requestId.isSome = true ∧
        final.requestId ≠ op.requestId ∧ step.target.handsToPlanner = true) := by
  unfold renewAtMove at moves
  split at moves
  · cases moves
    exact Or.inl ⟨rfl, rfl⟩
  · rename_i request isRequest
    split at moves
    · rename_i renews
      obtain ⟨hands, declined⟩ := Bool.and_eq_true_iff.mp renews
      obtain ⟨⟨inner, id⟩, recorded, moves⟩ := bind_ok moves
      obtain ⟨new, isNew, fresh, status, own, ⟨_, _⟩, rfl⟩ := renewDeclined_ok recorded
      cases moves
      obtain ⟨old, inside, isOld, ended⟩ := declinedAtClose_ok declined
      have planner : step.target.handsToPlanner = true :=
        (Bool.and_eq_true_iff.mp (Bool.and_eq_true_iff.mp hands).1).2
      have opened : row.closedAt = none := by
        rw [ReplanStatus.not_closed_of_handsToPlanner planner] at closedAt
        exact Option.isSome_eq_false_iff.mp closedAt |> Option.isNone_iff_eq_none.mp
      have same : SameRow { row with requestId := some new.id } { row with requestId := some id } :=
        ⟨rfl, rfl, rfl, rfl, rfl, (by rw [isNew]), le_rfl⟩
      refine Or.inr ⟨?_, rowAfter_request id member rfl, (by rw [isRequest]; rfl), ?_, planner⟩
      · have renewal := Renewal.renew store row { row with requestId := some id } new request member
          opened (names.trans isRequest) (isOld ▸ requestEnded_of_row inside ended)
          ⟨old, inside, isOld⟩ (isNew.trans fresh) status (isOp ▸ own) same
        rw [← isOp]
        exact renewal
      · rw [isRequest, fresh]
        intro same
        have below := Keyed.lt_nextKey inside
        rw [isOld, ← Option.some.inj same] at below
        exact absurd below (Nat.lt_irrefl _)
    · cases moves
      exact Or.inl ⟨rfl, rfl⟩

/-- A request of an operation is recorded under the next number. -/
theorem recordRequest_eq (store : ReplanStore) (op : ReplanOperation) (new : NewReplan)
    (byRole byId : String) (now : Int) :
    ∃ request : PlanRequest, request.id = store.requests.nextKey ∧
      request.replanOperation = some op.id ∧
      store.recordRequest op new byRole byId now =
        (({ store with requests := store.requests.add request }).note
          (.requestRecorded request.id byRole op.id none), request.id) :=
  ⟨_, rfl, rfl, rfl⟩

/-- A request is recorded for a row that has none, which then names it. -/
theorem recordRequest_edits {store : ReplanStore} {row op final : ReplanOperation}
    (new : NewReplan) (byRole byId : String) (now : Int)
    (member : row ∈ store.operations.items) (opened : row.closedAt = none)
    (names : row.requestId = none) (isOp : op.id = row.id)
    (same : SameRow { row with requestId := some (store.recordRequest op new byRole byId now).2 }
      final) :
    Relation.ReflTransGen Edit store
      ((store.recordRequest op new byRole byId now).1.setOperation final) := by
  obtain ⟨request, fresh, own, records⟩ := recordRequest_eq store op new byRole byId now
  rw [records] at same ⊢
  have attached := Edit.attach store row final request member opened names fresh
    (own.trans (congrArg some isOp)) same
  exact (Relation.ReflTransGen.single attached).tail
    (.note _ (.requestRecorded request.id byRole op.id none) rfl)

/-- A diagnosis that fences an operation without a request attaches one. -/
theorem recordAtPause_ok {store : ReplanStore} {op row : ReplanOperation} {step : ReplanMove}
    {now : Int} (member : row ∈ store.operations.items) (names : row.requestId = op.requestId)
    (isOp : row.id = op.id) (closedAt : row.closedAt.isSome = step.target.isClosed) :
    Relation.ReflTransGen Edit store (store.recordAtPause op row step now).1 ∧
      RowAfter store (store.recordAtPause op row step now).1 row
        (store.recordAtPause op row step now).2.1 := by
  unfold recordAtPause
  split
  · rename_i made noRequest _
    by_cases pauses : step.target = .pauseRequested
    · rw [if_pos pauses]
      have opened : row.closedAt = none := by
        rw [pauses] at closedAt
        exact Option.isNone_iff_eq_none.mp (Option.isSome_eq_false_iff.mp closedAt)
      exact ⟨recordRequest_edits _ _ _ _ member opened (names.trans noRequest) isOp.symm
        ⟨rfl, rfl, rfl, rfl, rfl, rfl, le_rfl⟩, rowAfter_request _ member rfl⟩
    · rw [if_neg pauses]
      exact ⟨.refl, rowAfter_refl member⟩
  · exact ⟨.refl, rowAfter_refl member⟩

/-- What an accepted move does. -/
theorem moveInAs_ok {store after : ReplanStore} {outside : Outside} {id : Nat} {generation : Int}
    {step : ReplanMove} {now : Int} {apply : Bool}
    (moves : store.moveInAs outside id generation step now apply = .ok after) :
    ∃ op row, store.readOperation id = .ok op ∧ op.generation = generation ∧
      MoveOutcome store after op row step.target := by
  unfold moveInAs at moves
  obtain ⟨op, read, moves⟩ := bind_ok moves
  obtain ⟨_, checked, moves⟩ := bind_ok moves
  obtain ⟨_, _, moves⟩ := bind_ok moves
  obtain ⟨_, alone, moves⟩ := bind_ok moves
  obtain ⟨_, _, moves⟩ := bind_ok moves
  obtain ⟨⟨closed, declined⟩, settles, moves⟩ := bind_ok moves
  obtain ⟨⟨renewed, final, renewal⟩, renews, moves⟩ := bind_ok moves
  obtain ⟨sameGeneration, allowed⟩ := checkMoveAs_ok checked
  obtain ⟨member, _⟩ := readOperation_ok read
  have isAfter : (renewed.recordAtPause op final step now).1.note (.replanStatusChanged id op.status
      step.target step.reason (generationAfter op.status step.target op.generation) step.snapshotId
      (renewed.recordAtPause op final step now).2.2 declined renewal) = after :=
    Except.ok.inj moves
  clear moves
  subst isAfter
  obtain ⟨ended, ends, sameRows, rfl, settled⟩ := declineAtClose_ok settles
  let row := moved op step now
  have movedRow : MovedRow op row := moved_row allowed
  have sameMember : op ∈ ended.operations.items := sameRows ▸ member
  have rowMember : row ∈ (ended.setOperation row).operations.items :=
    mem_setOperation_self sameMember movedRow.id
  have others : ∀ other : ReplanOperation, other.id ≠ op.id →
      (other ∈ (ended.setOperation row).operations.items ↔ other ∈ store.operations.items) := by
    intro other different
    rw [← sameRows]
    exact mem_setOperation_other different
  have edits : Relation.ReflTransGen Edit store (ended.setOperation row) := by
    refine ends.tail (.move ended op row sameMember movedRow (fun needs => ?_) settled)
    unfold openOperations
    rw [sameRows]
    exact checkAlone_ok alone needs
  rcases renewAtMove_ok renews rowMember movedRow.requestId movedRow.id movedRow.closedAt with
    ⟨rfl, rfl⟩ | ⟨renewal, rowAfter, hasRequest, different, planner⟩
  · obtain ⟨more, rowAfter⟩ := @recordAtPause_ok _ op row step now rowMember movedRow.requestId
      movedRow.id movedRow.closedAt
    have whole := (edits.trans more).tail (.note _ (.replanStatusChanged id op.status step.target
      step.reason (generationAfter op.status step.target op.generation) step.snapshotId
      ((ended.setOperation row).recordAtPause op row step now).2.2 declined renewal) rfl)
    exact ⟨op, _, read, sameGeneration, .edited whole, rowAfter.id.trans movedRow.id,
      rowAfter.member, rowAfter.status, (congrArg Option.isSome rowAfter.closedAt).trans
        movedRow.closedAt, fun other different => (rowAfter.others other different).trans
        (others other different), fun _ => whole⟩
  · -- a renewed operation had a request, so the pause records none
    have nothing : renewed.recordAtPause op final step now = (renewed, final, none) := by
      unfold recordAtPause
      split
      · rename_i noRequest _
        rw [noRequest] at hasRequest
        exact absurd hasRequest Bool.false_ne_true
      · rfl
    rw [nothing]
    have written := Written.renewed edits renewal [] (by simp)
    rw [List.append_nil] at written
    exact ⟨op, final, read, sameGeneration, written.note _ rfl, rowAfter.id.trans movedRow.id,
      rowAfter.member, rowAfter.status, (congrArg Option.isSome rowAfter.closedAt).trans
        movedRow.closedAt, fun other different => (rowAfter.others other different).trans
        (others other different), fun either => either.elim (absurd · different) fun away => by
          rw [planner] at away
          cases away⟩

end ReplanStore

end Dagq.Replan
