/-
This file derives that no planning request of an operation is left open without
an owner. The open request of an operation is the one its row names; where the
operation is closed, a planner is open for it or it has ended, by the close or
by the planner's end. A renewal ends with the row naming the new request, open,
and a request that was renewed is named by no row again, so it is renewed once.
-/

import Dagq.Replan.OneOpen

namespace Dagq.Replan

open Dagq.Lib

namespace ReplanStore

/-- The requests renewed, in the order of their renewals. -/
def renewals (store : ReplanStore) : List Nat := store.records.filterMap ReplanRecord.renews

/-- The open requests recorded for an operation. -/
def openRequests (store : ReplanStore) (op : Nat) : List PlanRequest :=
  store.requests.items.filter fun request =>
    request.status == .opened && request.replanOperation == some op

theorem plannerOpen_iff {store : ReplanStore} {request : Nat} :
    store.plannerOpen request = true ↔ ∃ planner ∈ store.planners.items,
      planner.runtime = true ∧ planner.closed = false ∧ planner.requestId = some request := by
  unfold plannerOpen openPlanners
  rw [Bool.not_eq_true', List.isEmpty_eq_false_iff_exists_mem]
  simp only [List.mem_filter, Bool.and_eq_true, Bool.not_eq_true', beq_iff_eq, and_assoc]

theorem not_plannerOpen {store : ReplanStore} {request : Nat}
    (none : store.plannerOpen request = false) {planner : Planner}
    (member : planner ∈ store.planners.items) (runtime : planner.runtime = true)
    (opened : planner.closed = false) : planner.requestId ≠ some request := by
  intro names
  rw [plannerOpen_iff.mpr ⟨planner, member, runtime, opened, names⟩] at none
  cases none

/-- The requests and the rows that name them. -/
structure Owned (store : ReplanStore) : Prop where
  oneOpen : OneOpen store
  /-- A row names a request recorded for it. -/
  named : ∀ op ∈ store.operations.items, ∀ request, op.requestId = some request →
    ∃ row ∈ store.requests.items, row.id = request ∧ row.replanOperation = some op.id
  known : ∀ row ∈ store.requests.items, ∀ id, row.replanOperation = some id →
    ∃ op ∈ store.operations.items, op.id = id
  /-- An open request is the one its operation names. -/
  current : ∀ row ∈ store.requests.items, row.status = .opened →
    ∀ op ∈ store.operations.items, row.replanOperation = some op.id → op.requestId = some row.id
  settled : ∀ op ∈ store.operations.items, op.status.isClosed = true →
    ∀ request, op.requestId = some request → store.plannerOpen request = false →
      store.RequestEnded request
  once : store.renewals.Nodup
  /-- No row names a request that was renewed. -/
  replaced : ∀ ended ∈ store.renewals, (∃ row ∈ store.requests.items, row.id = ended) ∧
    ∀ op ∈ store.operations.items, op.requestId ≠ some ended

theorem owned_empty : Owned empty where
  oneOpen := oneOpen_empty
  named := fun _ member => absurd member List.not_mem_nil
  known := fun _ member => absurd member List.not_mem_nil
  current := fun _ member => absurd member List.not_mem_nil
  settled := fun _ member => absurd member List.not_mem_nil
  once := List.nodup_nil
  replaced := fun _ member => absurd member List.not_mem_nil

/-! ### Rows written -/

/-- The rows of the operations after one is written: the new one, and every other as it was. -/
theorem row_of_set {store : ReplanStore} {op row : ReplanOperation}
    (member : row ∈ (store.setOperation op).operations.items) :
    row = op ∨ (row ∈ store.operations.items ∧ row.id ≠ op.id) :=
  (Keyed.mem_set.mp member).imp And.left id

/-- A row that keeps its request and what its status asks of it. -/
theorem Owned.setOperation {store : ReplanStore} (owned : Owned store) {old op : ReplanOperation}
    (rows : OneOpen (store.setOperation op)) (member : old ∈ store.operations.items)
    (id : op.id = old.id) (requestId : op.requestId = old.requestId)
    (settled : op.status.isClosed = true → ∀ request, op.requestId = some request →
      store.plannerOpen request = false → store.RequestEnded request) :
    Owned (store.setOperation op) where
  oneOpen := rows
  named := by
    intro row inside request names
    rcases row_of_set inside with rfl | ⟨inside, _⟩
    · rw [id]
      exact owned.named old member request (requestId ▸ names)
    · exact owned.named row inside request names
  known := by
    intro request recorded wanted names
    obtain ⟨row, inside, isWanted⟩ := owned.known request recorded wanted names
    by_cases same : row.id = op.id
    · exact ⟨op, mem_setOperation_self member id, same.symm.trans isWanted⟩
    · exact ⟨row, (mem_setOperation_other same).mpr inside, isWanted⟩
  current := by
    intro request recorded opened row inside own
    rcases row_of_set inside with rfl | ⟨inside, _⟩
    · rw [requestId]
      exact owned.current request recorded opened old member (id ▸ own)
    · exact owned.current request recorded opened row inside own
  settled := by
    intro row inside closed request names noPlanner
    rcases row_of_set inside with rfl | ⟨inside, _⟩
    · exact settled closed request names noPlanner
    · exact owned.settled row inside closed request names noPlanner
  once := owned.once
  replaced := by
    intro ended renewed
    obtain ⟨recorded, unnamed⟩ := owned.replaced ended renewed
    refine ⟨recorded, fun row inside => ?_⟩
    rcases row_of_set inside with rfl | ⟨inside, _⟩
    · rw [requestId]
      exact unnamed old member
    · exact unnamed row inside

theorem Owned.sameRow {store : ReplanStore} (owned : Owned store) {old op : ReplanOperation}
    (member : old ∈ store.operations.items) (same : SameRow old op) :
    Owned (store.setOperation op) := by
  refine owned.setOperation (owned.oneOpen.same member same) member same.id same.requestId ?_
  intro closed request names noPlanner
  exact owned.settled old member (same.status ▸ closed) request (same.requestId ▸ names) noPlanner

/-- A request of a row changes, keeping whose it is, and is not opened again. -/
theorem Owned.setRequest {store : ReplanStore} (owned : Owned store) {old request : PlanRequest}
    (member : old ∈ store.requests.items) (id : request.id = old.id)
    (status : request.status = .opened → old.status = .opened)
    (operation : request.replanOperation = old.replanOperation) :
    Owned (store.setRequest request) where
  oneOpen := owned.oneOpen.of_operations rfl
  named := by
    intro op inside wanted names
    obtain ⟨row, recorded, isWanted, own⟩ := owned.named op inside wanted names
    by_cases same : row.id = request.id
    · obtain rfl := store.requests.eq_of_key recorded member (same.trans id)
      exact ⟨request, Keyed.mem_set.mpr (Or.inl ⟨rfl, row, member, same⟩), id.trans isWanted,
        operation.trans own⟩
    · exact ⟨row, Keyed.mem_set.mpr (Or.inr ⟨recorded, same⟩), isWanted, own⟩
  known := by
    intro row recorded wanted names
    rcases Keyed.mem_set.mp recorded with ⟨rfl, _⟩ | ⟨recorded, _⟩
    · exact owned.known old member wanted (operation ▸ names)
    · exact owned.known row recorded wanted names
  current := by
    intro row recorded opened op inside own
    rcases Keyed.mem_set.mp recorded with ⟨rfl, _⟩ | ⟨recorded, _⟩
    · rw [id]
      exact owned.current old member (status opened) op inside (operation ▸ own)
    · exact owned.current row recorded opened op inside own
  settled := by
    intro op inside closed wanted names noPlanner row recorded isWanted
    have ended := owned.settled op inside closed wanted names noPlanner
    rcases Keyed.mem_set.mp recorded with ⟨rfl, _⟩ | ⟨recorded, _⟩
    · exact fun opened => ended old member (id.symm.trans isWanted) (status opened)
    · exact ended row recorded isWanted
  once := owned.once
  replaced := by
    intro ended renewed
    obtain ⟨⟨row, recorded, isEnded⟩, unnamed⟩ := owned.replaced ended renewed
    refine ⟨?_, unnamed⟩
    by_cases same : row.id = request.id
    · exact ⟨request, Keyed.mem_set.mpr (Or.inl ⟨rfl, row, recorded, same⟩), same.symm.trans isEnded⟩
    · exact ⟨row, Keyed.mem_set.mpr (Or.inr ⟨recorded, same⟩), isEnded⟩

/-- Planners change; where no planner is left open, there was none before or the request ended. -/
theorem Owned.setPlanners {store : ReplanStore} (owned : Owned store)
    (planners : Keyed Planner.id)
    (settled : ∀ op ∈ store.operations.items, op.status.isClosed = true →
      ∀ request, op.requestId = some request →
        ({ store with planners := planners } : ReplanStore).plannerOpen request = false →
        store.plannerOpen request = false ∨ store.RequestEnded request) :
    Owned { store with planners := planners } where
  oneOpen := owned.oneOpen.of_operations rfl
  named := owned.named
  known := owned.known
  current := owned.current
  settled := by
    intro op inside closed request names noPlanner
    rcases settled op inside closed request names noPlanner with before | ended
    · exact owned.settled op inside closed request names before
    · exact ended
  once := owned.once
  replaced := owned.replaced

/-! ### A request recorded -/

theorem fresh_request {store : ReplanStore} {request : PlanRequest}
    (fresh : request.id = store.requests.nextKey) :
    ∀ row ∈ store.requests.items, row.id ≠ request.id :=
  fun _ recorded => fresh ▸ Nat.ne_of_lt (Keyed.lt_nextKey recorded)

/-- A request is recorded for the row of an open operation that names none that is open: the row
names it, and no other does. -/
theorem Owned.record {store : ReplanStore} (owned : Owned store) {old op : ReplanOperation}
    {request : PlanRequest} (records : List ReplanRecord)
    (rows : OneOpen (store.setOperation op)) (member : old ∈ store.operations.items)
    (id : op.id = old.id) (status : op.status.isClosed = false)
    (requestId : op.requestId = some request.id)
    (fresh : request.id = store.requests.nextKey) (own : request.replanOperation = some old.id)
    (noOpen : ∀ row ∈ store.requests.items, row.status = .opened →
      row.replanOperation ≠ some old.id)
    (once : (records.filterMap ReplanRecord.renews).Nodup)
    (replaced : ∀ ended ∈ records.filterMap ReplanRecord.renews,
      (∃ row ∈ store.requests.items, row.id = ended) ∧
        ∀ row ∈ store.operations.items, row.id ≠ old.id → row.requestId ≠ some ended) :
    Owned (({ store with
      requests := store.requests.add request, records := records } : ReplanStore).setOperation op)
    where
  oneOpen := rows.of_operations rfl
  named := by
    intro row inside wanted names
    rcases row_of_set inside with rfl | ⟨inside, _⟩
    · refine ⟨request, (Keyed.mem_add (fresh_request fresh)).mpr (Or.inr rfl), ?_, id ▸ own⟩
      exact Option.some.inj (requestId.symm.trans names)
    · obtain ⟨other, recorded, isWanted, otherOwn⟩ := owned.named row inside wanted names
      exact ⟨other, (Keyed.mem_add (fresh_request fresh)).mpr (Or.inl recorded), isWanted, otherOwn⟩
  known := by
    intro row recorded wanted names
    have before : ∃ other ∈ store.operations.items, other.id = wanted := by
      rcases (Keyed.mem_add (fresh_request fresh)).mp recorded with recorded | rfl
      · exact owned.known row recorded wanted names
      · exact ⟨old, member, Option.some.inj (own.symm.trans names)⟩
    obtain ⟨other, inside, isWanted⟩ := before
    by_cases same : other.id = op.id
    · exact ⟨op, mem_setOperation_self member id, same.symm.trans isWanted⟩
    · exact ⟨other, (mem_setOperation_other same).mpr inside, isWanted⟩
  current := by
    intro row recorded opened other inside names
    rcases (Keyed.mem_add (fresh_request fresh)).mp recorded with before | isNew
    · rcases row_of_set inside with rfl | ⟨inside, _⟩
      · exact absurd (id ▸ names) (noOpen row before opened)
      · exact owned.current row before opened other inside names
    · rcases row_of_set inside with rfl | ⟨_, different⟩
      · rw [isNew]
        exact requestId
      · rw [isNew] at names
        exact absurd ((Option.some.inj (names.symm.trans own)).trans id.symm) different
  settled := by
    intro other inside closed wanted names noPlanner row recorded isWanted
    rcases row_of_set inside with rfl | ⟨inside, _⟩
    · rw [status] at closed
      cases closed
    · rcases (Keyed.mem_add (fresh_request fresh)).mp recorded with recorded | isNew
      · exact owned.settled other inside closed wanted names noPlanner row recorded isWanted
      · obtain ⟨its, itsRecorded, isIts, _⟩ := owned.named other inside wanted names
        rw [isNew] at isWanted
        exact absurd (isIts.trans isWanted.symm) (fresh_request fresh its itsRecorded)
  once := once
  replaced := by
    intro ended renewed
    obtain ⟨⟨row, recorded, isEnded⟩, unnamed⟩ := replaced ended renewed
    refine ⟨⟨row, (Keyed.mem_add (fresh_request fresh)).mpr (Or.inl recorded), isEnded⟩,
      fun other inside => ?_⟩
    rcases row_of_set inside with rfl | ⟨inside, different⟩
    · rw [requestId]
      intro same
      exact fresh_request fresh row recorded (isEnded.trans (Option.some.inj same).symm)
    · exact unnamed other inside fun same => different (same.trans id.symm)

/-! ### Every change keeps it -/

theorem Owned.edit {before after : ReplanStore} (owned : Owned before) (edit : Edit before after) :
    Owned after := by
  have rows := owned.oneOpen.edit edit
  cases edit with
  | note record plain =>
    have same : (before.note record).renewals = before.renewals := by
      unfold renewals note
      rw [List.filterMap_append, List.filterMap_cons, plain]
      exact List.append_nil _
    refine ⟨rows, owned.named, owned.known, owned.current, owned.settled, ?_, ?_⟩
    · rw [same]
      exact owned.once
    · rw [same]
      exact owned.replaced
  | claim =>
    exact ⟨rows, owned.named, owned.known, owned.current, owned.settled, owned.once, owned.replaced⟩
  | opens op fresh closedAt status requestId alone =>
    have isFresh : ∀ old ∈ before.operations.items, old.id ≠ op.id := fun old member =>
      fresh ▸ Nat.ne_of_lt (Keyed.lt_nextKey member)
    refine ⟨rows, ?_, ?_, ?_, ?_, owned.once, ?_⟩
    · intro row inside request names
      rcases (Keyed.mem_add isFresh).mp inside with old | rfl
      · exact owned.named row old request names
      · rw [requestId] at names
        cases names
    · intro request recorded wanted names
      obtain ⟨row, inside, isWanted⟩ := owned.known request recorded wanted names
      exact ⟨row, (Keyed.mem_add isFresh).mpr (Or.inl inside), isWanted⟩
    · intro request recorded opened row inside own
      rcases (Keyed.mem_add isFresh).mp inside with old | rfl
      · exact owned.current request recorded opened row old own
      · obtain ⟨other, otherIn, same⟩ := owned.known request recorded row.id own
        exact absurd same (isFresh other otherIn)
    · intro row inside closed request names noPlanner
      rcases (Keyed.mem_add isFresh).mp inside with old | rfl
      · exact owned.settled row old closed request names noPlanner
      · rw [requestId] at names
        cases names
    · intro ended renewed
      obtain ⟨recorded, unnamed⟩ := owned.replaced ended renewed
      refine ⟨recorded, fun row inside => ?_⟩
      rcases (Keyed.mem_add isFresh).mp inside with old | rfl
      · exact unnamed row old
      · rw [requestId]
        exact fun same => Option.some_ne_none _ same.symm
  | touch old op member same => exact owned.sameRow member same
  | move old op member moved alone settled =>
    exact owned.setOperation rows member moved.id moved.requestId settled
  | carry old op member opened free id taskId status closedAt requestId generation =>
    refine owned.setOperation rows member id requestId fun closed request names noPlanner => ?_
    exact owned.settled old member (status ▸ closed) request (requestId ▸ names) noPlanner
  | attach old op request member opened none fresh own same =>
    refine owned.record before.records (rows.of_operations rfl) member same.id ?_ same.requestId
      fresh own ?_ owned.once fun ended renewed => ?_
    · rw [same.status, ← owned.oneOpen.closedAt old member, opened]
      rfl
    · intro row recorded isOpen ownsOld
      have names := owned.current row recorded isOpen old member ownsOld
      rw [none] at names
      cases names
    · obtain ⟨recorded, unnamed⟩ := owned.replaced ended renewed
      exact ⟨recorded, fun row inside _ => unnamed row inside⟩
  | refer old request member id status operation =>
    exact owned.setRequest member id (fun opened => status ▸ opened) operation
  | endRequest old request member id ended operation =>
    exact owned.setRequest member id (fun opened => absurd opened ended) operation
  | addPlanner planner fresh =>
    refine owned.setPlanners _ fun op _ _ request _ noPlanner => Or.inl ?_
    rw [← Bool.not_eq_true]
    intro isOpen
    obtain ⟨other, inside, runtime, opened, names⟩ := plannerOpen_iff.mp isOpen
    refine not_plannerOpen noPlanner ((Keyed.mem_add fun old member => ?_).mpr (Or.inl inside))
      runtime opened names
    exact fresh ▸ Nat.ne_of_lt (Keyed.lt_nextKey member)
  | waitPlanner old member =>
    refine owned.setPlanners _ fun op _ _ request _ noPlanner => Or.inl ?_
    rw [← Bool.not_eq_true]
    intro isOpen
    obtain ⟨other, inside, runtime, opened, names⟩ := plannerOpen_iff.mp isOpen
    by_cases same : other.id = old.id
    · obtain rfl := before.planners.eq_of_key inside member same
      exact not_plannerOpen noPlanner (Keyed.mem_set.mpr (Or.inl ⟨rfl, other, inside, rfl⟩)) runtime
        opened names
    · exact not_plannerOpen noPlanner (Keyed.mem_set.mpr (Or.inr ⟨inside, same⟩)) runtime opened
        names
  | closePlanner old member settled =>
    refine owned.setPlanners _ fun op inside closed request names noPlanner => ?_
    by_cases its : old.requestId = some request
    · refine Or.inr fun row recorded isRequest => ?_
      obtain ⟨named, namedIn, isNamed, own⟩ := owned.named op inside request names
      obtain rfl := before.requests.eq_of_key namedIn recorded (isNamed.trans isRequest.symm)
      exact settled op inside closed named recorded own (isRequest ▸ its) (isRequest ▸ noPlanner)
    · refine Or.inl ?_
      rw [← Bool.not_eq_true]
      intro isOpen
      obtain ⟨other, otherIn, runtime, opened, otherNames⟩ := plannerOpen_iff.mp isOpen
      by_cases same : other.id = old.id
      · obtain rfl := before.planners.eq_of_key otherIn member same
        exact its otherNames
      · exact not_plannerOpen noPlanner (Keyed.mem_set.mpr (Or.inr ⟨otherIn, same⟩)) runtime opened
          otherNames

/-- A renewal keeps it: the request renewed had ended, and its row names the new one. -/
theorem Owned.renewal {before after : ReplanStore} (owned : Owned before)
    (renewal : Renewal before after) : Owned after := by
  have rows := owned.oneOpen.change (Or.inr renewal)
  cases renewal with
  | renew old op request ended member opened names isEnded recorded fresh status own same =>
    have notRenewed : ended ∉ before.renewals := fun renewed =>
      (owned.replaced ended renewed).2 old member names
    have renewals : (before.records ++ [ReplanRecord.requestRecorded request.id request.requestedBy
        old.id (some ended)]).filterMap ReplanRecord.renews = before.renewals ++ [ended] := by
      rw [List.filterMap_append]
      rfl
    refine owned.record _ (rows.of_operations rfl) member same.id ?_ same.requestId fresh own ?_ ?_ ?_
    · rw [same.status, ← owned.oneOpen.closedAt old member, opened]
      rfl
    · intro row rowIn isOpen ownsOld
      have current := owned.current row rowIn isOpen old member ownsOld
      exact isEnded row rowIn (Option.some.inj (current.symm.trans names)) isOpen
    · rw [renewals]
      exact List.nodup_append_comm.mp (List.nodup_cons.mpr ⟨notRenewed, owned.once⟩)
    · rw [renewals]
      intro wanted renewed
      rcases List.mem_append.mp renewed with earlier | last
      · obtain ⟨wantedIn, unnamed⟩ := owned.replaced wanted earlier
        exact ⟨wantedIn, fun row inside _ => unnamed row inside⟩
      · rw [List.mem_singleton.mp last]
        refine ⟨recorded, fun row inside different rowNames => ?_⟩
        obtain ⟨first, firstIn, isFirst, firstOwn⟩ := owned.named row inside ended rowNames
        obtain ⟨second, secondIn, isSecond, secondOwn⟩ := owned.named old member ended names
        obtain rfl := before.requests.eq_of_key firstIn secondIn (isFirst.trans isSecond.symm)
        exact different (Option.some.inj (firstOwn.symm.trans secondOwn))

theorem Owned.change {before after : ReplanStore} (owned : Owned before)
    (change : Change before after) : Owned after :=
  change.elim owned.edit owned.renewal

theorem owned_of_reached {store : ReplanStore} (reached : Reached store) : Owned store := by
  refine reached.invariant Owned owned_empty fun before after _ owned step => ?_
  exact path_invariant (written_of_step step).changes Owned owned fun _ _ => Owned.change

/-! ### A renewal ends with the row naming the new request -/

/-- The row of the operation names the request, which is open. -/
def NamesOpen (store : ReplanStore) (op request : Nat) : Prop :=
  (∃ row ∈ store.operations.items, row.id = op ∧ row.requestId = some request) ∧
    ∃ row ∈ store.requests.items, row.id = request ∧ row.status = .opened

/-- An edit adds records of no renewal. -/
theorem records_of_edit {before after : ReplanStore} (edit : Edit before after) :
    ∃ records, after.records = before.records ++ records ∧
      ∀ record ∈ records, record.renews = none := by
  have nothing : ∃ records, before.records = before.records ++ records ∧
      ∀ record ∈ records, record.renews = none :=
    ⟨[], (List.append_nil _).symm, fun _ member => absurd member List.not_mem_nil⟩
  cases edit with
  | note record plain =>
    exact ⟨[record], rfl, fun other member => List.mem_singleton.mp member ▸ plain⟩
  | claim | opens | touch | move | carry | attach | refer | endRequest | addPlanner | waitPlanner
  | closePlanner => exact nothing

theorem records_of_edits {before after : ReplanStore}
    (edits : Relation.ReflTransGen Edit before after) :
    ∃ records, after.records = before.records ++ records ∧
      ∀ record ∈ records, record.renews = none := by
  induction edits with
  | refl => exact ⟨[], (List.append_nil _).symm, fun _ member => absurd member List.not_mem_nil⟩
  | tail _ edit inductionHypothesis =>
    obtain ⟨first, isFirst, firstPlain⟩ := inductionHypothesis
    obtain ⟨second, isSecond, secondPlain⟩ := records_of_edit edit
    refine ⟨first ++ second, ?_, fun record member => ?_⟩
    · rw [isSecond, isFirst, List.append_assoc]
    · exact (List.mem_append.mp member).elim (firstPlain record) (secondPlain record)

/-- What a write records of a renewal holds as the write ends. -/
theorem names_of_written {before after : ReplanStore} (written : Written before after) :
    ∃ records, after.records = before.records ++ records ∧
      ∀ request by_ op ended, .requestRecorded request by_ op (some ended) ∈ records →
        NamesOpen after op request := by
  cases written with
  | edited edits =>
    obtain ⟨records, isRecords, plain⟩ := records_of_edits edits
    refine ⟨records, isRecords, fun request by_ op ended member => ?_⟩
    exact absurd (plain _ member) (Option.some_ne_none _)
  | renewed edits renewal last plain =>
    obtain ⟨records, isRecords, recordsPlain⟩ := records_of_edits edits
    cases renewal with
    | renew old op request ended member opened names isEnded recorded fresh status own same =>
      refine ⟨records ++ (.requestRecorded request.id request.requestedBy old.id (some ended) ::
        last), ?_, fun wanted by_ operation renewed inside => ?_⟩
      · show (_ ++ [_]) ++ last = _
        rw [isRecords]
        simp only [List.append_assoc, List.singleton_append]
      · rcases List.mem_append.mp inside with earlier | later
        · exact absurd (recordsPlain _ earlier) (Option.some_ne_none _)
        · rcases List.mem_cons.mp later with same' | later
          · cases same'
            refine ⟨⟨op, mem_setOperation_self member same.id, same.id, same.requestId⟩, request,
              (Keyed.mem_add (fresh_request fresh)).mpr (Or.inr rfl), rfl, status⟩
          · exact absurd (plain _ later) (Option.some_ne_none _)

theorem openRequests_length {store : ReplanStore} (owned : Owned store) {op : ReplanOperation}
    (member : op ∈ store.operations.items) : (store.openRequests op.id).length ≤ 1 := by
  have itsOwn : ∀ row ∈ store.openRequests op.id,
      row ∈ store.requests.items ∧ op.requestId = some row.id := by
    intro row inside
    obtain ⟨recorded, kept⟩ := List.mem_filter.mp inside
    rw [Bool.and_eq_true, beq_iff_eq, beq_iff_eq] at kept
    exact ⟨recorded, owned.current row recorded kept.1 op member kept.2⟩
  refine store.requests.length_filter_le_one _ fun first firstIn second secondIn => ?_
  obtain ⟨firstRow, firstOwn⟩ := itsOwn first firstIn
  obtain ⟨secondRow, secondOwn⟩ := itsOwn second secondIn
  exact store.requests.eq_of_key firstRow secondRow
    (Option.some.inj (firstOwn.symm.trans secondOwn))

/-- No request of an operation is left open without an owner: where the operation is closed and no
planner is open for its request, that has ended; an operation has one open request at most; what a
write renews ends with the operation naming the new request, open; and no request is renewed
twice. -/
theorem requests_owned {store : ReplanStore} (reached : Reached store) :
    (∀ op ∈ store.operations.items, op.status.isClosed = true → ∀ request,
      op.requestId = some request → store.plannerOpen request = false →
        ∃ row ∈ store.requests.items, row.id = request ∧ row.status ≠ .opened) ∧
    (∀ op ∈ store.operations.items, (store.openRequests op.id).length ≤ 1) ∧
    (∀ after, ReplanStep store after → ∃ records, after.records = store.records ++ records ∧
      ∀ request by_ op ended, .requestRecorded request by_ op (some ended) ∈ records →
        NamesOpen after op request) ∧
    store.renewals.Nodup := by
  have owned := owned_of_reached reached
  refine ⟨fun op member closed request names noPlanner => ?_,
    fun op member => openRequests_length owned member,
    fun after step => names_of_written (written_of_step step), owned.once⟩
  obtain ⟨row, recorded, isRequest, _⟩ := owned.named op member request names
  exact ⟨row, recorded, isRequest, owned.settled op member closed request names noPlanner row
    recorded isRequest⟩

def actAll (store : ReplanStore) (writes : List ReplanWrite) : ReplanStore :=
  writes.foldl (act quiet 2) store

theorem reached_actAll {store : ReplanStore} (reached : Reached store) (writes : List ReplanWrite) :
    Reached (store.actAll writes) := by
  unfold actAll
  induction writes generalizing store with
  | nil => exact reached
  | cons write rest inductionHypothesis =>
    exact inductionHypothesis (reached.step ⟨quiet, 2, write, rfl⟩)

/-- The operation was withdrawn while a planner was open for its request, which then ended. -/
def withdrawnStore : ReplanStore :=
  requested.actAll
    [.move 1 1 { target := .pauseRequested, reason := "diagnosed" } false,
      .move 1 2 { target := .snapshotting, reason := "quiet" } false,
      .move 1 2 { target := .parked, reason := "saved", snapshotId := some "replan-1-g2" } false,
      .openPlanner 1 none true,
      .move 1 2 { target := .withdrawn, reason := "the plan is taken back" } false,
      .closePlanner 1]

/-- The restore of the run failed. -/
def blockedStore : ReplanStore := withdrawnStore.actAll [.reopen 1 2 "the restore failed"]

/-- A person has it planned again. -/
def renewedStore : ReplanStore :=
  blockedStore.act quiet 2 (.resolve ⟨1, 2, .replan, "plan it anew"⟩ none "user" "person")

theorem requests_owned_renewed :
    (∃ row ∈ withdrawnStore.requests.items, row.id = 1 ∧ row.status ≠ .opened) ∧
      NamesOpen renewedStore 1 2 ∧ renewedStore.renewals = [1] ∧ renewedStore.renewals.Nodup := by
  have withdrawn : Reached withdrawnStore := reached_actAll reached_requested _
  have blocked : Reached blockedStore := reached_actAll withdrawn _
  have step : ReplanStep blockedStore renewedStore := ⟨quiet, 2, _, rfl⟩
  have closed : ∃ op, withdrawnStore.operations.get? 1 = some op ∧ op.status.isClosed = true ∧
      op.requestId = some 1 := by
    decide +kernel
  obtain ⟨op, found, isClosed, names⟩ := closed
  obtain ⟨records, isRecords, renews⟩ := (requests_owned blocked).2.2.1 renewedStore step
  have recorded : .requestRecorded 2 "user" 1 (some 1) ∈
      renewedStore.records.drop blockedStore.records.length := by
    decide +kernel
  rw [isRecords, List.drop_left] at recorded
  exact ⟨(requests_owned withdrawn).1 op (Keyed.get?_eq_some_iff.mp found).1 isClosed 1 names
    (by decide +kernel), renews 2 "user" 1 1 recorded, by decide +kernel,
    (requests_owned (blocked.step step)).2.2.2⟩

end ReplanStore

end Dagq.Replan
