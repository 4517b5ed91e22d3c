/-
This file derives, for each write of the store, that it is made of the edits of
the file before: a record of a request or a proposal, a move, a person's
resolution, a hold of an apply, the carry at a claim, a reopening, and what
planners and proposals do to a request. Runs of writes are then runs of edits.
-/

import Dagq.Replan.Edits

namespace Dagq.Replan

open Dagq.Lib

namespace ReplanStore

/-! ### One open operation of a task -/

theorem mem_openOperations {store : ReplanStore} {task : Nat} {op : ReplanOperation} :
    op ∈ store.openOperations task ↔
      op ∈ store.operations.items ∧ op.taskId = task ∧ op.closedAt = none := by
  unfold openOperations isOpenOn
  rw [List.mem_filter, Bool.and_eq_true, beq_iff_eq, Option.isNone_iff_eq_none]

/-- The operations superseded are moved one by one; the others stay as they are. -/
theorem supersede_ok {outside : Outside} {reason : String} {now : Int} :
    ∀ {older : List ReplanOperation} {store closed : ReplanStore},
      store.supersede outside older reason now = .ok closed →
      Relation.ReflTransGen Edit store closed ∧
        ∀ other : ReplanOperation, (∀ op ∈ older, op.id ≠ other.id) →
          (other ∈ closed.operations.items ↔ other ∈ store.operations.items) := by
  intro older
  induction older with
  | nil =>
    intro store closed done
    cases done
    exact ⟨.refl, fun _ _ => Iff.rfl⟩
  | cons op older inductionHypothesis =>
    intro store closed done
    unfold supersede at done
    rw [List.foldlM_cons] at done
    obtain ⟨middle, moves, rest⟩ := bind_ok done
    obtain ⟨row, _, read, _, outcome⟩ := moveInAs_ok moves
    obtain ⟨edits, others⟩ := inductionHypothesis rest
    refine ⟨(outcome.edits (Or.inr rfl)).trans edits, fun other away => ?_⟩
    have different : other.id ≠ row.id := by
      rw [(readOperation_ok read).2]
      exact fun same => away op List.mem_cons_self same.symm
    exact (others other fun old member => away old (List.mem_cons_of_mem _ member)).trans
      (outcome.others other different)

theorem referToRun_ok {store after : ReplanStore} {request : Option Nat} {run : String} {now : Int}
    (refers : store.referToRun request run now = .ok after) :
    Relation.ReflTransGen Edit store after := by
  unfold referToRun at refers
  split at refers
  · cases refers
    exact .refl
  · obtain ⟨row, read, refers⟩ := bind_ok refers
    split at refers
    · cases refers
      exact .refl
    · cases refers
      exact .single (.refer store row _ (readRequest_ok read).1 rfl rfl rfl)

/-- What is carried is the operation kept: one that does not guard its task, and that no operation
superseded is. -/
theorem carry_moved {opened : List ReplanOperation} {latest : String} {kept : ReplanOperation}
    {id : Nat} {generation : Int} (keeps : current opened = some kept)
    (moves : (carry opened latest).moved = some (id, generation)) :
    id = kept.id ∧ generation = kept.generation + 1 ∧ kept.status.guards = false ∧
      id ∉ (carry opened latest).superseded := by
  unfold carry at moves ⊢
  rw [keeps] at moves ⊢
  simp only at moves ⊢
  split at moves
  · rename_i free
    cases moves
    rw [Bool.and_eq_true, Bool.not_eq_true'] at free
    refine ⟨rfl, rfl, free.1, fun inside => ?_⟩
    obtain ⟨other, member, same⟩ := List.mem_map.mp inside
    have different := (Bool.and_eq_true_iff.mp (List.mem_filter.mp member).2).1
    exact absurd same (of_decide_eq_true different)
  · cases moves

theorem mem_of_current {opened : List ReplanOperation} {kept : ReplanOperation}
    (keeps : current opened = some kept) : kept ∈ opened := by
  unfold current at keeps
  rcases Option.or_eq_some_iff.mp keeps with guarding | ⟨_, newest⟩
  · exact List.mem_of_find?_eq_some guarding
  · exact List.mem_of_getLast? newest

theorem current_eq_none {opened : List ReplanOperation} (none : current opened = none) :
    opened = [] := by
  unfold current at none
  exact List.getLast?_eq_none_iff.mp (Option.or_eq_none_iff.mp none).2

/-- The row of the carried operation is that of the store as it was read. -/
theorem carried_row {store : ReplanStore} {task : Nat} {kept op : ReplanOperation}
    (keeps : current (store.openOperations task) = some kept)
    (found : (store.openOperations task).find? (fun op => op.id = kept.id) = some op) :
    op = kept := by
  have member := mem_openOperations.mp (List.mem_of_find?_eq_some found)
  have same := List.find?_some found
  exact store.operations.eq_of_key member.1 (mem_openOperations.mp (mem_of_current keeps)).1
    (of_decide_eq_true same)

theorem carryOpenTo_ok {outside : Outside} {store after : ReplanStore} {task : Nat} {run : String}
    {now : Int} (carries : store.carryOpenTo outside task run now = .ok after) :
    Relation.ReflTransGen Edit store after := by
  unfold carryOpenTo at carries
  simp only at carries
  split at carries
  · cases carries
    exact .refl
  · rename_i keptId _
    obtain ⟨closed, supersedes, carries⟩ := bind_ok carries
    obtain ⟨edits, others⟩ := supersede_ok supersedes
    split at carries
    · cases carries
      exact edits
    · rename_i id generation moves
      split at carries
      · cases carries
        exact edits
      · rename_i op found
        obtain ⟨referred, refers, carries⟩ := bind_ok carries
        cases carries
        cases keeps : current (store.openOperations task) with
        | none =>
          unfold carry at moves
          rw [keeps] at moves
          cases moves
        | some kept =>
          obtain ⟨rfl, rfl, free, notSuperseded⟩ := carry_moved keeps moves
          obtain rfl := carried_row keeps found
          obtain ⟨inside, _, opened⟩ := mem_openOperations.mp (mem_of_current keeps)
          have stays : op ∈ closed.operations.items := by
            refine (others op fun other member same => notSuperseded ?_).mpr inside
            have named := (List.mem_filter.mp member).2
            rw [same] at named
            exact List.contains_iff_mem.mp named
          have carried : Edit closed (closed.setOperation
              { op with runId := run, generation := op.generation + 1, updatedAt := now }) :=
            .carry closed op _ stays opened free rfl rfl rfl rfl rfl
              (Int.le_of_lt (Int.lt_succ _))
          exact ((edits.tail carried).trans (referToRun_ok refers)).tail (.note _
            (.replanCarried op.id op.runId run (op.generation + 1)) rfl)

theorem reopenBlocked_ok {outside : Outside} {store after : ReplanStore} {id : Nat}
    {generation : Int} {why : String} {now : Int}
    (reopens : store.reopenBlocked outside id generation why now = .ok after) :
    Relation.ReflTransGen Edit store after := by
  unfold reopenBlocked at reopens
  obtain ⟨op, read, reopens⟩ := bind_ok reopens
  simp only at reopens
  split at reopens
  · cases reopens
    exact .refl
  · obtain ⟨closed, supersedes, moves⟩ := bind_ok reopens
    obtain ⟨_, _, _, _, outcome⟩ := moveInAs_ok moves
    exact (supersede_ok supersedes).1.trans (outcome.edits (Or.inr rfl))

/-! ### A record of a request or a proposal -/

theorem openOperation_ok {outside : Outside} {store : ReplanStore} {new : NewReplan} {task : Nat}
    {origin : ReplanOrigin} {byRole byId : String} {now : Int}
    (alone : store.openOperations task = []) :
    Edit store (store.openOperation outside new task origin byRole byId now).1 ∧
      (store.openOperation outside new task origin byRole byId now).2 ∈
        (store.openOperation outside new task origin byRole byId now).1.operations.items ∧
      (store.openOperation outside new task origin byRole byId now).2.closedAt = none := by
  refine ⟨.opens store _ rfl rfl rfl rfl alone, ?_, rfl⟩
  refine (Keyed.mem_add fun old member => ?_).mpr (Or.inr rfl)
  exact Nat.ne_of_lt (Keyed.lt_nextKey member)

/-- A request joins an open operation, or opens one on a task with none. -/
theorem joinOrOpen_ok {outside : Outside} {store joined : ReplanStore} {new : NewReplan}
    {task : Nat} {latest created : Bool} {origin : ReplanOrigin} {byRole byId : String} {now : Int}
    {op : ReplanOperation}
    (joins : store.joinOrOpen outside new task latest origin byRole byId now =
      .ok (joined, op, created)) :
    Relation.ReflTransGen Edit store joined ∧ op ∈ joined.operations.items ∧ op.closedAt = none := by
  unfold joinOrOpen at joins
  simp only at joins
  split at joins
  · rename_i id request
    obtain ⟨row, read, joins⟩ := bind_ok joins
    cases joins
    obtain ⟨member, isId⟩ := readOperation_ok read
    refine ⟨.refl, member, ?_⟩
    cases keeps : current (store.openOperations task) with
    | none =>
      rw [keeps] at request
      cases request
    | some kept =>
      rw [keeps, requestOn] at request
      split at request
      · cases request
        obtain ⟨inside, _, opened⟩ := mem_openOperations.mp (mem_of_current keeps)
        rw [store.operations.eq_of_key member inside isId]
        exact opened
      · cases request
  · cases joins
  · rename_i request
    obtain ⟨_, _, joins⟩ := bind_ok joins
    cases joins
    have alone : store.openOperations task = [] := by
      refine current_eq_none ?_
      cases keeps : current (store.openOperations task) with
      | none => rfl
      | some kept =>
        rw [keeps, requestOn] at request
        split at request <;> cases request
    obtain ⟨edit, member, opened⟩ := openOperation_ok alone
    exact ⟨.single edit, member, opened⟩

theorem requestFor_ok {store : ReplanStore} {op : ReplanOperation} {new : NewReplan}
    {origin : ReplanOrigin} {byRole byId : String} {now : Int}
    (member : op ∈ store.operations.items) (opened : op.closedAt = none) :
    Relation.ReflTransGen Edit store (store.requestFor op new origin byRole byId now).1 := by
  unfold requestFor
  split
  · rename_i asks
    have noRequest := Option.isNone_iff_eq_none.mp (Bool.and_eq_true_iff.mp asks).2
    exact recordRequest_edits new byRole byId now member opened noRequest rfl
      ⟨rfl, rfl, rfl, rfl, rfl, rfl, le_rfl⟩
  · exact .refl

theorem recordReplan_ok {outside : Outside} {store after : ReplanStore} {new : NewReplan}
    {origin : ReplanOrigin} {byRole byId : String} {now : Int}
    (records : store.recordReplan outside new origin byRole byId now = .ok after) :
    Relation.ReflTransGen Edit store after := by
  unfold recordReplan at records
  obtain ⟨_, _, records⟩ := bind_ok records
  split at records
  · cases records
  · rename_i run _
    simp only at records
    obtain ⟨carried, carries, records⟩ := bind_ok records
    obtain ⟨⟨joined, op, created⟩, joins, records⟩ := bind_ok records
    have carriedEdits : Relation.ReflTransGen Edit store carried := by
      unfold carryAtRequest at carries
      split at carries
      · exact carryOpenTo_ok carries
      · cases carries
        exact .refl
    obtain ⟨edits, member, opened⟩ := joinOrOpen_ok joins
    have requested := @requestFor_ok joined op new origin byRole byId now member opened
    have isAfter := Except.ok.inj records
    rw [← isAfter]
    exact ((carriedEdits.trans edits).trans requested).tail (.note _ (.replanRequested _ _ _ _ _ _ _
      _) rfl)

/-! ### A person's resolution, and a hold of an apply -/

/-- The request of an operation sent back to a planner is renewed once it ended, unless the move
renewed it. -/
theorem renewEnded_ok {store after : ReplanStore} {row : ReplanOperation} {before : Option Nat}
    {now : Int} (renews : store.renewEnded row.id before now = .ok after)
    (member : row ∈ store.operations.items) (opened : row.closedAt = none) :
    after = store ∨ (row.requestId = before ∧ Renewal store after) := by
  unfold renewEnded at renews
  obtain ⟨op, read, renews⟩ := bind_ok renews
  obtain ⟨inside, same⟩ := readOperation_ok read
  obtain rfl := store.operations.eq_of_key inside member same
  split at renews
  · cases renews
    exact Or.inl rfl
  · rename_i request names
    split at renews
    · rename_i kept
      obtain ⟨current, read, renews⟩ := bind_ok renews
      obtain ⟨recorded, isRequest⟩ := readRequest_ok read
      split at renews
      · cases renews
        exact Or.inl rfl
      · rename_i ended
        obtain ⟨⟨renewed, id⟩, renewal, renews⟩ := bind_ok renews
        obtain ⟨new, isNew, fresh, status, own, _, rfl⟩ := renewDeclined_ok renewal
        cases renews
        refine Or.inr ⟨kept, .renew store op _ new request member opened names
          (isRequest ▸ requestEnded_of_row recorded ended) ⟨current, recorded, isRequest⟩
          (isNew.trans fresh) status own ⟨rfl, rfl, rfl, rfl, rfl, ?_, le_rfl⟩⟩
        rw [isNew]
    · cases renews
      exact Or.inl rfl

theorem replanAgain_ok {outside : Outside} {store after : ReplanStore} {op : ReplanOperation}
    {reason : String} {now : Int}
    (again : store.replanAgain outside op reason now = .ok after)
    (read : ∃ row, store.readOperation op.id = .ok row ∧ row.requestId = op.requestId) :
    Written store after := by
  unfold replanAgain at again
  obtain ⟨_, _, again⟩ := bind_ok again
  obtain ⟨moved, moves, renews⟩ := bind_ok again
  obtain ⟨current, row, isCurrent, _, outcome⟩ := moveInAs_ok moves
  obtain ⟨same, isRow, sameRequest⟩ := read
  rw [isRow] at isCurrent
  cases isCurrent
  have isOp : row.id = op.id := outcome.id.trans (readOperation_ok isRow).2
  have opened : row.closedAt = none :=
    Option.isNone_iff_eq_none.mp (Option.isSome_eq_false_iff.mp outcome.closedAt)
  rw [← isOp] at renews
  rcases renewEnded_ok renews outcome.member opened with rfl | ⟨kept, renewal⟩
  · exact outcome.written
  · have edits := outcome.edits (Or.inl (kept.trans sameRequest.symm))
    have written := Written.renewed edits renewal [] (by simp)
    rw [List.append_nil] at written
    exact written

theorem readOperation_setOperation {store : ReplanStore} {old op : ReplanOperation}
    (member : old ∈ store.operations.items) (same : op.id = old.id) :
    (store.setOperation op).readOperation op.id = .ok op := by
  have found : (store.setOperation op).operations.get? op.id = some op :=
    Keyed.get?_eq_some_iff.mpr ⟨mem_setOperation_self member same, rfl⟩
  rw [readOperation, found]

theorem resolveReplan_ok {outside : Outside} {store after : ReplanStore} {resolve : ResolveReplan}
    {snapshotProblem : Option String} {byRole byId : String} {now : Int}
    (resolves : store.resolveReplan outside resolve snapshotProblem byRole byId now = .ok after) :
    Written store after := by
  unfold resolveReplan at resolves
  obtain ⟨_, _, resolves⟩ := bind_ok resolves
  obtain ⟨op, read, resolves⟩ := bind_ok resolves
  obtain ⟨target, resolved, resolves⟩ := bind_ok resolves
  simp only at resolves
  obtain ⟨member, _⟩ := readOperation_ok read
  have raise := Edit.touch store op { op with generation := op.generation + 1, updatedAt := now }
    member ⟨rfl, rfl, rfl, rfl, rfl, rfl, Int.le_of_lt (Int.lt_succ _)⟩
  have raised := (Relation.ReflTransGen.single raise).tail (.note _ (.replanResolved op.id
    resolve.resolution op.returnPhase target (op.generation + 1) resolve.reason byRole byId) rfl)
  split at resolves
  · exact Written.after raised (replanAgain_ok resolves
      ⟨_, readOperation_setOperation member rfl, rfl⟩)
  · obtain ⟨_, _, _, _, outcome⟩ := moveInAs_ok resolves
    exact Written.after raised outcome.written

theorem holdBlocked_ok {outside : Outside} {store held : ReplanStore} {op : ReplanOperation}
    {generation : Int} {reason : String} {now : Int} (member : op ∈ store.operations.items)
    (holds : store.holdBlocked outside op generation reason now = .ok held) :
    Relation.ReflTransGen Edit store held := by
  unfold holdBlocked at holds
  split at holds
  · obtain ⟨_, _, _, _, outcome⟩ := moveInAs_ok holds
    exact outcome.edits (Or.inr rfl)
  · split at holds
    · cases holds
      exact .single (.touch store op _ member ⟨rfl, rfl, rfl, rfl, rfl, rfl, le_rfl⟩)
    · cases holds
      exact .refl

theorem holdApply_ok {outside : Outside} {store after : ReplanStore} {id : Nat} {generation : Int}
    {reason again : String} {replan : Bool} {now : Int}
    (holds : store.holdApply outside id generation reason again replan now = .ok after) :
    Written store after := by
  unfold holdApply at holds
  obtain ⟨op, read, holds⟩ := bind_ok holds
  split at holds
  · cases holds
    exact .refl store
  · obtain ⟨held, blocks, holds⟩ := bind_ok holds
    obtain ⟨blocked, reread, holds⟩ := bind_ok holds
    have edits := holdBlocked_ok (readOperation_ok read).1 blocks
    split at holds
    · obtain ⟨_, isId⟩ := readOperation_ok reread
      exact Written.after edits (replanAgain_ok holds ⟨blocked, isId ▸ reread, rfl⟩)
    · cases holds
      exact .edited edits

/-! ### Planners and proposals -/

theorem plannerOpened_ok {outside : Outside} {store after : ReplanStore} {request planner : Nat}
    {now : Int} (opens : store.plannerOpened outside request planner now = .ok after) :
    Written store after := by
  unfold plannerOpened at opens
  split at opens
  · cases opens
    exact .refl store
  · split at opens
    · obtain ⟨_, _, _, _, outcome⟩ := moveInAs_ok opens
      exact outcome.written
    · cases opens
      exact .refl store

theorem endRequest_edits {store : ReplanStore} {old : PlanRequest} (new : PlanRequest)
    (record : ReplanRecord) (member : old ∈ store.requests.items) (same : new.id = old.id)
    (ended : new.status ≠ .opened) (operation : new.replanOperation = old.replanOperation)
    (plain : record.renews = none) :
    Relation.ReflTransGen Edit store ((store.setRequest new).note record) :=
  (Relation.ReflTransGen.single (.endRequest store old new member same ended operation)).tail
    (.note _ record plain)

theorem openRequestPlanner_ok {outside : Outside} {store after : ReplanStore} {request : Nat}
    {answer : Option Nat} {eligible : Bool} {now : Int}
    (opens : store.openRequestPlanner outside request answer eligible now = .ok after) :
    Written store after := by
  unfold openRequestPlanner at opens
  obtain ⟨current, read, opens⟩ := bind_ok opens
  simp only at opens
  split at opens
  · cases opens
    exact .refl store
  · split at opens
    · cases opens
      exact .edited (endRequest_edits _ _ (readRequest_ok read).1 rfl
        (fun same => RequestStatus.noConfusion same) rfl rfl)
    · obtain ⟨moved, moves, opens⟩ := bind_ok opens
      cases opens
      let planner : Planner :=
        { id := store.planners.nextKey, requestId := some request, runtime := true,
          answerWait := false, closed := false }
      have added : Edit store { store with planners := store.planners.add planner } :=
        .addPlanner store planner rfl
      exact (Written.after (.single added) (plannerOpened_ok moves)).note _ rfl

/-- Either no request of a closed operation is left open without a planner by the planner's end, or
it is declined. -/
theorem declineAfterPlanner_ok {store after : ReplanStore} {id : Nat} {planner : Planner}
    {now : Int} (found : store.planners.get? id = some planner)
    (declines : store.declineAfterPlanner id now = .ok after) :
    (after = store ∧ ∀ op ∈ store.operations.items, op.status.isClosed = true →
      ∀ request ∈ store.requests.items, request.replanOperation = some op.id →
        planner.requestId = some request.id → store.plannerOpen request.id = false →
        request.status ≠ .opened) ∨
    ∃ request op outcome reason was, planner.requestId = some request ∧
      store.declineForOperation request op outcome reason (some id) now = .ok (after, was) := by
  unfold declineAfterPlanner at declines
  rw [found, Option.bind_some] at declines
  split at declines
  · rename_i noRequest
    cases declines
    refine Or.inl ⟨rfl, fun _ _ _ request _ _ names => ?_⟩
    exact absurd (names.symm.trans noRequest) (Option.some_ne_none _)
  · rename_i requestId names
    have only : ∀ request : PlanRequest, planner.requestId = some request.id →
        request.id = requestId := fun request isOther => Option.some.inj (isOther.symm.trans names)
    split at declines
    · rename_i missing
      cases declines
      refine Or.inl ⟨rfl, fun _ _ _ request inside _ isOther => ?_⟩
      exact absurd (only request isOther) (Keyed.get?_eq_none_iff.mp missing request inside)
    · rename_i request isRequest
      obtain ⟨recorded, isRecorded⟩ := Keyed.get?_eq_some_iff.mp isRequest
      have same : ∀ other ∈ store.requests.items, planner.requestId = some other.id →
          other = request := fun other inside isOther =>
        store.requests.eq_of_key inside recorded ((only other isOther).trans isRecorded.symm)
      have ofRow : ∀ op ∈ store.operations.items, request.replanOperation = some op.id →
          request.replanOperation.bind store.operations.get? = some op := by
        intro op inside own
        rw [own, Option.bind_some]
        exact Keyed.get?_eq_some_iff.mpr ⟨inside, rfl⟩
      split at declines
      · rename_i isEnded
        cases declines
        refine Or.inl ⟨rfl, fun _ _ _ other inside _ isOther _ => ?_⟩
        rw [same other inside isOther]
        exact isEnded
      · split at declines
        · rename_i missing
          cases declines
          refine Or.inl ⟨rfl, fun op inside _ other recordedOther own isOther => ?_⟩
          rw [same other recordedOther isOther] at own
          exact absurd ((ofRow op inside own).symm.trans missing) (Option.some_ne_none _)
        · rename_i owner isOwner
          split at declines
          · rename_i stays
            cases declines
            refine Or.inl ⟨rfl, fun op inside closed other recordedOther own isOther noPlanner =>
              absurd stays ?_⟩
            rw [same other recordedOther isOther] at own
            obtain rfl := Option.some.inj ((ofRow op inside own).symm.trans isOwner)
            rw [only other isOther] at noPlanner
            rw [ReplanStatus.endsRequestUndecided, closed, noPlanner]
            exact Bool.false_ne_true
          · obtain ⟨⟨declined, was⟩, isDeclined, rfl⟩ := map_ok declines
            exact Or.inr ⟨requestId, owner.id, owner.status, _, was, names, isDeclined⟩

/-- A planner's end declines the request it leaves open for a closed operation, before its row is
written. -/
theorem closePlanner_ok {store after : ReplanStore} {id : Nat} {now : Int}
    (closes : store.closePlanner id now = .ok after) : Relation.ReflTransGen Edit store after := by
  unfold closePlanner at closes
  split at closes
  · cases closes
    exact .refl
  · rename_i planner found
    obtain ⟨member, isId⟩ := Keyed.get?_eq_some_iff.mp found
    split at closes
    · cases closes
      exact .refl
    · let ended : Planner := { planner with closed := true }
      have row : (store.planners.set ended).get? id = some ended :=
        Keyed.get?_eq_some_iff.mpr ⟨Keyed.mem_set.mpr (Or.inl ⟨rfl, planner, member, rfl⟩), isId⟩
      rcases declineAfterPlanner_ok row closes with
        ⟨rfl, settled⟩ | ⟨request, op, outcome, reason, was, names, isDeclined⟩
      · exact .single (.closePlanner store planner member settled)
      · have framed := (declineForOperation_frame store store.operations (store.planners.set ended)
          _ _ _ _ _ _).symm.trans isDeclined
        obtain ⟨⟨declined, did⟩, first, same⟩ := map_ok framed
        cases same
        obtain ⟨sameRows, edits, isEnded⟩ := declineForOperation_ok first
        have close := Edit.closePlanner declined planner (by rw [sameRows]; exact member)
          fun _ _ _ other inside _ isOther _ =>
            isEnded other inside (Option.some.inj (isOther.symm.trans names))
        rw [sameRows] at close edits
        rw [sameRows]
        exact edits.tail close

theorem waitForAnswer_ok (store : ReplanStore) (id : Nat) :
    Relation.ReflTransGen Edit store (store.waitForAnswer id) := by
  unfold waitForAnswer
  split
  · exact .refl
  · rename_i planner found
    split
    · exact .refl
    · exact .single (.waitPlanner store planner (Keyed.get?_eq_some_iff.mp found).1)

theorem declineRequest_ok {store after : ReplanStore} {request : Nat} {reason by_ : String}
    {authorized : Option Nat} {continueRun : Bool} {now : Int}
    (declines : store.declineRequest request reason by_ authorized continueRun now = .ok after) :
    Relation.ReflTransGen Edit store after := by
  unfold declineRequest at declines
  obtain ⟨current, read, declines⟩ := bind_ok declines
  obtain ⟨_, _, declines⟩ := bind_ok declines
  obtain ⟨_, _, declines⟩ := bind_ok declines
  obtain ⟨_, _, declines⟩ := bind_ok declines
  obtain ⟨_, _, declines⟩ := bind_ok declines
  cases declines
  exact endRequest_edits _ _ (readRequest_ok read).1 rfl
    (fun same => RequestStatus.noConfusion same) rfl rfl

theorem linkRequest_ok {store after : ReplanStore} {request proposal : Nat} {planner : Option Nat}
    {now : Int} (links : store.linkRequest request proposal planner now = .ok after) :
    Relation.ReflTransGen Edit store after := by
  unfold linkRequest at links
  obtain ⟨current, read, links⟩ := bind_ok links
  split at links
  · cases links
    exact endRequest_edits _ _ (readRequest_ok read).1 rfl
      (fun same => RequestStatus.noConfusion same) rfl rfl
  · cases links
    exact .refl

theorem nameProposal_ok {store after : ReplanStore} {id proposal : Nat} {now : Int}
    (names : store.nameProposal id proposal now = .ok after) :
    Relation.ReflTransGen Edit store after := by
  unfold nameProposal at names
  obtain ⟨op, read, names⟩ := bind_ok names
  cases names
  exact .single (.touch store op _ (readOperation_ok read).1
    ⟨rfl, rfl, rfl, rfl, rfl, rfl, le_rfl⟩)

theorem claimRun_ok {outside : Outside} {store after : ReplanStore} {task : Nat} {run : String}
    {now : Int} (claims : store.claimRun outside task run now = .ok after) :
    Relation.ReflTransGen Edit store after := by
  unfold claimRun at claims
  split at claims
  · cases claims
  · exact (Relation.ReflTransGen.single (.claim store ⟨run, task⟩)).trans (carryOpenTo_ok claims)

end ReplanStore

end Dagq.Replan
