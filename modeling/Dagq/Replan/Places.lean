/-
This file says of a write only where it leaves each operation, its status, its
generation and its run, and which moves it records. A write goes through a chain
of moves along the table, each recorded as it is made, with a resolution's new
generation before them; everything else a write does is aside of that.
-/

import Dagq.Replan.Writes

namespace Dagq.Replan

open Dagq.Lib

/-- What a decision reads of the record of a move. -/
structure ReplanMoved where
  operationId : Nat
  target : ReplanStatus
  generation : Int
  deriving DecidableEq, Repr

def ReplanRecord.asMoved : ReplanRecord → Option ReplanMoved
  | .replanStatusChanged operation _ target _ generation _ _ _ _ =>
    some ⟨operation, target, generation⟩
  | _ => none

/-- Where an operation is. -/
structure Place where
  id : Nat
  status : ReplanStatus
  generation : Int
  runId : String
  deriving DecidableEq, Repr

def ReplanOperation.place (op : ReplanOperation) : Place :=
  ⟨op.id, op.status, op.generation, op.runId⟩

def Place.moveTo (place : Place) (target : ReplanStatus) : Place :=
  { place with
    status := target
    generation := generationAfter place.status target place.generation }

def Place.raise (place : Place) : Place := { place with generation := place.generation + 1 }

def Place.moved (place : Place) : ReplanMoved := ⟨place.id, place.status, place.generation⟩

def setPlace (place : Place) (places : List Place) : List Place :=
  places.map fun other => if other.id = place.id then place else other

/-- The run of an operation. -/
def runOf (places : List Place) (id : Nat) : String :=
  ((places.find? fun place => place.id = id).map Place.runId).getD ""

/-! ### Places -/

theorem mem_setPlace {place other : Place} {places : List Place} :
    other ∈ setPlace place places ↔
      (other = place ∧ ∃ old ∈ places, old.id = place.id) ∨
        (other ∈ places ∧ other.id ≠ place.id) := by
  rw [setPlace, List.mem_map]
  constructor
  · rintro ⟨old, member, rfl⟩
    by_cases same : old.id = place.id
    · rw [if_pos same]
      exact Or.inl ⟨rfl, old, member, same⟩
    · rw [if_neg same]
      exact Or.inr ⟨member, same⟩
  · rintro (⟨rfl, old, member, same⟩ | ⟨member, different⟩)
    · exact ⟨old, member, if_pos same⟩
    · exact ⟨other, member, if_neg different⟩

theorem map_id_setPlace (place : Place) (places : List Place) :
    (setPlace place places).map Place.id = places.map Place.id := by
  rw [setPlace, List.map_map]
  refine List.map_congr_left fun other _ => ?_
  by_cases same : other.id = place.id
  · rw [Function.comp_apply, if_pos same, same]
  · rw [Function.comp_apply, if_neg same]

theorem setPlace_self {place : Place} {places : List Place}
    (distinct : (places.map Place.id).Nodup) (member : place ∈ places) :
    setPlace place places = places := by
  unfold setPlace
  conv_rhs => rw [← List.map_id places]
  refine List.map_congr_left fun other inside => ?_
  by_cases same : other.id = place.id
  · rw [if_pos same, List.inj_on_of_nodup_map distinct inside member same, id]
  · rw [if_neg same, id]

theorem runOf_mem {place : Place} {places : List Place} (distinct : (places.map Place.id).Nodup)
    (member : place ∈ places) : runOf places place.id = place.runId := by
  unfold runOf
  cases found : places.find? fun other => other.id = place.id with
  | none =>
    have missing := List.find?_eq_none.mp found place member
    exact absurd (decide_eq_true rfl) missing
  | some other =>
    have same : other.id = place.id := of_decide_eq_true (List.find?_some found :)
    rw [List.inj_on_of_nodup_map distinct (List.mem_of_find?_eq_some found) member same]
    rfl

/-- A change of an operation's place leaves every operation on its run. -/
theorem runOf_setPlace {old place : Place} {places : List Place}
    (distinct : (places.map Place.id).Nodup) (member : old ∈ places) (sameId : place.id = old.id)
    (sameRun : place.runId = old.runId) (id : Nat) :
    runOf (setPlace place places) id = runOf places id := by
  by_cases isIt : id = place.id
  · have after : place ∈ setPlace place places := mem_setPlace.mpr (Or.inl ⟨rfl, old, member,
      sameId.symm⟩)
    rw [isIt, runOf_mem (by rw [map_id_setPlace]; exact distinct) after, sameId,
      runOf_mem distinct member, sameRun]
  · unfold runOf setPlace
    rw [List.find?_map]
    have same : ((fun other : Place => decide (other.id = id)) ∘ fun other =>
        if other.id = place.id then place else other) = fun other => decide (other.id = id) := by
      funext other
      by_cases isPlace : other.id = place.id
      · rw [Function.comp_apply, if_pos isPlace, isPlace]
      · rw [Function.comp_apply, if_neg isPlace]
    rw [same]
    cases found : places.find? fun other => other.id = id with
    | none => rfl
    | some other =>
      have isOther : other.id = id := of_decide_eq_true (List.find?_some found :)
      have different : other.id ≠ place.id := fun isPlace => isIt (isOther.symm.trans isPlace)
      rw [Option.map_some, if_neg different]

/-! ### Chains of moves -/

/-- The moves of a write, each with the run it is recorded of; an operation closed in a
continuation or a withdrawal moves where `mayReopen` lets it. -/
inductive MoveChain (mayReopen : Nat → Prop) :
    List Place → List (String × ReplanMoved) → List Place → Prop where
  | done (places : List Place) : MoveChain mayReopen places [] places
  | move {places after : List Place} {rest : List (String × ReplanMoved)} (place : Place)
      (target : ReplanStatus) (member : place ∈ places)
      (allowed : place.status.canMoveTo target = true)
      (may : place.status.reopens = true → mayReopen place.id)
      (chain : MoveChain mayReopen (setPlace (place.moveTo target) places) rest after) :
      MoveChain mayReopen places ((place.runId, (place.moveTo target).moved) :: rest) after
  | raise {places after : List Place} {rest : List (String × ReplanMoved)} (place : Place)
      (member : place ∈ places) (opened : place.status.isClosed = false)
      (chain : MoveChain mayReopen (setPlace place.raise places) rest after) :
      MoveChain mayReopen places rest after

theorem MoveChain.append {mayReopen : Nat → Prop} {places middle after : List Place}
    {earlier later : List (String × ReplanMoved)} (first : MoveChain mayReopen places earlier middle)
    (second : MoveChain mayReopen middle later after) :
    MoveChain mayReopen places (earlier ++ later) after := by
  induction first with
  | done => exact second
  | move place target member allowed may _ inductionHypothesis =>
    exact .move place target member allowed may (inductionHypothesis second)
  | raise place member opened _ inductionHypothesis =>
    exact .raise place member opened (inductionHypothesis second)

theorem MoveChain.mono {mayReopen others : Nat → Prop} (more : ∀ id, mayReopen id → others id)
    {places after : List Place} {moves : List (String × ReplanMoved)}
    (chain : MoveChain mayReopen places moves after) : MoveChain others places moves after := by
  induction chain with
  | done places => exact .done places
  | move place target member allowed may _ inductionHypothesis =>
    exact .move place target member allowed (fun reopens => more _ (may reopens))
      inductionHypothesis
  | raise place member opened _ inductionHypothesis =>
    exact .raise place member opened inductionHypothesis

/-- Each move of a chain is recorded of the run its operation was on before the chain. -/
theorem MoveChain.runs {mayReopen : Nat → Prop} {places after : List Place}
    {moves : List (String × ReplanMoved)} (chain : MoveChain mayReopen places moves after)
    (distinct : (places.map Place.id).Nodup) :
    moves.map (fun recorded => (runOf places recorded.2.operationId, recorded.2)) = moves := by
  have kept : ∀ {old place : Place} {places : List Place}, (places.map Place.id).Nodup →
      old ∈ places → place.id = old.id → place.runId = old.runId →
      (fun recorded : String × ReplanMoved =>
        (runOf (setPlace place places) recorded.2.operationId, recorded.2)) =
      fun recorded => (runOf places recorded.2.operationId, recorded.2) := by
    intro old place places distinct member sameId sameRun
    funext recorded
    rw [runOf_setPlace distinct member sameId sameRun]
  induction chain with
  | done => rfl
  | @move places after rest place target member allowed may _ inductionHypothesis =>
    have rest := inductionHypothesis (by rw [map_id_setPlace]; exact distinct)
    have isPlace : (place.moveTo target).id = place.id := rfl
    rw [kept distinct member isPlace rfl] at rest
    have first : runOf places place.id = place.runId := runOf_mem distinct member
    rw [List.map_cons, rest]
    exact congrArg (fun run => (run, (place.moveTo target).moved) :: _) first
  | @raise places after rest place member opened _ inductionHypothesis =>
    have rest := inductionHypothesis (by rw [map_id_setPlace]; exact distinct)
    have isPlace : place.raise.id = place.id := rfl
    rw [kept distinct member isPlace rfl] at rest
    exact rest

namespace ReplanStore

def places (store : ReplanStore) : List Place := store.operations.items.map ReplanOperation.place

/-- The moves recorded, oldest first. -/
def moves (store : ReplanStore) : List ReplanMoved := store.records.filterMap ReplanRecord.asMoved

/-- The moves a write recorded, each with the run of its operation. -/
def movesSince (before after : ReplanStore) : List (String × ReplanMoved) :=
  (after.moves.drop before.moves.length).map fun moved =>
    (runOf before.places moved.operationId, moved)

theorem places_distinct (store : ReplanStore) : (store.places.map Place.id).Nodup := by
  unfold places
  rw [List.map_map]
  exact store.operations.distinct

theorem mem_places {store : ReplanStore} {op : ReplanOperation}
    (member : op ∈ store.operations.items) : op.place ∈ store.places :=
  List.mem_map_of_mem member

theorem places_setOperation (store : ReplanStore) (op : ReplanOperation) :
    (store.setOperation op).places = setPlace op.place store.places := by
  unfold places setOperation setPlace Keyed.set
  rw [List.map_map, List.map_map]
  refine List.map_congr_left fun other _ => ?_
  show ReplanOperation.place (if other.id = op.id then op else other) =
    if other.id = op.id then op.place else other.place
  by_cases same : other.id = op.id
  · rw [if_pos same, if_pos same]
  · rw [if_neg same, if_neg same]

theorem moves_note (store : ReplanStore) (record : ReplanRecord) :
    (store.note record).moves = store.moves ++ record.asMoved.toList := by
  unfold moves note
  rw [List.filterMap_append]
  cases moved : record.asMoved with
  | none => rw [List.filterMap_cons_none moved]; rfl
  | some value => rw [List.filterMap_cons_some moved]; rfl

/-! ### What a write does aside of its moves -/

/-- Every operation is left where it is, and no move is recorded. -/
structure Aside (before after : ReplanStore) : Prop where
  places : after.places = before.places
  moves : after.moves = before.moves

theorem Aside.refl (store : ReplanStore) : Aside store store := ⟨rfl, rfl⟩

theorem Aside.trans {first second third : ReplanStore} (earlier : Aside first second)
    (later : Aside second third) : Aside first third :=
  ⟨later.places.trans earlier.places, later.moves.trans earlier.moves⟩

/-- A write of the requests that notes no move. -/
theorem aside_noted (store : ReplanStore) (requests : Keyed PlanRequest.id) (record : ReplanRecord)
    (noMove : record.asMoved = none) :
    Aside store (({ store with requests := requests } : ReplanStore).note record) := by
  refine ⟨rfl, ?_⟩
  rw [moves_note, noMove]
  exact List.append_nil _

/-- A row written again in its place. -/
theorem aside_setOperation {store : ReplanStore} {op : ReplanOperation}
    (member : op.place ∈ store.places) : Aside store (store.setOperation op) := by
  refine ⟨?_, rfl⟩
  rw [places_setOperation, setPlace_self store.places_distinct member]

theorem declineForOperation_aside {store after : ReplanStore} {request op : Nat}
    {outcome : ReplanStatus} {reason : String} {endedPlanner : Option Nat} {now : Int} {was : Bool}
    (declined : store.declineForOperation request op outcome reason endedPlanner now =
      .ok (after, was)) : Aside store after := by
  unfold declineForOperation at declined
  obtain ⟨row, _, declined⟩ := bind_ok declined
  split at declined
  · cases declined
    exact .refl store
  · cases declined
    exact aside_noted store _ _ rfl

theorem declineAtClose_aside {store closed : ReplanStore} {op : ReplanOperation}
    {step : ReplanMove} {now : Int} {declined : Option Nat}
    (settles : store.declineAtClose op step now = .ok (closed, declined)) : Aside store closed := by
  unfold declineAtClose at settles
  split at settles
  · cases settles
    exact .refl store
  · split at settles
    · obtain ⟨⟨inner, was⟩, isDeclined, settles⟩ := bind_ok settles
      cases settles
      exact declineForOperation_aside isDeclined
    · cases settles
      exact .refl store

theorem renewDeclined_aside {store after : ReplanStore} {ended op id : Nat} {now : Int}
    (renewed : store.renewDeclined ended op now = .ok (after, id)) : Aside store after := by
  obtain ⟨request, _, _, _, _, _, rfl⟩ := renewDeclined_ok renewed
  exact aside_noted store _ _ rfl

/-- A renewal at a move names the request in the row, which stays in its place. -/
theorem renewAtMove_aside {store renewed : ReplanStore} {op row final : ReplanOperation}
    {step : ReplanMove} {now : Int} {renewal : Option Nat}
    (moves : store.renewAtMove op row step now = .ok (renewed, final, renewal))
    (member : row.place ∈ store.places) : Aside store renewed ∧ final.place = row.place := by
  unfold renewAtMove at moves
  split at moves
  · cases moves
    exact ⟨.refl store, rfl⟩
  · split at moves
    · obtain ⟨⟨inner, id⟩, recorded, moves⟩ := bind_ok moves
      cases moves
      have aside := renewDeclined_aside recorded
      have inside : ReplanOperation.place { row with requestId := some id } ∈ inner.places := by
        rw [aside.places]
        exact member
      exact ⟨aside.trans (aside_setOperation inside), rfl⟩
    · cases moves
      exact ⟨.refl store, rfl⟩

theorem recordAtPause_aside {store : ReplanStore} (op row : ReplanOperation) (step : ReplanMove)
    (now : Int) (member : row.place ∈ store.places) :
    Aside store (store.recordAtPause op row step now).1 := by
  unfold recordAtPause
  split
  · split
    · exact Aside.trans (aside_noted store _ (.requestRecorded _ _ _ none) rfl)
        (aside_setOperation member)
    · exact .refl store
  · exact .refl store

/-! ### What each write records of its moves -/

/-- What a write does to the places goes along a chain of moves, which it records. -/
def Moves (mayReopen : Nat → Prop) (before after : ReplanStore) : Prop :=
  ∃ recorded, MoveChain mayReopen before.places recorded after.places ∧
    after.moves = before.moves ++ recorded.map Prod.snd

theorem Aside.moving {mayReopen : Nat → Prop} {before after : ReplanStore}
    (aside : Aside before after) : Moves mayReopen before after := by
  refine ⟨[], ?_, ?_⟩
  · rw [aside.places]
    exact .done before.places
  · rw [aside.moves]
    exact (List.append_nil _).symm

theorem Moves.trans {mayReopen : Nat → Prop} {first second third : ReplanStore}
    (earlier : Moves mayReopen first second) (later : Moves mayReopen second third) :
    Moves mayReopen first third := by
  obtain ⟨before, chain, records⟩ := earlier
  obtain ⟨after, more, recordsMore⟩ := later
  refine ⟨before ++ after, chain.append more, ?_⟩
  rw [recordsMore, records, List.map_append, List.append_assoc]

theorem Moves.mono {mayReopen others : Nat → Prop} (more : ∀ id, mayReopen id → others id)
    {before after : ReplanStore} (moves : Moves mayReopen before after) :
    Moves others before after := by
  obtain ⟨recorded, chain, records⟩ := moves
  exact ⟨recorded, chain.mono more, records⟩

/-- The moves a write recorded, with their runs, are the moves of its chain. -/
theorem Moves.since {mayReopen : Nat → Prop} {before after : ReplanStore}
    (moves : Moves mayReopen before after) :
    MoveChain mayReopen before.places (before.movesSince after) after.places := by
  obtain ⟨recorded, chain, records⟩ := moves
  have same : before.movesSince after = recorded := by
    unfold movesSince
    rw [records, List.drop_left, List.map_map]
    exact chain.runs before.places_distinct
  rw [same]
  exact chain

/-- An accepted move is one move of the operation's place, and is recorded. -/
theorem moveInAs_moves {mayReopen : Nat → Prop} {store after : ReplanStore} {outside : Outside}
    {id : Nat} {generation : Int} {step : ReplanMove} {now : Int} {apply : Bool}
    (moves : store.moveInAs outside id generation step now apply = .ok after)
    (may : ∀ op ∈ store.operations.items, op.id = id → op.status.canMoveTo step.target = true →
      op.status.reopens = true → mayReopen id) : Moves mayReopen store after := by
  unfold moveInAs at moves
  obtain ⟨op, read, moves⟩ := bind_ok moves
  obtain ⟨_, checked, moves⟩ := bind_ok moves
  obtain ⟨_, _, moves⟩ := bind_ok moves
  obtain ⟨_, _, moves⟩ := bind_ok moves
  obtain ⟨_, _, moves⟩ := bind_ok moves
  obtain ⟨⟨closed, declined⟩, settles, moves⟩ := bind_ok moves
  obtain ⟨⟨renewed, final, renewal⟩, renews, moves⟩ := bind_ok moves
  obtain ⟨member, isId⟩ := readOperation_ok read
  have allowed := (checkMoveAs_ok checked).2
  have row : (moved op step now).place = op.place.moveTo step.target := rfl
  have rowIn : (moved op step now).place ∈ (store.setOperation (moved op step now)).places := by
    rw [places_setOperation]
    exact mem_setPlace.mpr (Or.inl ⟨rfl, op.place, mem_places member, rfl⟩)
  have closes := declineAtClose_aside settles
  obtain ⟨renewing, kept⟩ := renewAtMove_aside renews (by rw [closes.places]; exact rowIn)
  have finalIn : final.place ∈ renewed.places := by
    rw [kept, renewing.places, closes.places]
    exact rowIn
  have aside := (closes.trans renewing).trans (recordAtPause_aside op final step now finalIn)
  have isAfter : (renewed.recordAtPause op final step now).1.note (.replanStatusChanged id op.status
      step.target step.reason (generationAfter op.status step.target op.generation) step.snapshotId
      (renewed.recordAtPause op final step now).2.2 declined renewal) = after :=
    Except.ok.inj moves
  clear moves
  subst isAfter
  refine ⟨[(op.runId, (op.place.moveTo step.target).moved)], ?_, ?_⟩
  · refine .move op.place step.target (mem_places member) allowed
      (fun reopens => ?_) ?_
    · rw [ReplanOperation.place, isId]
      exact may op member isId allowed reopens
    · show MoveChain mayReopen _ [] (renewed.recordAtPause op final step now).1.places
      rw [aside.places, places_setOperation, row]
      exact .done _
  · rw [moves_note, aside.moves, ← isId]
    rfl

theorem supersede_moves {outside : Outside} {reason : String} {now : Int} :
    ∀ {older : List ReplanOperation} {store closed : ReplanStore},
      store.supersede outside older reason now = .ok closed →
      Moves (fun _ => False) store closed := by
  intro older
  induction older with
  | nil =>
    intro store closed done
    cases done
    exact (Aside.refl store).moving
  | cons op older inductionHypothesis =>
    intro store closed done
    unfold supersede at done
    rw [List.foldlM_cons] at done
    obtain ⟨middle, moves, rest⟩ := bind_ok done
    -- no continuation or withdrawal is superseded: the table moves it to `blocked` only
    have first := @moveInAs_moves (fun _ => False) _ _ _ _ _ _ _ _ moves
      fun row _ _ allowed reopens => by
        have blocked := ReplanStatus.blocked_of_reopens reopens allowed
        cases blocked
    exact first.trans (inductionHypothesis rest)

/-- A failed restore moves no other closed operation than its own. -/
theorem reopenBlocked_moves {outside : Outside} {store after : ReplanStore} {id : Nat}
    {generation : Int} {why : String} {now : Int}
    (reopens : store.reopenBlocked outside id generation why now = .ok after) :
    Moves (fun moved => moved = id) store after := by
  unfold reopenBlocked at reopens
  obtain ⟨op, _, reopens⟩ := bind_ok reopens
  simp only at reopens
  split at reopens
  · cases reopens
    exact (Aside.refl store).moving
  · obtain ⟨closed, supersedes, moves⟩ := bind_ok reopens
    refine Moves.trans ((supersede_moves supersedes).mono fun _ => False.elim) ?_
    exact moveInAs_moves moves fun _ _ _ _ _ => rfl

theorem renewEnded_aside {store after : ReplanStore} {id : Nat} {before : Option Nat} {now : Int}
    (renews : store.renewEnded id before now = .ok after) : Aside store after := by
  unfold renewEnded at renews
  obtain ⟨op, read, renews⟩ := bind_ok renews
  split at renews
  · cases renews
    exact .refl store
  · split at renews
    · obtain ⟨current, _, renews⟩ := bind_ok renews
      split at renews
      · cases renews
        exact .refl store
      · obtain ⟨⟨renewed, new⟩, renewal, renews⟩ := bind_ok renews
        cases renews
        have aside := renewDeclined_aside renewal
        refine aside.trans (aside_setOperation ?_)
        have inside : op.place ∈ renewed.places := by
          rw [aside.places]
          exact mem_places (readOperation_ok read).1
        exact inside
    · cases renews
      exact .refl store

theorem replanAgain_moves {outside : Outside} {store after : ReplanStore} {op : ReplanOperation}
    {reason : String} {now : Int}
    (again : store.replanAgain outside op reason now = .ok after) :
    Moves (fun _ => False) store after := by
  unfold replanAgain at again
  obtain ⟨_, _, again⟩ := bind_ok again
  obtain ⟨moved, moves, renews⟩ := bind_ok again
  have first := @moveInAs_moves (fun _ => False) _ _ _ _ _ _ _ _ moves
    fun row _ _ allowed reopens => by
      have blocked := ReplanStatus.blocked_of_reopens reopens allowed
      cases blocked
  exact first.trans (renewEnded_aside renews).moving

/-- A resolution raises the generation of a blocked operation, and moves it. -/
theorem resolveReplan_moves {outside : Outside} {store after : ReplanStore}
    {resolve : ResolveReplan} {snapshotProblem : Option String} {byRole byId : String} {now : Int}
    (resolves : store.resolveReplan outside resolve snapshotProblem byRole byId now = .ok after) :
    Moves (fun _ => False) store after := by
  unfold resolveReplan at resolves
  obtain ⟨_, _, resolves⟩ := bind_ok resolves
  obtain ⟨op, read, resolves⟩ := bind_ok resolves
  obtain ⟨target, resolved, resolves⟩ := bind_ok resolves
  simp only at resolves
  obtain ⟨member, _⟩ := readOperation_ok read
  have blocked : op.status = .blocked := (resolveTo_ok resolved).1
  let raised : ReplanOperation := { op with generation := op.generation + 1, updatedAt := now }
  let written := (store.setOperation raised).note (.replanResolved op.id
    resolve.resolution op.returnPhase target (op.generation + 1) resolve.reason byRole byId)
  have raises : Moves (fun _ => False) store written := by
    refine ⟨[], .raise op.place (mem_places member) (by rw [ReplanOperation.place, blocked]; rfl) ?_,
      ?_⟩
    · show MoveChain _ _ [] (store.setOperation raised).places
      rw [places_setOperation]
      exact .done _
    · show written.moves = _
      rw [moves_note]
      rfl
  refine raises.trans ?_
  split at resolves
  · exact replanAgain_moves resolves
  · refine moveInAs_moves resolves fun row inside isRow _ reopens => ?_
    -- the row the resolution moves is the raised one, which is blocked
    have same : row = raised := by
      refine Keyed.eq_of_key _ inside (mem_setOperation_self member rfl) isRow
    rw [same] at reopens
    exact absurd (reopens.symm.trans (congrArg ReplanStatus.reopens blocked)) (by decide)

end ReplanStore

end Dagq.Replan
