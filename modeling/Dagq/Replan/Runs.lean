/-
This file runs the writes: a write is taken or refused, and a run is any order
of them, each with whatever the tables left out say at the time and with any
generation its caller read. A run of writes is a run of edits and renewals, and
a write decided under a generation other than the operation's is refused.
-/

import Dagq.Replan.Writes

namespace Dagq.Replan

open Dagq.Lib

/-- The writes. -/
inductive ReplanWrite where
  | record (new : NewReplan) (origin : ReplanOrigin) (byRole byId : String)
  | move (id : Nat) (generation : Int) (step : ReplanMove) (apply : Bool)
  | resolve (choice : ResolveReplan) (snapshotProblem : Option String) (byRole byId : String)
  | holdApply (id : Nat) (generation : Int) (reason again : String) (replan : Bool)
  | replanAgain (id : Nat) (generation : Int) (reason : String)
  | claim (task : Nat) (run : String)
  | reopen (id : Nat) (generation : Int) (why : String)
  | openPlanner (request : Nat) (answer : Option Nat) (eligible : Bool)
  | closePlanner (id : Nat)
  | waitForAnswer (id : Nat)
  | decline (request : Nat) (reason by_ : String) (authorized : Option Nat) (continueRun : Bool)
  | link (request proposal : Nat) (planner : Option Nat)
  | nameProposal (id proposal : Nat)
  deriving DecidableEq, Repr

/-- The operation a write is decided on, and the generation it was read at. -/
def ReplanWrite.decidedUnder : ReplanWrite → Option (Nat × Int)
  | .move id generation _ _ => some (id, generation)
  | .resolve choice _ _ _ => some (choice.operation, choice.generation)
  | .holdApply id generation _ _ _ => some (id, generation)
  | .replanAgain id generation _ => some (id, generation)
  | .reopen id generation _ => some (id, generation)
  | _ => none

namespace ReplanStore

/-- What a write leaves, or why it is refused. -/
def write (outside : Outside) (now : Int) (store : ReplanStore) :
    ReplanWrite → Except ReplanError ReplanStore
  | .record new origin byRole byId => store.recordReplan outside new origin byRole byId now
  | .move id generation step apply => store.moveInAs outside id generation step now apply
  | .resolve choice snapshotProblem byRole byId =>
    store.resolveReplan outside choice snapshotProblem byRole byId now
  | .holdApply id generation reason again replan =>
    store.holdApply outside id generation reason again replan now
  | .replanAgain id generation reason => do
    let op ← store.readOperation id
    store.replanAgain outside { op with generation := generation } reason now
  | .claim task run => store.claimRun outside task run now
  | .reopen id generation why => store.reopenBlocked outside id generation why now
  | .openPlanner request answer eligible =>
    store.openRequestPlanner outside request answer eligible now
  | .closePlanner id => store.closePlanner id now
  | .waitForAnswer id => .ok (store.waitForAnswer id)
  | .decline request reason by_ authorized continueRun =>
    store.declineRequest request reason by_ authorized continueRun now
  | .link request proposal planner => store.linkRequest request proposal planner now
  | .nameProposal id proposal => store.nameProposal id proposal now

/-- The store after a write; a refused one leaves it as it was. -/
def act (outside : Outside) (now : Int) (store : ReplanStore) (write : ReplanWrite) :
    ReplanStore :=
  match store.write outside now write with
  | .ok after => after
  | .error _ => store

end ReplanStore

/-- One write, with anything read outside. -/
def ReplanStep (before after : ReplanStore) : Prop :=
  ∃ outside now write, after = before.act outside now write

/-- The stores that some order of writes leads to. -/
abbrev Reached : ReplanStore → Prop := Reachable ReplanStore.empty ReplanStep

/-- An edit, or a renewal. -/
def Change (before after : ReplanStore) : Prop := before.Edit after ∨ before.Renewal after

namespace ReplanStore

/-! ### A run is made of edits and renewals -/

theorem write_ok {outside : Outside} {now : Int} {store after : ReplanStore} {write : ReplanWrite}
    (written : store.write outside now write = .ok after) : Written store after := by
  cases write with
  | record => exact .edited (recordReplan_ok written)
  | move =>
    obtain ⟨_, _, _, _, outcome⟩ := moveInAs_ok written
    exact outcome.written
  | resolve => exact resolveReplan_ok written
  | holdApply => exact holdApply_ok written
  | replanAgain =>
    obtain ⟨op, read, again⟩ := bind_ok written
    exact replanAgain_ok again ⟨op, (readOperation_ok read).2 ▸ read, rfl⟩
  | claim => exact .edited (claimRun_ok written)
  | reopen => exact .edited (reopenBlocked_ok written)
  | openPlanner => exact openRequestPlanner_ok written
  | closePlanner => exact .edited (closePlanner_ok written)
  | waitForAnswer id =>
    cases written
    exact .edited (waitForAnswer_ok store id)
  | decline => exact .edited (declineRequest_ok written)
  | link => exact .edited (linkRequest_ok written)
  | nameProposal => exact .edited (nameProposal_ok written)

theorem written_of_step {before after : ReplanStore}
    (step : ReplanStep before after) : Written before after := by
  obtain ⟨outside, now, write, rfl⟩ := step
  unfold act
  split
  · rename_i written
    exact write_ok written
  · exact .refl before

theorem notes_edits (store : ReplanStore) :
    ∀ records : List ReplanRecord, (∀ record ∈ records, record.renews = none) →
      Relation.ReflTransGen Edit store { store with records := store.records ++ records } := by
  intro records
  induction records using List.reverseRecOn with
  | nil =>
    intro _
    rw [List.append_nil]
  | append_singleton records record inductionHypothesis =>
    intro plain
    have before := inductionHypothesis fun other member =>
      plain other (List.mem_append_left _ member)
    have edit := Edit.note { store with records := store.records ++ records } record
      (plain record (List.mem_append_right _ List.mem_cons_self))
    have whole := before.tail edit
    unfold note at whole
    rw [List.append_assoc] at whole
    exact whole

theorem Written.changes {before after : ReplanStore} (written : Written before after) :
    Relation.ReflTransGen Change before after := by
  have lift : ∀ {first second : ReplanStore}, Relation.ReflTransGen Edit first second →
      Relation.ReflTransGen Change first second := fun edits =>
    Relation.ReflTransGen.mono (fun _ _ edit => Or.inl edit) _ _ edits
  cases written with
  | edited edits => exact lift edits
  | renewed edits renewal records plain =>
    exact ((lift edits).tail (Or.inr renewal)).trans (lift (notes_edits _ records plain))

end ReplanStore

end Dagq.Replan
