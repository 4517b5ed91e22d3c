/-
This file follows the applied replacements of replaced tasks and reports the records
that are broken: one that names no task, one that names a task that is not there, and
a loop. The walk goes depth first, with the tasks visited shared by all the roots and
the path it is still following, so a task reached twice is walked once. Without a
report, every task visited that the walk no longer follows is settled: the walk missed
nothing. A report names a fault that is there.
-/

import Dagq.Lib.Loop
import Dagq.Lib.Search
import Dagq.Queue.TaskStatus
import Mathlib.Data.List.Sort

namespace Dagq.Replan

open Dagq.Lib Dagq.Queue Relation

/-- Why the applied replacements of a replaced task do not say what replaced it. -/
inductive ReplacementFault (TaskId : Type) where
  /-- No applied replacement names a task in its place. -/
  | empty
  /-- An applied replacement names a task which is not there. -/
  | missing (to_ : TaskId)
  /-- Following the replacements comes back to a task which the same walk is still following. -/
  | cycle (to_ : TaskId)
deriving DecidableEq

/-- A replaced task whose record is broken. -/
structure UnresolvedReplacement (TaskId : Type) where
  task : TaskId
  fault : ReplacementFault TaskId
deriving DecidableEq

/-- What the walk keeps over all its roots. -/
structure Walked (TaskId : Type) where
  visited : List TaskId
  found : List (UnresolvedReplacement TaskId)

/-! ### What the walk keeps -/

section Walked

variable {TaskId : Type}

def Walked.report (walked : Walked TaskId) (unresolved : UnresolvedReplacement TaskId) :
    Walked TaskId :=
  { walked with found := unresolved :: walked.found }

/-- The task is visited, and reported where its record names no task and has to. -/
def Walked.enter (walked : Walked TaskId) (task : TaskId) (isEmpty : Bool) : Walked TaskId :=
  let entered := { walked with visited := task :: walked.visited }
  if isEmpty then entered.report ⟨task, .empty⟩ else entered

@[simp] theorem Walked.enter_visited (walked : Walked TaskId) (task : TaskId) (isEmpty : Bool) :
    (walked.enter task isEmpty).visited = task :: walked.visited := by
  cases isEmpty <;> rfl

theorem Walked.enter_found (walked : Walked TaskId) (task : TaskId) (isEmpty : Bool) :
    (walked.enter task isEmpty).found =
      if isEmpty then ⟨task, .empty⟩ :: walked.found else walked.found := by
  cases isEmpty <;> rfl

/-- What was visited stays so, and so does that something was found. -/
def Grows (before after : Walked TaskId) : Prop :=
  before.visited ⊆ after.visited ∧ (after.found = [] → before.found = [])

theorem Grows.refl (walked : Walked TaskId) : Grows walked walked :=
  ⟨fun _ member => member, fun clean => clean⟩

theorem Grows.trans {first second third : Walked TaskId} (before : Grows first second)
    (after : Grows second third) : Grows first third :=
  ⟨fun _ member => after.1 (before.1 member), fun clean => before.2 (after.2 clean)⟩

theorem grows_report (walked : Walked TaskId) (unresolved : UnresolvedReplacement TaskId) :
    Grows walked (walked.report unresolved) :=
  ⟨fun _ member => member, nofun⟩

theorem grows_enter (walked : Walked TaskId) (task : TaskId) (isEmpty : Bool) :
    Grows walked (walked.enter task isEmpty) := by
  refine ⟨fun _ member => ?_, fun clean => ?_⟩
  · rw [Walked.enter_visited]
    exact List.mem_cons_of_mem _ member
  · rw [Walked.enter_found] at clean
    cases isEmpty with
    | false => exact clean
    | true => cases clean

end Walked

section Walk

variable {TaskId : Type} [LinearOrder TaskId]

/-! ### The order of the reports -/

def ReplacementFault.notAfter : ReplacementFault TaskId → ReplacementFault TaskId → Bool
  | .empty, _ => true
  | .missing _, .empty => false
  | .missing first, .missing second => first ≤ second
  | .missing _, .cycle _ => true
  | .cycle first, .cycle second => first ≤ second
  | .cycle _, _ => false

/-- By task, then by fault. -/
def UnresolvedReplacement.notAfter (first second : UnresolvedReplacement TaskId) : Bool :=
  first.task < second.task || (first.task = second.task && first.fault.notAfter second.fault)

/-! ### The walk -/

/-- What is broken about a replacement, on this path. -/
def faultOf (statuses : Table TaskId TaskStatus) (path : List TaskId) (child : TaskId) :
    Option (ReplacementFault TaskId) :=
  if statuses.get? child = none then some (.missing child)
  else if child ∈ path then some (.cycle child)
  else none

/-- One replacement of a task: reported, or walked where it is not visited yet. -/
def follow (statuses : Table TaskId TaskStatus) (path : List TaskId) (task : TaskId)
    (walk : TaskId → Walked TaskId → Option (Walked TaskId)) (walked : Walked TaskId)
    (child : TaskId) : Option (Walked TaskId) :=
  match faultOf statuses path child with
  | some fault => some (walked.report ⟨task, fault⟩)
  | none => if child ∈ walked.visited then some walked else walk child walked

/-- The walk from a task, with `fuel` for how deep it goes. -/
def walk (replacements : Table TaskId (List TaskId)) (statuses : Table TaskId TaskStatus) :
    Nat → TaskId → Bool → List TaskId → Walked TaskId → Option (Walked TaskId)
  | 0, _, _, _, _ => none
  | fuel + 1, task, root, path, walked =>
    let children := nextOf replacements task
    let isEmpty := children.isEmpty && (root || statuses.get? task = some .replaced)
    children.foldlM
      (follow statuses (path ++ [task]) task fun child walked =>
        walk replacements statuses fuel child false (path ++ [task]) walked)
      (walked.enter task isEmpty)

/-- A root that no root before it came to is walked with a path of its own. -/
def walkRoot (fuel : Nat) (replacements : Table TaskId (List TaskId))
    (statuses : Table TaskId TaskStatus) (walked : Walked TaskId) (task : TaskId) :
    Option (Walked TaskId) :=
  if task ∈ walked.visited then some walked
  else walk replacements statuses fuel task true [] walked

/-- The replaced tasks reached from `roots` whose record is broken, in task order. -/
def unresolvedReplacements (fuel : Nat) (roots : List TaskId)
    (replacements : Table TaskId (List TaskId)) (statuses : Table TaskId TaskStatus) :
    Option (List (UnresolvedReplacement TaskId)) :=
  (roots.foldlM (walkRoot fuel replacements statuses) ⟨[], []⟩).map fun walked =>
    walked.found.dedup.insertionSort fun first second => first.notAfter second

variable {replacements : Table TaskId (List TaskId)} {statuses : Table TaskId TaskStatus}

theorem walk_succ (fuel : Nat) (task : TaskId) (root : Bool) (path : List TaskId)
    (walked : Walked TaskId) :
    walk replacements statuses (fuel + 1) task root path walked =
      (nextOf replacements task).foldlM
        (follow statuses (path ++ [task]) task fun child walked =>
          walk replacements statuses fuel child false (path ++ [task]) walked)
        (walked.enter task ((nextOf replacements task).isEmpty &&
          (root || statuses.get? task = some .replaced))) := rfl

theorem faultOf_eq_none_iff {path : List TaskId} {child : TaskId} :
    faultOf statuses path child = none ↔ statuses.get? child ≠ none ∧ child ∉ path := by
  rw [faultOf]
  by_cases absent : statuses.get? child = none
  · simp [absent]
  · by_cases onPath : child ∈ path <;> simp [absent, onPath]

/-- What following one replacement does: it reports, leaves all as it is, or walks on. -/
theorem follow_cases {path : List TaskId} {task child : TaskId}
    {again : TaskId → Walked TaskId → Option (Walked TaskId)} {walked after : Walked TaskId}
    (follows : follow statuses path task again walked child = some after) :
    (∃ fault, faultOf statuses path child = some fault ∧ after = walked.report ⟨task, fault⟩) ∨
      (faultOf statuses path child = none ∧ child ∈ walked.visited ∧ after = walked) ∨
      (faultOf statuses path child = none ∧ child ∉ walked.visited ∧
        again child walked = some after) := by
  rw [follow] at follows
  cases found : faultOf statuses path child with
  | some fault =>
    rw [found] at follows
    exact Or.inl ⟨fault, rfl, (Option.some.inj follows).symm⟩
  | none =>
    rw [found] at follows
    by_cases isVisited : child ∈ walked.visited
    · simp only [if_pos isVisited] at follows
      exact Or.inr (Or.inl ⟨rfl, isVisited, (Option.some.inj follows).symm⟩)
    · simp only [if_neg isVisited] at follows
      exact Or.inr (Or.inr ⟨rfl, isVisited, follows⟩)

/-! ### What is visited and found only grows -/

theorem grows_follow {path : List TaskId} {task : TaskId}
    {again : TaskId → Walked TaskId → Option (Walked TaskId)}
    (walks : ∀ child before after, again child before = some after → Grows before after)
    {walked after : Walked TaskId} {child : TaskId}
    (follows : follow statuses path task again walked child = some after) : Grows walked after := by
  rcases follow_cases follows with ⟨fault, _, isAfter⟩ | ⟨_, _, isAfter⟩ | ⟨_, _, goesOn⟩
  · exact isAfter ▸ grows_report walked _
  · exact isAfter ▸ Grows.refl walked
  · exact walks child walked after goesOn

theorem grows_walk {fuel : Nat} {task : TaskId} {root : Bool} {path : List TaskId}
    {walked after : Walked TaskId}
    (walks : walk replacements statuses fuel task root path walked = some after) :
    Grows walked after ∧ task ∈ after.visited := by
  induction fuel generalizing task root path walked after with
  | zero => cases walks
  | succ fuel inductionHypothesis =>
    rw [walk_succ] at walks
    have loop := foldlM_rel Grows Grows.refl Grows.trans
      (fun child _ before later follows =>
        grows_follow (fun _ _ _ goesOn => (inductionHypothesis goesOn).1) follows) walks
    refine ⟨(grows_enter walked task _).trans loop, loop.1 ?_⟩
    rw [Walked.enter_visited]
    exact List.mem_cons_self

/-! ### The walk ends -/

/-- Deeper fuel runs the walk to the same end. -/
theorem walk_mono {fuel : Nat} {task : TaskId} {root : Bool} {path : List TaskId}
    {walked after : Walked TaskId}
    (walks : walk replacements statuses fuel task root path walked = some after) :
    walk replacements statuses (fuel + 1) task root path walked = some after := by
  induction fuel generalizing task root path walked after with
  | zero => cases walks
  | succ fuel inductionHypothesis =>
    rw [walk_succ] at walks ⊢
    refine foldlM_mono (fun before child later follows => ?_) walks
    rw [follow] at follows ⊢
    cases found : faultOf statuses (path ++ [task]) child with
    | some fault =>
      rw [found] at follows
      exact follows
    | none =>
      rw [found] at follows
      by_cases isVisited : child ∈ before.visited
      · simp only [if_pos isVisited] at follows ⊢
        exact follows
      · simp only [if_neg isVisited] at follows ⊢
        exact inductionHypothesis follows

/-- A walk ends with fuel for each task with replacements that is not visited yet. -/
theorem walk_total {fuel : Nat} {task : TaskId} {root : Bool} {path : List TaskId}
    {walked : Walked TaskId} (fresh : task ∉ walked.visited)
    (enough : unseen replacements walked.visited < fuel) :
    ∃ after, walk replacements statuses fuel task root path walked = some after := by
  induction fuel generalizing task root path walked with
  | zero => exact absurd enough (Nat.not_lt_zero _)
  | succ fuel inductionHypothesis =>
    rw [walk_succ]
    by_cases held : task ∈ replacements.keys
    · have fewer := unseen_cons_lt held fresh
      have each : ∀ child ∈ nextOf replacements task, ∀ before : Walked TaskId,
          task :: walked.visited ⊆ before.visited → ∃ after,
            follow statuses (path ++ [task]) task (fun child walked =>
              walk replacements statuses fuel child false (path ++ [task]) walked) before child =
                some after ∧ task :: walked.visited ⊆ after.visited := by
        intro child _ before kept
        have less : unseen replacements before.visited < fuel := by
          have le := unseen_mono replacements kept
          omega
        rw [follow]
        cases found : faultOf statuses (path ++ [task]) child with
        | some fault => exact ⟨_, rfl, kept⟩
        | none =>
          by_cases isVisited : child ∈ before.visited
          · exact ⟨before, if_pos isVisited, kept⟩
          · obtain ⟨after, walks⟩ := @inductionHypothesis child false (path ++ [task]) before
              isVisited less
            exact ⟨after, (if_neg isVisited).trans walks,
              fun _ member => (grows_walk walks).1.1 (kept member)⟩
      have entered : task :: walked.visited ⊆ (walked.enter task
          ((nextOf replacements task).isEmpty &&
            (root || statuses.get? task = some .replaced))).visited := by
        rw [Walked.enter_visited]
        exact List.Subset.refl _
      obtain ⟨after, runs, _⟩ := foldlM_total each entered
      exact ⟨after, runs⟩
    · rw [nextOf_of_not_mem_keys held]
      exact ⟨_, rfl⟩

end Walk

end Dagq.Replan
