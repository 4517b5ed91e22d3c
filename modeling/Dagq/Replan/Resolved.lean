/-
This file says when the replacements of tasks are resolved, in terms of what the
tasks reach, and proves that the walk reports nothing exactly then. A root is held to
name a task only where no root before it came to it: the walk is told of a root by
where it starts, not by the list. Where every root is replaced, as the tasks given to
it are, this makes no difference, and nothing depends on an order.
-/

import Dagq.Replan.Unresolved

namespace Dagq.Replan

open Dagq.Lib Dagq.Queue Relation

section Resolved

variable {TaskId : Type} [LinearOrder TaskId] {replacements : Table TaskId (List TaskId)}
  {statuses : Table TaskId TaskStatus}

/-- A replaced task names a task in its place, and each task named is there. -/
def RecordSound (replacements : Table TaskId (List TaskId)) (statuses : Table TaskId TaskStatus)
    (task : TaskId) : Prop :=
  (statuses.get? task = some .replaced → nextOf replacements task ≠ []) ∧
    ∀ child, leads replacements task child → statuses.get? child ≠ none

/-- The tasks that these reach through replacements, themselves included. -/
def ReachedFrom (replacements : Table TaskId (List TaskId)) (roots : List TaskId)
    (task : TaskId) : Prop :=
  ∃ root ∈ roots, ReflTransGen (leads replacements) root task

/-- Nothing is broken about the replacements that the roots reach. -/
structure Resolved (replacements : Table TaskId (List TaskId))
    (statuses : Table TaskId TaskStatus) (roots : List TaskId) : Prop where
  records : ∀ task, ReachedFrom replacements roots task → RecordSound replacements statuses task
  named : ∀ earlier task later, roots = earlier ++ task :: later →
    ¬ ReachedFrom replacements earlier task → nextOf replacements task ≠ []
  acyclic : ∀ task, ReachedFrom replacements roots task → ¬ TransGen (leads replacements) task task

/-! ### Without a report, all visited is settled -/

/-- A task is settled, and those it names are visited. -/
def Vouched (replacements : Table TaskId (List TaskId)) (statuses : Table TaskId TaskStatus)
    (visited : List TaskId) (task : TaskId) : Prop :=
  Settled (leads replacements) (RecordSound replacements statuses) task ∧
    nextOf replacements task ⊆ visited

/-- Each task visited is vouched for, or the walk is still following it. -/
def Clean (replacements : Table TaskId (List TaskId)) (statuses : Table TaskId TaskStatus)
    (path : List TaskId) (walked : Walked TaskId) : Prop :=
  ∀ task ∈ walked.visited, task ∈ path ∨ Vouched replacements statuses walked.visited task

theorem Vouched.mono {visited more : List TaskId} {task : TaskId}
    (vouched : Vouched replacements statuses visited task) (subset : visited ⊆ more) :
    Vouched replacements statuses more task :=
  ⟨vouched.1, fun _ member => subset (vouched.2 member)⟩

theorem clean_enter {path : List TaskId} {walked : Walked TaskId}
    (clean : Clean replacements statuses path walked) (task : TaskId) (isEmpty : Bool) :
    Clean replacements statuses (path ++ [task]) (walked.enter task isEmpty) := by
  intro other member
  rw [Walked.enter_visited] at member ⊢
  rcases List.mem_cons.mp member with isTask | before
  · exact Or.inl (List.mem_append_right _ (List.mem_singleton.mpr isTask))
  · rcases clean other before with onPath | vouched
    · exact Or.inl (List.mem_append_left _ onPath)
    · exact Or.inr (vouched.mono (List.subset_cons_self _ _))

/-- Once the loop over the replacements reports nothing, each of them is there, off the path and
visited. -/
theorem loop_covers {path : List TaskId} {task : TaskId}
    {again : TaskId → Walked TaskId → Option (Walked TaskId)}
    (walks : ∀ child before after, again child before = some after →
      Grows before after ∧ child ∈ after.visited)
    {children : List TaskId} {before after : Walked TaskId}
    (runs : children.foldlM (follow statuses path task again) before = some after)
    (clean : after.found = []) :
    ∀ child ∈ children, faultOf statuses path child = none ∧ child ∈ after.visited := by
  induction children generalizing before with
  | nil => exact fun child member => absurd member List.not_mem_nil
  | cons child rest inductionHypothesis =>
    obtain ⟨next, follows, later⟩ := foldlM_cons_eq_some_iff.mp runs
    have grows := foldlM_rel Grows Grows.refl Grows.trans
      (fun _ _ _ _ step => grows_follow (fun _ _ _ goesOn => (walks _ _ _ goesOn).1) step) later
    intro other member
    rcases List.mem_cons.mp member with isChild | inRest
    · subst isChild
      rcases follow_cases follows with ⟨fault, _, isNext⟩ | ⟨sound, isVisited, isNext⟩ |
        ⟨sound, _, goesOn⟩
      · have reported := grows.2 clean
        rw [isNext] at reported
        cases reported
      · exact ⟨sound, grows.1 (isNext ▸ isVisited)⟩
      · exact ⟨sound, grows.1 (walks _ _ _ goesOn).2⟩
    · exact inductionHypothesis later other inRest

/-- A walk that reports nothing vouches for all it visits, and a root names a task. -/
theorem clean_walk {fuel : Nat} {task : TaskId} {root : Bool} {path : List TaskId}
    {walked after : Walked TaskId}
    (walks : walk replacements statuses fuel task root path walked = some after)
    (nothing : after.found = []) (clean : Clean replacements statuses path walked) :
    Clean replacements statuses path after ∧ (root = true → nextOf replacements task ≠ []) := by
  induction fuel generalizing task root path walked after with
  | zero => cases walks
  | succ fuel inductionHypothesis =>
    rw [walk_succ] at walks
    have again : ∀ child (before later : Walked TaskId),
        walk replacements statuses fuel child false (path ++ [task]) before = some later →
          Grows before later ∧ child ∈ later.visited := fun _ _ _ goesOn => grows_walk goesOn
    -- what one replacement keeps: a report there would still be found at the end
    have loop := foldlM_rel
      (fun before later : Walked TaskId => Grows before later ∧ (later.found = [] →
        Clean replacements statuses (path ++ [task]) before →
          Clean replacements statuses (path ++ [task]) later))
      (fun state => ⟨Grows.refl state, fun _ kept => kept⟩)
      (fun first second => ⟨first.1.trans second.1,
        fun ends kept => second.2 ends (first.2 (second.1.2 ends) kept)⟩)
      (fun child _ before later follows => by
        refine ⟨grows_follow (fun _ _ _ goesOn => (again _ _ _ goesOn).1) follows,
          fun ends kept => ?_⟩
        rcases follow_cases follows with ⟨fault, _, isLater⟩ | ⟨_, _, isLater⟩ | ⟨_, _, goesOn⟩
        · rw [isLater] at ends
          cases ends
        · exact isLater ▸ kept
        · exact (inductionHypothesis goesOn ends kept).1) walks
    have cleanAfter := loop.2 nothing (clean_enter clean task _)
    have covered := loop_covers again walks nothing
    have named : root = true ∨ statuses.get? task = some .replaced →
        nextOf replacements task ≠ [] := by
      intro has isEmpty
      have entered := loop.1.2 nothing
      rw [Walked.enter_found, isEmpty] at entered
      rcases has with isRoot | isReplaced
      · simp [isRoot] at entered
      · simp [isReplaced] at entered
    have vouched : Vouched replacements statuses after.visited task := by
      refine ⟨.intro task ⟨fun isReplaced => named (Or.inr isReplaced), fun child edge =>
        (faultOf_eq_none_iff.mp (covered child edge).1).1⟩ fun child edge => ?_, fun child edge =>
        (covered child edge).2⟩
      obtain ⟨sound, isVisited⟩ := covered child edge
      rcases cleanAfter child isVisited with onPath | childVouched
      · exact absurd onPath (faultOf_eq_none_iff.mp sound).2
      · exact childVouched.1
    refine ⟨fun other isVisited => ?_, fun isRoot => named (Or.inl isRoot)⟩
    rcases cleanAfter other isVisited with onPath | otherVouched
    · rcases List.mem_append.mp onPath with before | isTask
      · exact Or.inl before
      · exact Or.inr (List.mem_singleton.mp isTask ▸ vouched)
    · exact Or.inr otherVouched

/-! ### A report names a fault that is there -/

/-- All visited by a walk is reached from where it starts. -/
theorem reached_walk {fuel : Nat} {task : TaskId} {root : Bool} {path : List TaskId}
    {walked after : Walked TaskId}
    (walks : walk replacements statuses fuel task root path walked = some after) :
    ∀ other ∈ after.visited,
      other ∈ walked.visited ∨ ReflTransGen (leads replacements) task other := by
  induction fuel generalizing task root path walked after with
  | zero => cases walks
  | succ fuel inductionHypothesis =>
    rw [walk_succ] at walks
    have loop := foldlM_rel
      (fun before later : Walked TaskId => ∀ other ∈ later.visited,
        other ∈ before.visited ∨ ReflTransGen (leads replacements) task other)
      (fun _ _ member => Or.inl member)
      (fun first second other member => by
        rcases second other member with before | path
        · exact first other before
        · exact Or.inr path)
      (fun child edge before later follows other member => by
        rcases follow_cases follows with ⟨fault, _, isLater⟩ | ⟨_, _, isLater⟩ | ⟨_, _, goesOn⟩
        · exact Or.inl (by rwa [isLater] at member)
        · exact Or.inl (by rwa [isLater] at member)
        · rcases inductionHypothesis goesOn other member with inBefore | path
          · exact Or.inl inBefore
          · exact Or.inr (path.head edge)) walks
    intro other member
    rcases loop other member with entered | path
    · rw [Walked.enter_visited] at entered
      rcases List.mem_cons.mp entered with isTask | before
      · exact Or.inr (isTask ▸ .refl)
      · exact Or.inl before
    · exact Or.inr path

/-- The record of a task is broken. -/
def Broken (replacements : Table TaskId (List TaskId)) (statuses : Table TaskId TaskStatus)
    (task : TaskId) : Prop :=
  ¬ RecordSound replacements statuses task ∨ TransGen (leads replacements) task task

/-- What a walk reports beyond what was found is broken, or its root names no task. -/
theorem broken_walk {fuel : Nat} {task : TaskId} {root : Bool} {path : List TaskId}
    {walked after : Walked TaskId}
    (walks : walk replacements statuses fuel task root path walked = some after)
    (follows : ∀ other ∈ path, ReflTransGen (leads replacements) other task)
    (reports : after.found ≠ []) :
    walked.found ≠ [] ∨
      (∃ other, ReflTransGen (leads replacements) task other ∧
        Broken replacements statuses other) ∨
      (root = true ∧ nextOf replacements task = []) := by
  induction fuel generalizing task root path walked after with
  | zero => cases walks
  | succ fuel inductionHypothesis =>
    rw [walk_succ] at walks
    have onPath : ∀ other ∈ path ++ [task], ReflTransGen (leads replacements) other task := by
      intro other member
      rcases List.mem_append.mp member with before | isTask
      · exact follows other before
      · exact List.mem_singleton.mp isTask ▸ .refl
    have loop := foldlM_rel
      (fun before later : Walked TaskId => later.found ≠ [] → before.found ≠ [] ∨
        ∃ other, ReflTransGen (leads replacements) task other ∧
          Broken replacements statuses other)
      (fun _ found => Or.inl found)
      (fun first second found => by
        rcases second found with before | broken
        · exact first before
        · exact Or.inr broken)
      (fun child edge before later step found => by
        rcases follow_cases step with ⟨fault, isFault, _⟩ | ⟨_, _, isLater⟩ | ⟨_, _, goesOn⟩
        · refine Or.inr ⟨task, .refl, ?_⟩
          by_cases absent : statuses.get? child = none
          · exact Or.inl fun sound => sound.2 child edge absent
          · have closes : child ∈ path ++ [task] := by
              by_contra off
              rw [faultOf_eq_none_iff.mpr ⟨absent, off⟩] at isFault
              cases isFault
            exact Or.inr (TransGen.head' edge (onPath child closes))
        · exact Or.inl (isLater ▸ found)
        · have further : ∀ other ∈ path ++ [task], ReflTransGen (leads replacements) other child :=
            fun other member => (onPath other member).tail edge
          rcases inductionHypothesis goesOn further found with before | ⟨other, path, broken⟩ |
            ⟨isRoot, _⟩
          · exact Or.inl before
          · exact Or.inr ⟨other, path.head edge, broken⟩
          · cases isRoot) walks
    rcases loop reports with entered | broken
    · rw [Walked.enter_found] at entered
      by_cases isEmpty : nextOf replacements task = []
      · by_cases isRoot : root = true
        · exact Or.inr (Or.inr ⟨isRoot, isEmpty⟩)
        · by_cases isReplaced : statuses.get? task = some .replaced
          · exact Or.inr (Or.inl ⟨task, .refl, Or.inl fun sound => sound.1 isReplaced isEmpty⟩)
          · exact Or.inl (by simpa [isRoot, isReplaced] using entered)
      · exact Or.inl (by simpa [isEmpty] using entered)
    · exact Or.inr (Or.inl broken)

/-! ### The roots -/

/-- What holds once these roots are gone through. -/
structure RootsWalked (replacements : Table TaskId (List TaskId))
    (statuses : Table TaskId TaskStatus) (roots : List TaskId) (walked : Walked TaskId) : Prop where
  reached : ∀ task ∈ walked.visited, ReachedFrom replacements roots task
  visited : roots ⊆ walked.visited
  clean : walked.found = [] → Clean replacements statuses [] walked
  named : walked.found = [] → ∀ earlier task later, roots = earlier ++ task :: later →
    ¬ ReachedFrom replacements earlier task → nextOf replacements task ≠ []
  broken : walked.found ≠ [] → ¬ Resolved replacements statuses roots

/-- Without a report, all that the roots reach is visited. -/
theorem RootsWalked.visits {roots : List TaskId} {walked : Walked TaskId}
    (sofar : RootsWalked replacements statuses roots walked) (nothing : walked.found = [])
    {task : TaskId} (isReached : ReachedFrom replacements roots task) : task ∈ walked.visited := by
  obtain ⟨root, isRoot, path⟩ := isReached
  induction path with
  | refl => exact sofar.visited isRoot
  | tail _ edge inductionHypothesis =>
    rcases sofar.clean nothing _ inductionHypothesis with onPath | vouched
    · exact absurd onPath List.not_mem_nil
    · exact vouched.2 edge

/-- Nothing is reported exactly where what the roots reach is resolved. -/
theorem RootsWalked.resolved_iff {roots : List TaskId} {walked : Walked TaskId}
    (sofar : RootsWalked replacements statuses roots walked) :
    walked.found = [] ↔ Resolved replacements statuses roots := by
  refine ⟨fun nothing => ?_, fun resolved => by_contra fun found => sofar.broken found resolved⟩
  have settled : ∀ task, ReachedFrom replacements roots task →
      Settled (leads replacements) (RecordSound replacements statuses) task := by
    intro task isReached
    rcases sofar.clean nothing task (sofar.visits nothing isReached) with onPath | vouched
    · exact absurd onPath List.not_mem_nil
    · exact vouched.1
  exact ⟨fun task isReached => (settled task isReached).isGood, sofar.named nothing,
    fun task isReached => (settled task isReached).not_cycle⟩

theorem reachedFrom_append_singleton {roots : List TaskId} {root task : TaskId} :
    ReachedFrom replacements (roots ++ [root]) task ↔
      ReachedFrom replacements roots task ∨ ReflTransGen (leads replacements) root task := by
  simp only [ReachedFrom, List.mem_append, List.mem_singleton, or_and_right, exists_or,
    exists_eq_left]

/-- The cuts of a list with one item more. -/
theorem cut_append_singleton {Item : Type} {items earlier later : List Item} {item last : Item}
    (cut : items ++ [last] = earlier ++ item :: later) :
    (earlier = items ∧ item = last) ∨ ∃ rest, items = earlier ++ item :: rest := by
  rcases List.eq_nil_or_concat later with isNil | ⟨rest, other, isConcat⟩
  · subst isNil
    obtain ⟨same, isLast⟩ := List.append_inj' cut rfl
    exact Or.inl ⟨same.symm, (List.cons.inj isLast).1.symm⟩
  · subst isConcat
    have both : items ++ [last] = (earlier ++ item :: rest) ++ [other] := by simpa using cut
    exact Or.inr ⟨rest, (List.append_inj' both rfl).1⟩

/-- What is resolved of more roots is resolved of the first of them. -/
theorem Resolved.of_append_singleton {roots : List TaskId} {root : TaskId}
    (resolved : Resolved replacements statuses (roots ++ [root])) :
    Resolved replacements statuses roots := by
  refine ⟨fun task isReached => resolved.records task ?_, fun earlier task later cut fresh =>
    resolved.named earlier task (later ++ [root]) ?_ fresh, fun task isReached =>
    resolved.acyclic task ?_⟩
  · exact reachedFrom_append_singleton.mpr (Or.inl isReached)
  · rw [cut, List.append_assoc, List.cons_append]
  · exact reachedFrom_append_singleton.mpr (Or.inl isReached)

theorem rootsWalked_nil : RootsWalked replacements statuses [] (⟨[], []⟩ : Walked TaskId) where
  reached := fun _ member => absurd member List.not_mem_nil
  visited := List.nil_subset _
  clean := fun _ _ member => absurd member List.not_mem_nil
  named := fun _ earlier task later cut => by simp at cut
  broken := fun found => absurd rfl found

/-- A root that a root before it came to adds nothing. -/
theorem RootsWalked.skip {roots : List TaskId} {walked : Walked TaskId}
    (sofar : RootsWalked replacements statuses roots walked) {root : TaskId}
    (isVisited : root ∈ walked.visited) :
    RootsWalked replacements statuses (roots ++ [root]) walked where
  reached := fun task member =>
    reachedFrom_append_singleton.mpr (Or.inl (sofar.reached task member))
  visited := List.append_subset.mpr ⟨sofar.visited, by simpa using isVisited⟩
  clean := sofar.clean
  named := by
    intro nothing earlier task later cut fresh
    rcases cut_append_singleton cut with ⟨same, isRoot⟩ | ⟨rest, before⟩
    · exact absurd (sofar.reached root isVisited) (isRoot ▸ same ▸ fresh)
    · exact sofar.named nothing earlier task rest before fresh
  broken := fun found resolved => sofar.broken found resolved.of_append_singleton

/-- A root that no root before it came to is walked. -/
theorem RootsWalked.walk {roots : List TaskId} {walked after : Walked TaskId}
    (sofar : RootsWalked replacements statuses roots walked) {fuel : Nat} {root : TaskId}
    (fresh : root ∉ walked.visited)
    (walks : walk replacements statuses fuel root true [] walked = some after) :
    RootsWalked replacements statuses (roots ++ [root]) after where
  reached := by
    intro task member
    rcases reached_walk walks task member with before | path
    · exact reachedFrom_append_singleton.mpr (Or.inl (sofar.reached task before))
    · exact reachedFrom_append_singleton.mpr (Or.inr path)
  visited := by
    obtain ⟨grows, isVisited⟩ := grows_walk walks
    exact List.append_subset.mpr ⟨fun _ member => grows.1 (sofar.visited member),
      by simpa using isVisited⟩
  clean := fun nothing =>
    (clean_walk walks nothing (sofar.clean ((grows_walk walks).1.2 nothing))).1
  named := by
    intro nothing earlier task later cut notReached
    have before := (grows_walk walks).1.2 nothing
    rcases cut_append_singleton cut with ⟨_, isRoot⟩ | ⟨rest, cutBefore⟩
    · exact isRoot ▸ (clean_walk walks nothing (sofar.clean before)).2 rfl
    · exact sofar.named before earlier task rest cutBefore notReached
  broken := by
    intro found resolved
    by_cases before : walked.found = []
    · have notReached : ¬ ReachedFrom replacements roots root := fun isReached =>
        fresh (sofar.visits before isReached)
      rcases broken_walk walks (fun _ member => absurd member List.not_mem_nil) found with
        already | ⟨other, path, broken⟩ | ⟨_, isEmpty⟩
      · exact already before
      · have isReached : ReachedFrom replacements (roots ++ [root]) other :=
          reachedFrom_append_singleton.mpr (Or.inr path)
        rcases broken with unsound | cycle
        · exact unsound (resolved.records other isReached)
        · exact resolved.acyclic other isReached cycle
      · exact resolved.named roots root [] rfl notReached isEmpty
    · exact sofar.broken before resolved.of_append_singleton

/-- The walk over the roots ends, with fuel for each task with replacements, and where it ends does
not depend on how much more fuel there is. -/
theorem rootsWalked_of_enough (replacements : Table TaskId (List TaskId))
    (statuses : Table TaskId TaskStatus) (roots : List TaskId) :
    ∃ walked, (∀ more, roots.foldlM
        (walkRoot (replacements.keys.length + 1 + more) replacements statuses) ⟨[], []⟩ =
          some walked) ∧
      RootsWalked replacements statuses roots walked := by
  induction roots using List.reverseRecOn with
  | nil => exact ⟨⟨[], []⟩, fun _ => rfl, rootsWalked_nil⟩
  | append_singleton roots root inductionHypothesis =>
    obtain ⟨walked, runs, sofar⟩ := inductionHypothesis
    have extends_ : ∀ {after : Walked TaskId},
        (∀ more, walkRoot (replacements.keys.length + 1 + more) replacements statuses walked root =
          some after) → ∀ more, (roots ++ [root]).foldlM
            (walkRoot (replacements.keys.length + 1 + more) replacements statuses) ⟨[], []⟩ =
              some after := by
      intro after steps more
      rw [List.foldlM_append, runs more]
      exact foldlM_cons_eq_some_iff.mpr ⟨after, steps more, rfl⟩
    by_cases isVisited : root ∈ walked.visited
    · exact ⟨walked, extends_ fun more => if_pos isVisited, sofar.skip isVisited⟩
    · have enough : unseen replacements walked.visited < replacements.keys.length + 1 :=
        Nat.lt_succ_of_le List.countP_le_length
      obtain ⟨after, walks⟩ := @walk_total _ _ replacements statuses _ root true [] _ isVisited enough
      have further : ∀ more, Replan.walk replacements statuses
          (replacements.keys.length + 1 + more) root true [] walked = some after := by
        intro more
        induction more with
        | zero => exact walks
        | succ more inductionHypothesis => exact walk_mono inductionHypothesis
      exact ⟨after, extends_ fun more => (if_neg isVisited).trans (further more),
        sofar.walk isVisited walks⟩

/-! ### What does not depend on an order -/

/-- Where every root is replaced, only what is reached counts. -/
theorem resolved_iff_of_replaced {roots : List TaskId}
    (replaced : ∀ root ∈ roots, statuses.get? root = some .replaced) :
    Resolved replacements statuses roots ↔
      ∀ task, ReachedFrom replacements roots task →
        ((statuses.get? task = some .replaced ∨ task ∈ roots) → nextOf replacements task ≠ []) ∧
        (∀ child, leads replacements task child → statuses.get? child ≠ none) ∧
        ¬ TransGen (leads replacements) task task := by
  constructor
  · intro resolved task isReached
    refine ⟨?_, (resolved.records task isReached).2, resolved.acyclic task isReached⟩
    rintro (isReplaced | isRoot)
    · exact (resolved.records task isReached).1 isReplaced
    · exact (resolved.records task isReached).1 (replaced task isRoot)
  · intro each
    refine ⟨fun task isReached => ⟨fun isReplaced => (each task isReached).1 (Or.inl isReplaced),
      (each task isReached).2.1⟩, fun earlier task later cut _ => ?_,
      fun task isReached => (each task isReached).2.2⟩
    have isRoot : task ∈ roots := cut ▸ List.mem_append_right _ List.mem_cons_self
    exact (each task ⟨task, isRoot, .refl⟩).1 (Or.inr isRoot)

/-- Tables that name the same tasks for each task, in whatever order, are resolved alike. -/
theorem resolved_iff_of_perm {other : Table TaskId (List TaskId)} {roots : List TaskId}
    (same : ∀ task, (nextOf replacements task).Perm (nextOf other task)) :
    Resolved other statuses roots ↔ Resolved replacements statuses roots := by
  have sameEdges : leads other = leads replacements := by
    funext first second
    exact propext (same first).mem_iff.symm
  have sameEmpty : ∀ task, nextOf other task ≠ [] ↔ nextOf replacements task ≠ [] := by
    intro task
    rw [Ne, Ne, ← List.length_eq_zero_iff, ← List.length_eq_zero_iff, (same task).length_eq]
  have sameReached : ReachedFrom other = ReachedFrom replacements := by
    funext given task
    simp only [ReachedFrom, sameEdges]
  have sameSound : RecordSound other statuses = RecordSound replacements statuses := by
    funext task
    simp only [RecordSound, sameEdges, sameEmpty]
  constructor
  · rintro ⟨records, named, acyclic⟩
    exact ⟨sameReached ▸ sameSound ▸ records, fun earlier task later cut fresh =>
      (sameEmpty task).mp (named earlier task later cut (sameReached ▸ fresh)),
      sameReached ▸ sameEdges ▸ acyclic⟩
  · rintro ⟨records, named, acyclic⟩
    exact ⟨sameReached ▸ sameSound ▸ records, fun earlier task later cut fresh =>
      (sameEmpty task).mpr (named earlier task later cut (sameReached ▸ fresh)),
      sameReached ▸ sameEdges ▸ acyclic⟩

/-- Where every root is replaced, their order does not count. -/
theorem resolved_iff_of_perm_roots {roots others : List TaskId} (same : roots.Perm others)
    (replaced : ∀ root ∈ roots, statuses.get? root = some .replaced) :
    Resolved replacements statuses others ↔ Resolved replacements statuses roots := by
  have otherReplaced : ∀ root ∈ others, statuses.get? root = some .replaced :=
    fun root isRoot => replaced root (same.mem_iff.mpr isRoot)
  rw [resolved_iff_of_replaced replaced, resolved_iff_of_replaced otherReplaced]
  simp only [ReachedFrom, same.mem_iff]

/-- The walk over the roots ends and reports nothing exactly where each task reached that is
replaced, or is a root no root before it reaches, names a task, each task named is there, and no
loop is reached. The order of the replacements of a task does not count; where every root is
replaced, all of them name a task and their order does not count either. -/
theorem unresolvedReplacements_correct (replacements : Table TaskId (List TaskId))
    (statuses : Table TaskId TaskStatus) (roots : List TaskId) :
    ∃ found, (∀ more, unresolvedReplacements (replacements.keys.length + 1 + more) roots
        replacements statuses = some found) ∧
      (found = [] ↔ Resolved replacements statuses roots) ∧
      ((∀ root ∈ roots, statuses.get? root = some .replaced) →
        (found = [] ↔ ∀ task, ReachedFrom replacements roots task →
          ((statuses.get? task = some .replaced ∨ task ∈ roots) → nextOf replacements task ≠ []) ∧
          (∀ child, leads replacements task child → statuses.get? child ≠ none) ∧
          ¬ TransGen (leads replacements) task task)) ∧
      ∀ otherReplacements otherRoots,
        (∀ task, (nextOf replacements task).Perm (nextOf otherReplacements task)) →
        (roots = otherRoots ∨
          roots.Perm otherRoots ∧ ∀ root ∈ roots, statuses.get? root = some .replaced) →
        ∃ others, (∀ more, unresolvedReplacements (otherReplacements.keys.length + 1 + more)
            otherRoots otherReplacements statuses = some others) ∧
          (found = [] ↔ others = []) := by
  -- whatever the roots and the replacements, a run says whether they are resolved
  have decides : ∀ (replacements : Table TaskId (List TaskId)) (roots : List TaskId),
      ∃ found, (∀ more, unresolvedReplacements (replacements.keys.length + 1 + more) roots
        replacements statuses = some found) ∧
        (found = [] ↔ Resolved replacements statuses roots) := by
    intro replacements roots
    obtain ⟨walked, runs, sofar⟩ := rootsWalked_of_enough replacements statuses roots
    refine ⟨_, fun more => by rw [unresolvedReplacements, runs more]; rfl, ?_⟩
    rw [← sofar.resolved_iff, ← List.length_eq_zero_iff, List.length_insertionSort,
      List.length_eq_zero_iff, List.dedup_eq_nil]
  obtain ⟨found, runs, isResolved⟩ := decides replacements roots
  refine ⟨found, runs, isResolved,
    fun replaced => isResolved.trans (resolved_iff_of_replaced replaced), ?_⟩
  intro otherReplacements otherRoots sameNext sameRoots
  obtain ⟨others, otherRuns, otherResolved⟩ := decides otherReplacements otherRoots
  refine ⟨others, otherRuns, ?_⟩
  rw [isResolved, otherResolved, resolved_iff_of_perm sameNext]
  rcases sameRoots with same | ⟨same, replaced⟩
  · rw [same]
  · exact (resolved_iff_of_perm_roots same replaced).symm

/-- A loop ends the walk and is reported where it closes. -/
example : unresolvedReplacements 4 [1] ⟨[(1, [2]), (2, [3]), (3, [2])], by decide⟩
    ⟨[(1, .replaced), (2, .replaced), (3, .replaced)], by decide⟩ = some [⟨3, .cycle 2⟩] := by
  decide

/-! ### A root first reached as a child -/

/-- Task 1 is replaced by task 2, which is ready and has no replacement. -/
def firstByReady : Table Nat (List Nat) where
  entries := [(1, [2])]
  distinct := by decide

def readySecond : Table Nat TaskStatus where
  entries := [(1, .replaced), (2, .ready)]
  distinct := by decide

/-- A root that names no task is reported where it comes first, and not after one that leads to
it. -/
theorem root_reached_as_child :
    unresolvedReplacements 2 [1, 2] firstByReady readySecond = some [] ∧
      unresolvedReplacements 2 [2, 1] firstByReady readySecond = some [⟨2, .empty⟩] ∧
      nextOf firstByReady 2 = [] := by
  decide

end Resolved

end Dagq.Replan
