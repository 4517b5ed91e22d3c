/-
This file proves that what goes on in the queue never waits for itself: the wait graph of the
goals and of the tasks that were not canceled has no cycle after any run. So while a task has not
ended, one waits for none of the others, and following what tasks were replaced by always ends.
-/

import Dagq.Queue.Ended

namespace Dagq.Queue

open Dagq.Lib Dagq.Ledger Dagq.Priorities Relation
open Dagq.Replan (WaitNode joined)

/-! ### Edges added -/

/-- Where each edge was there or was added, and what was canceled still is, what is live was live or
was added. -/
theorem live_cases {before after : QueueView} (added : Node → Node → Prop)
    (depends : ∀ task predecessor, after.depends task predecessor →
      before.depends task predecessor ∨ added (.task task) (.task predecessor))
    (goals : ∀ task goal, after.dependsOnGoal task goal →
      before.dependsOnGoal task goal ∨ added (.task task) (.goal goal))
    (members : ∀ task goal status, after.status task = some status → status ≠ .canceled →
      after.goalOf task = some goal →
        (∃ old, before.status task = some old ∧ old ≠ .canceled ∧ before.goalOf task = some goal) ∨
          added (.goal goal) (.task task))
    (replaced : ∀ task child, after.replacedBy task child →
      before.replacedBy task child ∨ added (.task task) (.task child))
    (canceled : ∀ task, before.status task = some .canceled → after.status task = some .canceled)
    {first second : Node} (live : after.Live first second) :
    before.Live first second ∨ added first second := by
  obtain ⟨edge, goesOn⟩ := live
  have wentOn : ¬ before.Canceled first := by
    intro wasCanceled
    cases first with
    | task task => exact goesOn (canceled task wasCanceled)
    | goal goal => exact wasCanceled
  cases edge with
  | predecessor edge => exact (depends _ _ edge).imp (fun old => ⟨.predecessor old, wentOn⟩) id
  | goal edge => exact (goals _ _ edge).imp (fun old => ⟨.goal old, wentOn⟩) id
  | member isStatus isMember kept =>
    refine (members _ _ _ isStatus kept isMember).imp ?_ id
    rintro ⟨old, wasStatus, wasKept, wasMember⟩
    exact ⟨.member wasStatus wasMember wasKept, wentOn⟩
  | replacement edge => exact (replaced _ _ edge).imp (fun old => ⟨.replacement old, wentOn⟩) id

/-- Nothing leads on from a task that is not there. -/
theorem Rooted.no_edge {view : QueueView} (rooted : Rooted view) {task : Nat}
    (absent : view.status task = none) (next : Node) : ¬ view.Waits (.task task) next := by
  intro edge
  cases edge with
  | predecessor edge => exact (rooted.task _ _ edge).1 absent
  | goal edge => exact (rooted.goal _ _ edge).1 absent
  | replacement edge =>
    have isReplaced := (rooted.replaced _ _ edge).1
    rw [absent] at isReplaced
    cases isReplaced

theorem waits_of_live {view : QueueView} {first second : Node}
    (path : ReflTransGen view.Live first second) : ReflTransGen view.Waits first second :=
  ReflTransGen.mono (fun _ _ live => live.1) _ _ path

/-! ### No cycle -/

/-- The edges an apply adds close no cycle, since no source of theirs comes to wait for itself. -/
theorem live_acyclic_replaced {before : QueueView} {task : Nat} {children : List Nat}
    {successors : List (Nat × List Nat)} (rooted : Rooted before) (started : Started before)
    (acyclic : Acyclic before.Live) (replaceable : Replaceable before task children successors) :
    Acyclic (before.replace task children successors).Live := by
  let edges := successors ++ [(task, children)]
  let kept : Node → Node → Prop := fun first second =>
    before.Live first second ∧ (before.withoutDependents task).Waits first second
  have keptAcyclic : Acyclic kept := acyclic.mono fun _ _ both => both.1
  have joinedAcyclic : Acyclic fun first second => kept first second ∨ joined edges first second := by
    refine (acyclic_added_iff keptAcyclic).mpr ?_
    rintro source target ⟨edge, member, rfl, _⟩ cycle
    refine replaceable.unclosed edge member (TransGen.mono ?_ _ _ cycle)
    exact fun _ _ either => either.imp (fun both => both.2) id
  refine joinedAcyclic.mono ?_
  rintro first second ⟨edge, goesOn⟩
  -- a child or the task in place of its own status: neither was canceled
  have wentOn : ¬ before.Canceled first := by
    intro wasCanceled
    cases first with
    | task id =>
      have isStarted := replaceable.isStarted
      have pending := replaceable.pending id
      refine goesOn ?_
      simp only [QueueView.Canceled, QueueView.replace_status] at wasCanceled ⊢
      grind
    | goal goal => exact wasCanceled
  cases edge with
  | @predecessor id predecessor edge =>
    rcases edge with ⟨edge, unmoved⟩ | ⟨successor, isListed, rfl, isNeed⟩
    · refine Or.inl ⟨⟨.predecessor edge, wentOn⟩, .predecessor ⟨edge, ?_⟩⟩
      rintro rfl
      -- one that waits for the task and was not moved has ended, so the task would be completed
      obtain ⟨status, held⟩ := Option.ne_none_iff_exists'.mp (rooted.task _ _ edge).1
      have ended : status.isTerminal = true := by
        by_contra goesOn
        have unended : before.Unended id := ⟨status, held, Bool.not_eq_true _ ▸ goesOn⟩
        exact unmoved ⟨(replaceable.isSuccessor id).mpr ⟨edge, unended⟩, rfl⟩
      have notCanceled : status ≠ .canceled := fun isCanceled => wentOn (by rwa [isCanceled] at held)
      have completed := started id _ status held (started_of_ended ended notCanceled) edge
      rw [replaceable.isStarted] at completed
      cases completed
    · exact Or.inr ⟨successor, List.mem_append_left _ isListed, rfl, predecessor, isNeed, rfl⟩
  | goal edge => exact Or.inl ⟨⟨.goal edge, wentOn⟩, .goal edge⟩
  | @member id goal status isStatus isMember notCanceled =>
    obtain ⟨old, wasStatus, kept⟩ : ∃ old, before.status id = some old ∧ old ≠ .canceled := by
      have isStarted := replaceable.isStarted
      have pending := replaceable.pending id
      grind
    exact Or.inl ⟨⟨.member wasStatus isMember kept, wentOn⟩, .member wasStatus isMember kept⟩
  | @replacement id child edge =>
    rcases edge with edge | ⟨rfl, member⟩
    · exact Or.inl ⟨⟨.replacement edge, wentOn⟩, .replacement edge⟩
    · exact Or.inr ⟨_, List.mem_append_right _ (List.mem_singleton.mpr rfl), rfl, child, member, rfl⟩

theorem live_acyclic_step {before after : QueueView} {facts : List QueueFact}
    (rooted : Rooted before) (started : Started before) (acyclic : Acyclic before.Live)
    (next : ViewStep before facts after) : Acyclic after.Live := by
  have canceled : ∀ task, before.status task = some .canceled → after.status task = some .canceled :=
    fun _ wasCanceled => next.status_ended wasCanceled rfl
  -- most steps add no edge
  let none_ : Node → Node → Prop := fun _ _ => False
  let one : Node → Node → Node → Node → Prop := fun source target first second =>
    first = source ∧ second = target
  have same : (∀ first second, after.Live first second → before.Live first second ∨ none_ first second) →
      Acyclic after.Live := fun cases => acyclic.mono fun first second live =>
    (cases first second live).resolve_right id
  cases next with
  | @taskAdded task goal fresh =>
    cases goal with
    | none =>
      refine same fun _ _ => live_cases none_ ?_ ?_ ?_ ?_ canceled <;> grind
    | some goal =>
      have unclosed : ¬ ReflTransGen before.Live (.task task) (.goal goal) := by
        intro path
        have different : WaitNode.goal goal ≠ WaitNode.task task := by simp
        have steps := (reflTransGen_iff_eq_or_transGen.mp path).resolve_left different
        obtain ⟨next, edge, _⟩ := TransGen.head'_iff.mp steps
        exact rooted.no_edge fresh next edge.1
      refine (acyclic_add_edge acyclic unclosed).mono fun _ _ =>
        live_cases (one (.goal goal) (.task task)) ?_ ?_ ?_ ?_ canceled <;> grind
  | @dependencyAdded task predecessor _ editable isStatus kept unclosed =>
    refine (acyclic_add_edge acyclic fun path => unclosed (waits_of_live path)).mono fun _ _ =>
      live_cases (one (.task task) (.task predecessor)) ?_ ?_ ?_ ?_ canceled <;> grind
  | @goalDependencyAdded task goal _ editable held unclosed =>
    refine (acyclic_add_edge acyclic fun path => unclosed (waits_of_live path)).mono fun _ _ =>
      live_cases (one (.task task) (.goal goal)) ?_ ?_ ?_ ?_ canceled <;> grind
  | @taskMoved task goal editable accepts unclosed =>
    cases goal with
    | none => refine same fun _ _ => live_cases none_ ?_ ?_ ?_ ?_ canceled <;> grind
    | some goal =>
      refine (acyclic_add_edge acyclic fun path => unclosed goal rfl (waits_of_live path)).mono
        fun _ _ => live_cases (one (.goal goal) (.task task)) ?_ ?_ ?_ ?_ canceled <;> grind
  | statusChanged held moves =>
    have goesOn := (transition_moves moves).1
    refine same fun _ _ => live_cases none_ ?_ ?_ ?_ ?_ canceled <;>
      grind [TaskStatus.isTerminal]
  | claimed claimable =>
    have isReady := claimable.ready
    refine same fun _ _ => live_cases none_ ?_ ?_ ?_ ?_ canceled <;> grind
  | replaced replaceable => exact live_acyclic_replaced rooted started acyclic replaceable
  | _ => refine same fun _ _ => live_cases none_ ?_ ?_ ?_ ?_ canceled <;> grind

/-- What goes on never waits for itself. -/
theorem ViewRun.live_acyclic {facts : List QueueFact} {view : QueueView}
    (run : ViewRun facts view) : Acyclic view.Live := by
  refine run.invariant (fun view => Acyclic view.Live) ?_ fun _ _ _ _ before acyclic next =>
    live_acyclic_step before.rooted before.started acyclic next
  refine acyclic_of_rank (fun _ => 0) ?_
  rintro first second ⟨edge, _⟩
  cases edge <;> contradiction

end Dagq.Queue
