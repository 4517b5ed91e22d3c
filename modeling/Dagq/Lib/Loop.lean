/-
This file fixes what a `while` loop is: a step gives the next state, or nothing
where the loop ends, and fuel bounds the rounds. A loop whose rounds advance an index
within bounds ends by itself. A `for` loop whose step may give nothing is the fold of
its step over the list; what each step relates or keeps, the whole loop does.
-/

import Mathlib.Logic.Relation
import Mathlib.Tactic

namespace Dagq.Lib

variable {State : Type}

/-- The rounds of a loop, until its step gives nothing or the fuel is used up. -/
def loop (step : State → Option State) : Nat → State → State
  | 0, state => state
  | fuel + 1, state =>
    match step state with
    | none => state
    | some next => loop step fuel next

/-! ### A loop that ends -/

section Ends

variable {step : State → Option State} {fuel : Nat} {start : State}

/-- What every round keeps, the loop keeps. -/
theorem loop_keeps {keeps : State → Prop}
    (each : ∀ before after, keeps before → step before = some after → keeps after)
    (holds : keeps start) : keeps (loop step fuel start) := by
  induction fuel generalizing start with
  | zero => exact holds
  | succ fuel inductionHypothesis =>
    rw [loop]
    split
    · exact holds
    · rename_i next steps
      exact inductionHypothesis (each start next holds steps)

/-- A loop whose rounds come ever closer to its end ends by itself. -/
theorem loop_ends {keeps : State → Prop} (measure : State → Nat)
    (closer : ∀ before after, keeps before → step before = some after →
      keeps after ∧ measure after < measure before)
    (holds : keeps start) (enough : measure start ≤ fuel) :
    step (loop step fuel start) = none := by
  induction fuel generalizing start with
  | zero =>
    rw [loop]
    cases steps : step start with
    | none => rfl
    | some next =>
      obtain ⟨_, isCloser⟩ := closer start next holds steps
      omega
  | succ fuel inductionHypothesis =>
    rw [loop]
    split
    · rename_i ended
      exact ended
    · rename_i next steps
      obtain ⟨nextHolds, isCloser⟩ := closer start next holds steps
      exact inductionHypothesis nextHolds (by omega)

/-- A loop over an index: its rounds advance it, and not past `length`. -/
structure Advances (step : State → Option State) (index : State → Nat) (length : Nat) : Prop where
  round : ∀ before after, step before = some after →
    index before < index after ∧ index after ≤ length

variable {index : State → Nat} {length : Nat}

theorem Advances.ends (advances : Advances step index length) (start : State)
    (enough : length ≤ fuel) : step (loop step fuel start) = none := by
  refine @loop_ends State step fuel start (fun _ => True) (length - index ·)
    (fun before after _ steps => ⟨trivial, ?_⟩) trivial (by omega)
  obtain ⟨further, inside⟩ := advances.round before after steps
  omega

theorem Advances.le (advances : Advances step index length) (fuel : Nat) (start : State)
    (inside : index start ≤ length) :
    index start ≤ index (loop step fuel start) ∧ index (loop step fuel start) ≤ length := by
  refine @loop_keeps State step fuel start
    (fun state => index start ≤ index state ∧ index state ≤ length) ?_ ⟨le_rfl, inside⟩
  rintro before after ⟨further, _⟩ steps
  obtain ⟨more, within⟩ := advances.round before after steps
  exact ⟨further.trans more.le, within⟩

/-- A loop that goes a round comes past where it began. -/
theorem Advances.lt (advances : Advances step index length) (start : State)
    (goes : step start ≠ none) (isFuel : 0 < fuel) :
    index start < index (loop step fuel start) := by
  obtain ⟨more, rfl⟩ := Nat.exists_eq_succ_of_ne_zero isFuel.ne'
  obtain ⟨next, steps⟩ := Option.ne_none_iff_exists'.mp goes
  obtain ⟨further, within⟩ := advances.round start next steps
  rw [loop, steps]
  exact further.trans_le (advances.le more next within).1

end Ends

/-! ### A loop over a list -/

section Each

variable {Item : Type} {step : State → Item → Option State}

theorem foldlM_cons_eq_some_iff {item : Item} {rest : List Item} {before after : State} :
    (item :: rest).foldlM step before = some after ↔
      ∃ next, step before item = some next ∧ rest.foldlM step next = some after := by
  rw [List.foldlM_cons]
  exact Option.bind_eq_some_iff

/-- A relation that holds across each step, and from end to end of two stretches, holds across the
loop. -/
theorem foldlM_rel (relation : State → State → Prop) (refl : ∀ state, relation state state)
    (trans : ∀ {first second third}, relation first second → relation second third →
      relation first third) {items : List Item}
    (each : ∀ item ∈ items, ∀ before after, step before item = some after → relation before after)
    {before after : State} (runs : items.foldlM step before = some after) :
    relation before after := by
  induction items generalizing before with
  | nil =>
    exact Option.some.inj runs ▸ refl before
  | cons item rest inductionHypothesis =>
    obtain ⟨next, steps, later⟩ := foldlM_cons_eq_some_iff.mp runs
    exact trans (each item List.mem_cons_self before next steps)
      (inductionHypothesis (fun other member => each other (List.mem_cons_of_mem _ member)) later)

/-- A loop whose steps never stop from a state that they keep does not stop. -/
theorem foldlM_total {keeps : State → Prop} {items : List Item}
    (each : ∀ item ∈ items, ∀ before, keeps before →
      ∃ after, step before item = some after ∧ keeps after)
    {before : State} (holds : keeps before) :
    ∃ after, items.foldlM step before = some after ∧ keeps after := by
  induction items generalizing before with
  | nil => exact ⟨before, rfl, holds⟩
  | cons item rest inductionHypothesis =>
    obtain ⟨next, steps, nextHolds⟩ := each item List.mem_cons_self before holds
    obtain ⟨after, later, afterHolds⟩ := inductionHypothesis
      (fun other member => each other (List.mem_cons_of_mem _ member)) nextHolds
    exact ⟨after, foldlM_cons_eq_some_iff.mpr ⟨next, steps, later⟩, afterHolds⟩

/-- A step that gives all another gives runs the loop to the same end. -/
theorem foldlM_mono {more : State → Item → Option State}
    (each : ∀ before item after, step before item = some after → more before item = some after)
    {items : List Item} {before after : State} (runs : items.foldlM step before = some after) :
    items.foldlM more before = some after := by
  induction items generalizing before with
  | nil => exact runs
  | cons item rest inductionHypothesis =>
    obtain ⟨next, steps, later⟩ := foldlM_cons_eq_some_iff.mp runs
    exact foldlM_cons_eq_some_iff.mpr ⟨next, each before item next steps, inductionHypothesis later⟩

end Each

end Dagq.Lib
