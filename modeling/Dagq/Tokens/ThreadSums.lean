/-
This file proves when the tokens that the turns of a thread recorded are at most its running
total. The turns that fall back to the total record what is above all that was recorded before,
so only a turn counted from the rollouts can pass it: one that counts root turns of earlier
Executions whose tokens a fallback already recorded.
-/

import Mathlib.Algebra.Order.BigOperators.Group.List
import Dagq.Tokens.Prepared
import Dagq.Tokens.SessionSums

namespace Dagq.Tokens

open Lib Ledger

variable {Cost : Type}

/-! ### The runs of a thread -/

/-- A root turn of a thread, and what it used. -/
structure RootTurn where
  id : String
  used : Counts

/-- What root turns used together. -/
def usedBy (turns : List RootTurn) : Counts := fun kind => (turns.map (·.used kind)).sum

/-- One turn of a run that resumed the thread: the root turns that ran in it, whether its
`turn.completed` was read, and the rollouts or why they cannot be counted. -/
structure Execution (Cost : Type) where
  turn : Nat
  ran : List RootTurn
  completed : Bool
  rollout : Except String (RolloutUsage Cost)

/-- A step of a run: another event, or a turn of the thread. -/
inductive ThreadStep (Cost : Type) where
  | other (event : TurnEvent Cost)
  | execution (execution : Execution Cost)

/-- The events of a run, and the root turns of the thread. -/
structure Thread (Cost : Type) where
  events : List (TurnEvent Cost) := []
  turns : List RootTurn := []

/-- The running total that `turn.completed` says. -/
def Execution.total (execution : Execution Cost) (turns : List RootTurn) :
    Option (TokenUsage Cost) :=
  if execution.completed then some { counts := usedBy turns, messages := 1 } else none

section Run

variable [Costs Cost]

def Thread.step (thread : String) (state : Thread Cost) : ThreadStep Cost → Thread Cost
  | .other event => { state with events := state.events ++ [event] }
  | .execution execution =>
    let turns := state.turns ++ execution.ran
    let result := codexResult thread (execution.total turns) execution.rollout
    { events := state.events ++ [turnFinished state.events execution.turn result none none]
      turns := turns }

/-- A run of steps. -/
def Thread.run (thread : String) (steps : List (ThreadStep Cost)) : Thread Cost :=
  steps.foldl (Thread.step thread) {}

@[simp] theorem Thread.run_concat (thread : String) (steps : List (ThreadStep Cost))
    (step : ThreadStep Cost) :
    Thread.run thread (steps ++ [step]) = (Thread.run thread steps).step thread step := by
  simp [Thread.run]

end Run

/-- The tokens that turns recorded. -/
def tokensOf (turns : List (TurnFinished Cost)) : Counts :=
  fun kind => (turns.map fun turn => turn.tokens.elim 0 (·.counts kind)).sum

/-- The tokens that the turns of a thread recorded. -/
def recorded (events : List (TurnEvent Cost)) (thread : String) : Counts :=
  tokensOf (lastFirst events thread)

/-- The root turns of a rollout that no turn counted before. -/
def newlyListed (events : List (TurnEvent Cost)) (thread : String) (rollout : RolloutUsage Cost)
    (turns : List RootTurn) : List RootTurn :=
  turns.filter fun turn => turn.id ∈ rollout.turns ∧ turn.id ∉ countedRolloutTurns events thread

/-- The records that a turn counts. -/
def newRecords (events : List (TurnEvent Cost)) (thread : String) (rollout : RolloutUsage Cost) :
    List (UsageRecord Cost) :=
  oncePerResponse (rollout.turns.filter fun turn => turn ∉ countedRolloutTurns events thread) []
    rollout.records

/-- Rollouts say what each root turn listed used: its records, each response once. -/
structure Accounts (turns : List RootTurn) (rollout : RolloutUsage Cost) : Prop where
  listed : ∀ id ∈ rollout.turns, ∃ turn ∈ turns, turn.id = id
  once : rollout.turns.Nodup
  nonneg : ∀ record ∈ rollout.records, ∀ kind, 0 ≤ record.tokens.counts kind
  used : ∀ turn ∈ turns, turn.id ∈ rollout.turns → ∀ kind,
    ((oncePerResponse [turn.id] [] rollout.records).map (·.tokens.counts kind)).sum = turn.used kind

/-- What a step is: an event that is no turn of the thread, or a turn whose root turns used no less
than nothing, with a total of 64 bits. -/
def Sound (thread : String) (state : Thread Cost) : ThreadStep Cost → Prop
  | .other event => event.finishedIn thread = none
  | .execution execution =>
    (∀ turn ∈ execution.ran, ∀ kind, 0 ≤ turn.used kind) ∧
      (∀ kind, usedBy (state.turns ++ execution.ran) kind ≤ i64Max) ∧
      ∀ rollout, execution.rollout = .ok rollout → Accounts (state.turns ++ execution.ran) rollout

/-- A turn counts, of the root turns of earlier Executions, no more than what the thread used and no
turn recorded. -/
def CountsUnrecorded (thread : String) (state : Thread Cost) (step : ThreadStep Cost) : Prop :=
  ∀ execution rollout, step = .execution execution → execution.rollout = .ok rollout →
    ∀ kind, usedBy (newlyListed state.events thread rollout state.turns) kind ≤
      usedBy state.turns kind - recorded state.events thread kind

/-! ### The records of a rollout -/

theorem mem_oncePerResponse {turns : List String} {seen : List (String × String)}
    {records : List (UsageRecord Cost)} {record : UsageRecord Cost}
    (member : record ∈ oncePerResponse turns seen records) :
    record ∈ records ∧ record.rootTurnId ∈ turns := by
  induction records generalizing seen with
  | nil => cases member
  | cons first rest inductionHypothesis =>
    rw [oncePerResponse] at member
    have later : ∀ seen, record ∈ oncePerResponse turns seen rest →
        record ∈ first :: rest ∧ record.rootTurnId ∈ turns := fun seen member =>
      ⟨List.mem_cons_of_mem _ (inductionHypothesis member).1, (inductionHypothesis member).2⟩
    split at member
    · exact later _ member
    · next isListed =>
      rw [not_not] at isListed
      have taken : ∀ seen, record ∈ first :: oncePerResponse turns seen rest →
          record ∈ first :: rest ∧ record.rootTurnId ∈ turns := by
        intro seen member
        cases member with
        | head => exact ⟨List.mem_cons_self, isListed⟩
        | tail _ member => exact later _ member
      split at member
      · exact taken _ member
      · split at member
        · exact later _ member
        · exact taken _ member

/-- Of the records of several root turns, those of one are among its own. -/
theorem filter_oncePerResponse {turns : List String} {id : String} (isListed : id ∈ turns)
    {seen own : List (String × String)} (subset : own ⊆ seen) (records : List (UsageRecord Cost)) :
    ((oncePerResponse turns seen records).filter fun record => record.rootTurnId = id).Sublist
      (oncePerResponse [id] own records) := by
  induction records generalizing seen own with
  | nil => exact List.Sublist.refl _
  | cons record rest inductionHypothesis =>
    rw [oncePerResponse, oncePerResponse]
    by_cases isTurn : record.rootTurnId = id
    · rw [if_neg (by simpa [isTurn] using isListed), if_neg (by simp [isTurn])]
      cases record.responseId with
      | none =>
        dsimp only
        rw [List.filter_cons_of_pos (by simpa using isTurn)]
        exact (inductionHypothesis subset).cons_cons _
      | some response =>
        dsimp only
        by_cases isSeen : (record.threadId, response) ∈ seen
        · rw [if_pos isSeen]
          split
          · exact inductionHypothesis subset
          · refine (inductionHypothesis ?_).cons _
            exact List.cons_subset.mpr ⟨isSeen, subset⟩
        · rw [if_neg isSeen, if_neg fun isOwn => isSeen (subset isOwn),
            List.filter_cons_of_pos (by simpa using isTurn)]
          exact (inductionHypothesis (List.cons_subset_cons _ subset)).cons_cons _
    · have notOwn : record.rootTurnId ∉ [id] := by simpa using isTurn
      rw [if_pos notOwn]
      have skip : ∀ more, own ⊆ more →
          ((record :: oncePerResponse turns more rest).filter
            fun record => record.rootTurnId = id).Sublist (oncePerResponse [id] own rest) := by
        intro more subset
        rw [List.filter_cons_of_neg (by simpa using isTurn)]
        exact inductionHypothesis subset
      split
      · exact inductionHypothesis subset
      · split
        · exact skip _ subset
        · split
          · exact inductionHypothesis subset
          · exact skip _ (List.subset_cons_of_subset _ subset)

/-- Records that are each of one of some root turns sum to no more than those of each turn do
together. -/
theorem sum_le_sum_filter (turns : List RootTurn) {records : List (UsageRecord Cost)}
    (each : ∀ record ∈ records, ∃ turn ∈ turns, turn.id = record.rootTurnId)
    {amount : UsageRecord Cost → Int} (nonneg : ∀ record ∈ records, 0 ≤ amount record) :
    (records.map amount).sum ≤ (turns.map fun turn =>
      ((records.filter fun record => record.rootTurnId = turn.id).map amount).sum).sum := by
  induction records with
  | nil => simp
  | cons record rest inductionHypothesis =>
    have split : ∀ turn : RootTurn,
        (((record :: rest).filter fun record => record.rootTurnId = turn.id).map amount).sum =
          (if record.rootTurnId = turn.id then amount record else 0) +
            ((rest.filter fun record => record.rootTurnId = turn.id).map amount).sum := by
      intro turn
      rw [List.filter_cons]
      by_cases isTurn : record.rootTurnId = turn.id <;> simp [isTurn]
    rw [List.map_cons, List.sum_cons, List.map_congr_left fun turn _ => split turn,
      List.sum_map_add]
    refine add_le_add ?_ (inductionHypothesis
      (fun other member => each other (List.mem_cons_of_mem _ member))
      fun other member => nonneg other (List.mem_cons_of_mem _ member))
    obtain ⟨turn, isTurn, same⟩ := each record List.mem_cons_self
    refine List.single_le_sum (fun count isCount => ?_) _
      (List.mem_map.mpr ⟨turn, isTurn, if_pos same.symm⟩)
    obtain ⟨other, _, rfl⟩ := List.mem_map.mp isCount
    split
    · exact nonneg record List.mem_cons_self
    · exact le_rfl

theorem usedBy_append (first second : List RootTurn) (kind : TokenKind) :
    usedBy (first ++ second) kind = usedBy first kind + usedBy second kind := by
  simp [usedBy]

theorem usedBy_nonneg {turns : List RootTurn} (nonneg : ∀ turn ∈ turns, ∀ kind, 0 ≤ turn.used kind)
    (kind : TokenKind) : 0 ≤ usedBy turns kind := by
  refine List.sum_nonneg fun count isCount => ?_
  obtain ⟨turn, isTurn, rfl⟩ := List.mem_map.mp isCount
  exact nonneg turn isTurn kind

theorem usedBy_filter_le {turns : List RootTurn}
    (nonneg : ∀ turn ∈ turns, ∀ kind, 0 ≤ turn.used kind) (kept : RootTurn → Bool)
    (kind : TokenKind) : usedBy (turns.filter kept) kind ≤ usedBy turns kind := by
  refine (List.filter_sublist.map _).sum_le_sum fun count isCount => ?_
  obtain ⟨turn, isTurn, rfl⟩ := List.mem_map.mp isCount
  exact nonneg turn isTurn kind

/-- The records of a rollout's root turns that were not counted before sum to no more than what these
used. -/
theorem Accounts.sum_le {turns : List RootTurn} {rollout : RolloutUsage Cost}
    (accounts : Accounts turns rollout) (events : List (TurnEvent Cost)) (thread : String)
    (kind : TokenKind) :
    ((newRecords events thread rollout).map (·.tokens.counts kind)).sum ≤
      usedBy (newlyListed events thread rollout turns) kind := by
  have isRecord : ∀ record ∈ newRecords events thread rollout,
      record ∈ rollout.records ∧ record.rootTurnId ∈ rollout.turns ∧
        record.rootTurnId ∉ countedRolloutTurns events thread := by
    intro record member
    obtain ⟨isRecord, isListed⟩ := mem_oncePerResponse member
    exact ⟨isRecord, by simpa using isListed⟩
  refine (sum_le_sum_filter (newlyListed events thread rollout turns) ?_ ?_).trans ?_
  · intro record member
    obtain ⟨_, isListed, notCounted⟩ := isRecord record member
    obtain ⟨turn, isTurn, same⟩ := accounts.listed _ isListed
    refine ⟨turn, List.mem_filter.mpr ⟨isTurn, ?_⟩, same⟩
    rw [same]
    exact decide_eq_true ⟨isListed, notCounted⟩
  · exact fun record member => accounts.nonneg record (isRecord record member).1 kind
  · refine List.sum_le_sum fun turn isTurn => ?_
    obtain ⟨isTurn, isNew⟩ := List.mem_filter.mp isTurn
    obtain ⟨isListed, notCounted⟩ := of_decide_eq_true isNew
    rw [← accounts.used turn isTurn isListed kind]
    refine ((filter_oncePerResponse ?_ (List.Subset.refl []) rollout.records).map _).sum_le_sum ?_
    · exact List.mem_filter.mpr ⟨isListed, decide_eq_true notCounted⟩
    · intro count isCount
      obtain ⟨record, member, rfl⟩ := List.mem_map.mp isCount
      exact accounts.nonneg record (mem_oncePerResponse member).1 kind

/-! ### What was recorded before -/

/-- The last total recorded, or nothing. -/
def lastTotal (turns : List (TurnFinished Cost)) : Counts :=
  fun kind => (turns.findSome? (·.tokensTotal)).elim 0 (·.counts kind)

/-- The tokens of the turns after the last total, of turns the last one first. -/
def afterTotal : List (TurnFinished Cost) → Counts
  | [], _ => 0
  | turn :: earlier, kind =>
    if turn.tokensTotal.isSome then 0
    else turn.tokens.elim 0 (·.counts kind) + afterTotal earlier kind

theorem wrapped_add_right (first second : Int) :
    wrapped (first + wrapped second) = wrapped (first + second) := Int.add_bmod_bmod

theorem wrapped_sub_right (first second : Int) :
    wrapped (first - wrapped second) = wrapped (first - second) := Int.sub_bmod_bmod

/-- The search for the last total finds it, and sums the tokens of the turns after it. -/
theorem recordedAfter_spec (turns : List (TurnFinished Cost)) (after : TokenUsage Cost)
    (sums : Counts) (isAfter : ∀ kind, after.counts kind = wrapped (sums kind)) :
    (recordedAfter after turns).1 = turns.findSome? (·.tokensTotal) ∧
      (∀ kind, (recordedAfter after turns).2.counts kind =
        wrapped (sums kind + afterTotal turns kind)) ∧
      after.messages ≤ (recordedAfter after turns).2.messages ∧
      ((recordedAfter after turns).2.messages = after.messages →
        ∀ kind, afterTotal turns kind = 0) := by
  induction turns generalizing after sums with
  | nil => simpa [recordedAfter, afterTotal] using isAfter
  | cons turn earlier inductionHypothesis =>
    rw [recordedAfter, List.findSome?_cons]
    cases total : turn.tokensTotal with
    | some recorded => simpa [afterTotal, total] using isAfter
    | none =>
      cases isOwn : turn.tokens with
      | none => simpa [afterTotal, total, isOwn] using inductionHypothesis after sums isAfter
      | some own =>
        have isMore : ∀ kind, wrapped (after.counts kind + own.counts kind) =
            wrapped (sums kind + own.counts kind) := by
          intro kind
          rw [isAfter, wrapped_add_left]
        obtain ⟨finds, sums, more, _⟩ := inductionHypothesis
          { counts := fun kind => wrapped (after.counts kind + own.counts kind)
            messages := after.messages + 1 }
          (fun kind => sums kind + own.counts kind) isMore
        dsimp only at more ⊢
        refine ⟨finds, fun kind => ?_, by omega, fun same => by omega⟩
        rw [sums, afterTotal]
        simp [total, isOwn, add_assoc]

/-- A turn that falls back records what the total is above the last one and what was recorded after
it. -/
theorem threadTotalOwn_counts {events : List (TurnEvent Cost)} {thread : String}
    {total : TokenUsage Cost} {kind : TokenKind}
    (low : i64Min ≤ total.counts kind - (lastTotal (lastFirst events thread) kind +
      afterTotal (lastFirst events thread) kind))
    (high : total.counts kind - (lastTotal (lastFirst events thread) kind +
      afterTotal (lastFirst events thread) kind) ≤ i64Max)
    (nonneg : 0 ≤ total.counts kind) :
    (threadTotalOwn events thread total).counts kind =
      max 0 (total.counts kind - (lastTotal (lastFirst events thread) kind +
        afterTotal (lastFirst events thread) kind)) := by
  obtain ⟨finds, sums, _, noneAfter⟩ := recordedAfter_spec (lastFirst events thread)
    ({} : TokenUsage Cost) 0 fun _ => rfl
  rw [threadTotalOwn]
  dsimp only
  split
  · next nothing =>
    obtain ⟨noTotal, noMessages⟩ := nothing
    rw [finds, Option.isNone_iff_eq_none] at noTotal
    rw [noneAfter noMessages kind, lastTotal, noTotal, Option.elim_none]
    dsimp only
    omega
  · have isLast : ((recordedAfter {} (lastFirst events thread)).1.getD {}).counts kind =
        lastTotal (lastFirst events thread) kind := by
      rw [finds, lastTotal]
      cases (lastFirst events thread).findSome? (·.tokensTotal) <;> rfl
    show max 0 (wrapped (total.counts kind - wrapped _)) = _
    rw [isLast, sums, wrapped_add_right, wrapped_sub_right, Pi.zero_apply, zero_add,
      wrapped_of_fits low high]

/-! ### Every state of a run -/

/-- What is kept of a thread: the tokens recorded are at most what it used, and at most the last
total and the tokens recorded after it. -/
structure Bounded (thread : String) (state : Thread Cost) : Prop where
  turns : ∀ turn ∈ state.turns, ∀ kind, 0 ≤ turn.used kind
  fits : ∀ kind, usedBy state.turns kind ≤ i64Max
  last : ∀ kind, 0 ≤ lastTotal (lastFirst state.events thread) kind ∧
    lastTotal (lastFirst state.events thread) kind ≤ usedBy state.turns kind
  after : ∀ kind, 0 ≤ afterTotal (lastFirst state.events thread) kind ∧
    afterTotal (lastFirst state.events thread) kind ≤ recorded state.events thread kind
  covered : ∀ kind, recorded state.events thread kind ≤
    lastTotal (lastFirst state.events thread) kind +
      afterTotal (lastFirst state.events thread) kind
  within : ∀ kind, recorded state.events thread kind ≤ usedBy state.turns kind

theorem lastFirst_concat (events : List (TurnEvent Cost)) (event : TurnEvent Cost)
    (thread : String) :
    lastFirst (events ++ [event]) thread =
      (event.finishedIn thread).toList ++ lastFirst events thread := by
  rw [lastFirst, List.reverse_append, List.reverse_singleton, List.singleton_append,
    List.filterMap_cons]
  cases event.finishedIn thread <;> rfl

namespace Bounded

variable {thread : String} {state : Thread Cost}

theorem other (kept : Bounded thread state) {event : TurnEvent Cost}
    (isOther : event.finishedIn thread = none) :
    Bounded thread { state with events := state.events ++ [event] } := by
  have same : lastFirst (state.events ++ [event]) thread = lastFirst state.events thread := by
    rw [lastFirst_concat, isOther]
    rfl
  constructor <;> simp only [recorded, same]
  exacts [kept.turns, kept.fits, kept.last, kept.after, kept.covered, kept.within]

/-- A turn keeps it where its tokens are within what the thread used and recorded none of. -/
theorem finished (kept : Bounded thread state) {ran : List RootTurn} {event : TurnEvent Cost}
    {turn : TurnFinished Cost} (isTurn : event.finishedIn thread = some turn)
    (nonneg : ∀ turn ∈ ran, ∀ kind, 0 ≤ turn.used kind)
    (fits : ∀ kind, usedBy (state.turns ++ ran) kind ≤ i64Max)
    (total : ∀ total ∈ turn.tokensTotal, total.counts = usedBy (state.turns ++ ran))
    (own : ∀ kind, 0 ≤ turn.tokens.elim 0 (·.counts kind))
    (within : ∀ kind, recorded state.events thread kind + turn.tokens.elim 0 (·.counts kind) ≤
      usedBy (state.turns ++ ran) kind) :
    Bounded thread { events := state.events ++ [event], turns := state.turns ++ ran } := by
  have turns : ∀ turn ∈ state.turns ++ ran, ∀ kind, 0 ≤ turn.used kind := by
    intro turn member
    exact (List.mem_append.mp member).elim (kept.turns turn) (nonneg turn)
  have more : ∀ kind, usedBy state.turns kind ≤ usedBy (state.turns ++ ran) kind := by
    intro kind
    rw [usedBy_append]
    exact le_add_of_nonneg_right (usedBy_nonneg nonneg kind)
  have isFirst : lastFirst (state.events ++ [event]) thread = turn :: lastFirst state.events thread := by
    rw [lastFirst_concat, isTurn]
    rfl
  have sums : ∀ kind, recorded (state.events ++ [event]) thread kind =
      recorded state.events thread kind + turn.tokens.elim 0 (·.counts kind) := by
    intro kind
    rw [recorded, isFirst, recorded, tokensOf, tokensOf, List.map_cons, List.sum_cons, add_comm]
  cases isTotal : turn.tokensTotal with
  | some recorded =>
    have isLast : ∀ kind, lastTotal (turn :: lastFirst state.events thread) kind =
        usedBy (state.turns ++ ran) kind := by
      intro kind
      rw [lastTotal, List.findSome?_cons, isTotal, Option.elim_some, total recorded isTotal]
    have noneAfter : ∀ kind, afterTotal (turn :: lastFirst state.events thread) kind = 0 := by
      intro kind
      rw [afterTotal, isTotal, Option.isSome_some, if_pos rfl]
    refine ⟨turns, fits, fun kind => ?_, fun kind => ?_, fun kind => ?_, fun kind => ?_⟩ <;>
      simp only [isFirst, isLast, noneAfter, sums]
    · exact ⟨usedBy_nonneg turns kind, le_rfl⟩
    · have bounds := kept.after kind
      have ownBound := own kind
      omega
    · have bound := within kind
      omega
    · exact within kind
  | none =>
    have isLast : ∀ kind, lastTotal (turn :: lastFirst state.events thread) kind =
        lastTotal (lastFirst state.events thread) kind := by
      intro kind
      rw [lastTotal, List.findSome?_cons, isTotal, lastTotal]
    have isAfter : ∀ kind, afterTotal (turn :: lastFirst state.events thread) kind =
        turn.tokens.elim 0 (·.counts kind) + afterTotal (lastFirst state.events thread) kind := by
      intro kind
      rw [afterTotal, isTotal, if_neg (by simp)]
    refine ⟨turns, fits, fun kind => ?_, fun kind => ?_, fun kind => ?_, fun kind => ?_⟩ <;>
      simp only [isFirst, isLast, isAfter, sums]
    · exact ⟨(kept.last kind).1, (kept.last kind).2.trans (more kind)⟩
    · have bounds := kept.after kind
      have ownBound := own kind
      omega
    · have bound := kept.covered kind
      omega
    · exact within kind

section Run

variable [Costs Cost]

/-- What a turn counted from the rollouts records. -/
theorem finishedIn_ok (events : List (TurnEvent Cost)) (turn : Nat)
    (total : Option (TokenUsage Cost)) (rollout : RolloutUsage Cost) :
    (turnFinished events turn (codexResult thread total (.ok rollout)) none none).finishedIn thread =
      some
        { turn := turn
          sessionId := some thread
          tokens := (rollout.tokens (countedRolloutTurns events thread)).tokens
          tokensTotal := total
          tokensTurns := (rollout.tokens (countedRolloutTurns events thread)).turns } :=
  if_pos rfl

/-- What a turn whose rollouts cannot be counted records. -/
theorem finishedIn_error (events : List (TurnEvent Cost)) (turn : Nat)
    (total : Option (TokenUsage Cost)) (why : String) :
    (turnFinished events turn (codexResult thread total (.error why)) none none).finishedIn thread =
      some
        { turn := turn
          sessionId := some thread
          tokens := total.map (threadTotalOwn events thread)
          tokensTotal := total } := by
  cases total <;> exact if_pos rfl

/-- A turn of the thread keeps it, where it counts only what was not recorded. -/
theorem execution (bounded : Bounded thread state) {execution : Execution Cost}
    (sound : Sound thread state (.execution execution))
    (unrecorded : CountsUnrecorded thread state (.execution execution)) :
    Bounded thread (state.step thread (.execution execution)) := by
  obtain ⟨nonneg, fits, accounts⟩ := sound
  have more : ∀ kind, usedBy state.turns kind ≤ usedBy (state.turns ++ execution.ran) kind := by
    intro kind
    rw [usedBy_append]
    exact le_add_of_nonneg_right (usedBy_nonneg nonneg kind)
  have isTotal : ∀ total ∈ execution.total (state.turns ++ execution.ran),
      total.counts = usedBy (state.turns ++ execution.ran) := by
    intro total isTotal
    rw [Execution.total] at isTotal
    split at isTotal
    · rw [← Option.some.inj isTotal]
    · cases isTotal
  rw [Thread.step]
  cases isRollout : execution.rollout with
  | ok rollout =>
    have accounts := accounts rollout isRollout
    have counted : ∀ kind, ((newRecords state.events thread rollout).map
        (·.tokens.counts kind)).sum ≤
          usedBy (newlyListed state.events thread rollout state.turns) kind +
            usedBy execution.ran kind := by
      intro kind
      refine (accounts.sum_le state.events thread kind).trans ?_
      rw [newlyListed, List.filter_append, usedBy_append]
      exact add_le_add le_rfl (usedBy_filter_le nonneg _ kind)
    have within : ∀ kind, recorded state.events thread kind +
        ((newRecords state.events thread rollout).map (·.tokens.counts kind)).sum ≤
          usedBy (state.turns ++ execution.ran) kind := by
      intro kind
      have isCounted := counted kind
      have isUnrecorded := unrecorded execution rollout rfl isRollout kind
      rw [usedBy_append]
      omega
    have notNegative : ∀ kind,
        0 ≤ ((newRecords state.events thread rollout).map (·.tokens.counts kind)).sum := by
      intro kind
      refine List.sum_nonneg fun count isCount => ?_
      obtain ⟨record, member, rfl⟩ := List.mem_map.mp isCount
      exact accounts.nonneg record (mem_oncePerResponse member).1 kind
    have own : ∀ kind,
        sumCounts ((newRecords state.events thread rollout).map (·.tokens.counts kind)) =
          ((newRecords state.events thread rollout).map (·.tokens.counts kind)).sum := by
      intro kind
      have low := notNegative kind
      have high := within kind
      have top := fits kind
      have earlier := (bounded.after kind).1.trans (bounded.after kind).2
      rw [sumCounts_eq]
      refine wrapped_of_fits ?_ ?_ <;> unfold i64Min i64Max at * <;> omega
    refine bounded.finished (finishedIn_ok _ _ _ rollout) nonneg fits isTotal ?_ ?_
    · exact fun kind => (notNegative kind).trans_eq (own kind).symm
    · exact fun kind => (congrArg _ (own kind)).trans_le (within kind)
  | error why =>
    have own : ∀ usage, execution.total (state.turns ++ execution.ran) = some usage → ∀ kind,
        (threadTotalOwn state.events thread usage).counts kind =
          max 0 (usedBy (state.turns ++ execution.ran) kind -
            (lastTotal (lastFirst state.events thread) kind +
              afterTotal (lastFirst state.events thread) kind)) := by
      intro usage total kind
      have counts := congrFun (isTotal usage total) kind
      have last := bounded.last kind
      have after := bounded.after kind
      have within := bounded.within kind
      have isMore := more kind
      have top := fits kind
      rw [← counts]
      exact threadTotalOwn_counts (by unfold i64Min i64Max at *; omega) (by omega) (by omega)
    refine bounded.finished (finishedIn_error _ _ _ why) nonneg fits isTotal ?_ ?_
    · intro kind
      cases total : execution.total (state.turns ++ execution.ran) with
      | none => exact le_rfl
      | some usage => exact (le_max_left _ _).trans_eq (own usage total kind).symm
    · intro kind
      have within := (bounded.within kind).trans (more kind)
      cases total : execution.total (state.turns ++ execution.ran) with
      | none => exact (add_zero _).trans_le within
      | some usage =>
        have covered := bounded.covered kind
        show recorded state.events thread kind +
          (threadTotalOwn state.events thread usage).counts kind ≤ _
        rw [own usage total kind]
        omega

theorem step (bounded : Bounded thread state) {step : ThreadStep Cost}
    (sound : Sound thread state step) (unrecorded : CountsUnrecorded thread state step) :
    Bounded thread (state.step thread step) := by
  cases step with
  | other event => exact bounded.other sound
  | execution execution => exact bounded.execution sound unrecorded

end Run

end Bounded

section Run

variable [Costs Cost] {thread : String} {steps : List (ThreadStep Cost)}

/-- Where every turn counts only what was not recorded, every state of the run is bounded. -/
theorem bounded_throughout
    (sound : Along (fun earlier step => Sound thread (Thread.run thread earlier) step) steps)
    (unrecorded : Along
      (fun earlier step => CountsUnrecorded thread (Thread.run thread earlier) step) steps) :
    Throughout (fun earlier => Bounded thread (Thread.run thread earlier)) steps := by
  have both : Along (fun earlier step => Sound thread (Thread.run thread earlier) step ∧
      CountsUnrecorded thread (Thread.run thread earlier) step) steps :=
    fun earlier step isPrefix => ⟨sound earlier step isPrefix, unrecorded earlier step isPrefix⟩
  refine both.throughout ?_ fun earlier step bounded allowed => ?_
  · exact ⟨fun _ member => (List.not_mem_nil member).elim, fun _ => (by decide : (0 : Int) ≤ i64Max),
      fun _ => ⟨le_rfl, le_rfl⟩, fun _ => ⟨le_rfl, le_rfl⟩, fun _ => le_rfl, fun _ => le_rfl⟩
  · rw [Thread.run_concat]
    exact bounded.step allowed.1 allowed.2

/-! ### Each root turn once -/

omit [Costs Cost] in
theorem countedRolloutTurns_concat (events : List (TurnEvent Cost)) (event : TurnEvent Cost) :
    countedRolloutTurns (events ++ [event]) thread =
      countedRolloutTurns events thread ++ (event.finishedIn thread).elim [] (·.tokensTurns) := by
  rw [countedRolloutTurns, List.filterMap_append, List.flatMap_append, countedRolloutTurns]
  cases found : event.finishedIn thread <;> simp [found]

/-- No root turn of the thread is counted from the rollouts twice. -/
theorem counted_once
    (sound : Along (fun earlier step => Sound thread (Thread.run thread earlier) step) steps) :
    Throughout (fun earlier =>
      (countedRolloutTurns (Thread.run thread earlier).events thread).Nodup) steps := by
  refine sound.throughout List.nodup_nil fun earlier step once isSound => ?_
  rw [Thread.run_concat]
  cases step with
  | other event =>
    replace isSound : event.finishedIn thread = none := isSound
    show (countedRolloutTurns (_ ++ [event]) thread).Nodup
    rwa [countedRolloutTurns_concat, isSound, Option.elim_none, List.append_nil]
  | execution execution =>
    rw [Thread.step]
    dsimp only
    rw [countedRolloutTurns_concat]
    cases isRollout : execution.rollout with
    | error why =>
      rw [Bounded.finishedIn_error, Option.elim_some]
      rwa [List.append_nil]
    | ok rollout =>
      rw [Bounded.finishedIn_ok, Option.elim_some]
      have isOnce := (isSound.2.2 rollout isRollout).once
      refine List.Nodup.append once (isOnce.filter _) fun id isCounted isNew => ?_
      exact of_decide_eq_true (List.mem_filter.mp isNew).2 isCounted

end Run

end Dagq.Tokens
