/-
This file proves when the own tokens of a session's turns sum to the running totals that the
last of them recorded: just when, at each turn that resumed the session, the test for totals of
another session tells whether the earlier totals are from before the session's last start.
-/

import Dagq.Lib.Along
import Dagq.Lib.Loop
import Dagq.Tokens.TurnTokens

namespace Dagq.Tokens

open Lib Ledger

variable {Cost : Type}

/-! ### Counts by model -/

/-- The count of a kind that a model has among some; 0 where it is missing. -/
def countFor (models : List (ModelTokens Cost)) (model : String) (kind : TokenKind) : Int :=
  (models.map fun entry => if entry.model = model then entry.counts kind else 0).sum

@[simp] theorem countFor_nil (model : String) (kind : TokenKind) :
    countFor ([] : List (ModelTokens Cost)) model kind = 0 := rfl

@[simp] theorem countFor_cons (entry : ModelTokens Cost) (rest : List (ModelTokens Cost))
    (model : String) (kind : TokenKind) :
    countFor (entry :: rest) model kind =
      (if entry.model = model then entry.counts kind else 0) + countFor rest model kind := rfl

@[simp] theorem countFor_append (first second : List (ModelTokens Cost)) (model : String)
    (kind : TokenKind) :
    countFor (first ++ second) model kind = countFor first model kind + countFor second model kind := by
  simp [countFor]

theorem countFor_of_notMem {models : List (ModelTokens Cost)} {model : String}
    (absent : model ∉ models.map (·.model)) (kind : TokenKind) : countFor models model kind = 0 := by
  induction models with
  | nil => rfl
  | cons entry rest inductionHypothesis =>
    rw [List.map_cons, List.mem_cons, not_or] at absent
    rw [countFor_cons, if_neg (Ne.symm absent.1), inductionHypothesis absent.2, add_zero]

/-- The running totals of a session: each model once, in numbers of 64 bits that are not negative. -/
structure Totals (models : List (ModelTokens Cost)) : Prop where
  names : (models.map (·.model)).Nodup
  fits : ∀ entry ∈ models, ∀ kind, entry.counts kind ≤ i64Max
  nonneg : ∀ model kind, 0 ≤ countFor models model kind

theorem countFor_of_mem {models : List (ModelTokens Cost)}
    (names : (models.map (·.model)).Nodup) {entry : ModelTokens Cost} (member : entry ∈ models)
    (kind : TokenKind) : countFor models entry.model kind = entry.counts kind := by
  induction models with
  | nil => cases member
  | cons first rest inductionHypothesis =>
    rw [List.map_cons, List.nodup_cons] at names
    rw [countFor_cons]
    cases member with
    | head => rw [if_pos rfl, countFor_of_notMem names.1, add_zero]
    | tail _ member =>
      have other : first.model ≠ entry.model := fun same =>
        names.1 (same ▸ List.mem_map_of_mem member)
      rw [if_neg other, inductionHypothesis names.2 member, zero_add]

namespace Totals

variable {models : List (ModelTokens Cost)} (isTotals : Totals models)

include isTotals

theorem counts_nonneg {entry : ModelTokens Cost} (member : entry ∈ models) (kind : TokenKind) :
    0 ≤ entry.counts kind := by
  rw [← countFor_of_mem isTotals.names member]
  exact isTotals.nonneg entry.model kind

theorem find?_elim (model : String) (kind : TokenKind) :
    (models.find? fun entry => entry.model = model).elim 0 (·.counts kind) =
      countFor models model kind := by
  cases found : models.find? fun entry => entry.model = model with
  | none =>
    refine (countFor_of_notMem (fun member => ?_) kind).symm
    obtain ⟨entry, isEntry, rfl⟩ := List.mem_map.mp member
    simpa using List.find?_eq_none.mp found entry isEntry
  | some entry =>
    have isModel : entry.model = model := by simpa using List.find?_some found
    subst isModel
    exact (countFor_of_mem isTotals.names (List.mem_of_find?_eq_some found) kind).symm

/-- Totals are nothing for every model just when every entry is. -/
theorem countFor_eq_zero_iff :
    (∀ model kind, countFor models model kind = 0) ↔
      ∀ entry ∈ models, ∀ kind, entry.counts kind = 0 := by
  constructor
  · intro zero entry member kind
    rw [← countFor_of_mem isTotals.names member, zero]
  · intro zero model kind
    by_cases member : model ∈ models.map (·.model)
    · obtain ⟨entry, isEntry, rfl⟩ := List.mem_map.mp member
      rw [countFor_of_mem isTotals.names isEntry, zero entry isEntry]
    · exact countFor_of_notMem member kind

end Totals

/-! ### What was used after earlier totals -/

/-- Totals fell below earlier ones: a model of these is missing, or one of its counts is less. -/
def Fell (totals earlier : List (ModelTokens Cost)) : Prop :=
  ∃ before ∈ earlier, before.model ∉ totals.map (·.model) ∨
    ∃ kind, countFor totals before.model kind < before.counts kind

theorem any_kinds (test : TokenKind → Bool) :
    [TokenKind.input, .output, .cacheRead, .cacheCreation].any test = true ↔
      ∃ kind, test kind = true := by
  rw [List.any_eq_true]
  constructor
  · rintro ⟨kind, _, holds⟩
    exact ⟨kind, holds⟩
  · rintro ⟨kind, holds⟩
    exact ⟨kind, by cases kind <;> simp, holds⟩

section Since

variable [Costs Cost] {totals earlier : List (ModelTokens Cost)}

/-- What one model's total is above its earlier one is added to the own tokens, unless a count
fell. -/
theorem addSince_eq (wasTotals : Totals earlier) {total : ModelTokens Cost}
    (low : ∀ kind, 0 ≤ total.counts kind) (high : ∀ kind, total.counts kind ≤ i64Max)
    (own : List (ModelTokens Cost)) :
    ((∃ kind, total.counts kind < countFor earlier total.model kind) ∧
        ModelTokens.addSince earlier own total = none) ∨
      ((∀ kind, countFor earlier total.model kind ≤ total.counts kind) ∧
        ∃ added, ModelTokens.addSince earlier own total = some (own ++ added) ∧
          ∀ model kind, countFor added model kind =
            if total.model = model then total.counts kind - countFor earlier model kind else 0) := by
  have finds := wasTotals.find?_elim total.model
  unfold ModelTokens.addSince
  cases found : earlier.find? fun before => before.model = total.model with
  | none =>
    simp only [found, Option.elim_none] at finds
    refine Or.inr ⟨fun kind => (finds kind).symm.trans_le (low kind), [total], rfl, ?_⟩
    intro model kind
    rw [countFor_cons, countFor_nil, add_zero]
    split
    · next same => rw [← same, ← finds, sub_zero]
    · rfl
  | some before =>
    simp only [found, Option.elim_some] at finds
    have isEarlier := List.mem_of_find?_eq_some found
    have difference : ∀ kind, wrapped (total.counts kind - before.counts kind) =
        total.counts kind - countFor earlier total.model kind := by
      intro kind
      have earlierLow := wasTotals.counts_nonneg isEarlier kind
      have earlierHigh := wasTotals.fits before isEarlier kind
      have totalLow := low kind
      have totalHigh := high kind
      rw [← finds]
      refine wrapped_of_fits ?_ ?_ <;> unfold i64Min i64Max at * <;> omega
    simp only [difference]
    split
    · next fell =>
      obtain ⟨kind, isLess⟩ := (any_kinds _).mp fell
      exact Or.inl ⟨⟨kind, by simpa using isLess⟩, rfl⟩
    · next notFell =>
      have above : ∀ kind, countFor earlier total.model kind ≤ total.counts kind := by
        intro kind
        by_contra isLess
        exact notFell ((any_kinds _).mpr ⟨kind, by simpa using isLess⟩)
      refine Or.inr ⟨above, ?_⟩
      split
      · next noneAdded =>
        refine ⟨[], by rw [List.append_nil], fun model kind => ?_⟩
        have isZero : total.counts kind - countFor earlier total.model kind = 0 := by
          refine of_decide_eq_true (List.all_eq_true.mp noneAdded kind ?_)
          cases kind <;> simp
        rw [countFor_nil]
        split
        · next same => rw [← same, isZero]
        · rfl
      · refine ⟨_, rfl, fun model kind => ?_⟩
        rw [countFor_cons, countFor_nil, add_zero]
        dsimp only
        split
        · next same => rw [← same]
        · rfl

/-- The loop over the totals adds up what each is above its earlier count, unless one fell. -/
theorem foldlM_addSince (wasTotals : Totals earlier)
    (low : ∀ total ∈ totals, ∀ kind, 0 ≤ total.counts kind)
    (high : ∀ total ∈ totals, ∀ kind, total.counts kind ≤ i64Max) (own : List (ModelTokens Cost)) :
    ((∃ total ∈ totals, ∃ kind, total.counts kind < countFor earlier total.model kind) ∧
        totals.foldlM (ModelTokens.addSince earlier) own = none) ∨
      ((∀ total ∈ totals, ∀ kind, countFor earlier total.model kind ≤ total.counts kind) ∧
        ∃ added, totals.foldlM (ModelTokens.addSince earlier) own = some (own ++ added) ∧
          ∀ model kind, countFor added model kind = (totals.map fun total =>
            if total.model = model then total.counts kind - countFor earlier model kind
            else 0).sum) := by
  induction totals generalizing own with
  | nil => exact Or.inr ⟨fun total member => (List.not_mem_nil member).elim, [], by simp, by simp⟩
  | cons total rest inductionHypothesis =>
    rw [List.foldlM_cons]
    obtain ⟨fell, ends⟩ | ⟨above, added, goesOn, isAdded⟩ :=
      addSince_eq wasTotals (low total List.mem_cons_self) (high total List.mem_cons_self) own
    · rw [ends]
      exact Or.inl ⟨⟨total, List.mem_cons_self, fell⟩, rfl⟩
    · rw [goesOn, Option.bind_eq_bind, Option.bind_some]
      obtain ⟨⟨other, member, fell⟩, ends⟩ | ⟨allAbove, more, goesOn, isMore⟩ :=
        inductionHypothesis (fun other member => low other (List.mem_cons_of_mem _ member))
          (fun other member => high other (List.mem_cons_of_mem _ member)) (own ++ added)
      · exact Or.inl ⟨⟨other, List.mem_cons_of_mem _ member, fell⟩, ends⟩
      · refine Or.inr ⟨?_, added ++ more, by rw [goesOn, List.append_assoc], ?_⟩
        · intro other member
          cases member with
          | head => exact above
          | tail _ member => exact allAbove other member
        · intro model kind
          rw [countFor_append, isAdded, isMore, List.map_cons, List.sum_cons]

omit [Costs Cost] in
/-- What each of a model's entries is above its earlier count sums to what the totals are above
it. -/
theorem sum_above (names : (totals.map (·.model)).Nodup) {model : String}
    (member : model ∈ totals.map (·.model)) (kind : TokenKind) (before : Int) :
    (totals.map fun total => if total.model = model then total.counts kind - before else 0).sum =
      countFor totals model kind - before := by
  induction totals with
  | nil => cases member
  | cons total rest inductionHypothesis =>
    rw [List.map_cons, List.nodup_cons] at names
    rw [List.map_cons, List.sum_cons, countFor_cons]
    by_cases same : total.model = model
    · subst same
      have noneElse : (rest.map fun other =>
          if other.model = total.model then other.counts kind - before else 0).sum = 0 := by
        refine List.sum_eq_zero fun count isCount => ?_
        obtain ⟨other, isOther, rfl⟩ := List.mem_map.mp isCount
        exact if_neg fun (same : other.model = total.model) =>
          names.1 (same ▸ List.mem_map_of_mem isOther)
      rw [if_pos rfl, if_pos rfl, noneElse, countFor_of_notMem names.1]
      ring
    · rw [List.map_cons, List.mem_cons] at member
      rw [if_neg same, if_neg same, inductionHypothesis names.2 (member.resolve_left (Ne.symm same))]
      ring

/-- What was used after earlier totals is the difference, unless they fell. -/
theorem since_spec (isTotals : Totals totals) (wasTotals : Totals earlier) :
    (Fell totals earlier ∧ ModelTokens.since totals earlier = none) ∨
      (¬ Fell totals earlier ∧ ∃ own, ModelTokens.since totals earlier = some own ∧
        ∀ model kind, countFor own model kind =
          countFor totals model kind - countFor earlier model kind) := by
  rw [ModelTokens.since]
  by_cases missing : ∃ before ∈ earlier, before.model ∉ totals.map (·.model)
  · obtain ⟨before, member, absent⟩ := missing
    refine Or.inl ⟨⟨before, member, Or.inl absent⟩, if_pos ?_⟩
    refine List.any_eq_true.mpr ⟨before, member, ?_⟩
    rw [Bool.not_eq_true', List.any_eq_false]
    intro total isTotal same
    exact absent (of_decide_eq_true same ▸ List.mem_map_of_mem isTotal)
  · push Not at missing
    have noneMissing : ¬ (earlier.any fun before =>
        !totals.any fun total => decide (total.model = before.model)) = true := by
      intro someMissing
      obtain ⟨before, member, absent⟩ := List.any_eq_true.mp someMissing
      obtain ⟨total, isTotal, same⟩ := List.mem_map.mp (missing before member)
      rw [Bool.not_eq_true', List.any_eq_false] at absent
      exact absent total isTotal (decide_eq_true same)
    rw [if_neg noneMissing]
    obtain ⟨⟨total, isTotal, kind, fell⟩, ends⟩ | ⟨above, own, goesOn, isOwn⟩ :=
      foldlM_addSince wasTotals (fun total member => isTotals.counts_nonneg member) isTotals.fits []
    · have isEarlier : total.model ∈ earlier.map (·.model) := by
        by_contra absent
        rw [countFor_of_notMem absent] at fell
        exact absurd (isTotals.counts_nonneg isTotal kind) (not_le.mpr fell)
      obtain ⟨before, member, same⟩ := List.mem_map.mp isEarlier
      refine Or.inl ⟨⟨before, member, Or.inr ⟨kind, ?_⟩⟩, ends⟩
      rw [same, countFor_of_mem isTotals.names isTotal, ← countFor_of_mem wasTotals.names member,
        same]
      exact fell
    · refine Or.inr ⟨?_, own, goesOn, fun model kind => ?_⟩
      · rintro ⟨before, member, absent | ⟨kind, isLess⟩⟩
        · exact absent (missing before member)
        · obtain ⟨total, isTotal, same⟩ := List.mem_map.mp (missing before member)
          have notLess := above total isTotal kind
          rw [← countFor_of_mem isTotals.names isTotal, same,
            countFor_of_mem wasTotals.names member] at notLess
          exact absurd isLess (not_lt.mpr notLess)
      · rw [isOwn]
        by_cases isModel : model ∈ totals.map (·.model)
        · exact sum_above isTotals.names isModel kind _
        · have notEarlier : model ∉ earlier.map (·.model) := by
            intro isEarlier
            obtain ⟨before, member, rfl⟩ := List.mem_map.mp isEarlier
            exact isModel (missing before member)
          rw [countFor_of_notMem isModel, countFor_of_notMem notEarlier, sub_zero]
          refine List.sum_eq_zero fun count isCount => ?_
          obtain ⟨total, isTotal, rfl⟩ := List.mem_map.mp isCount
          exact if_neg fun (same : total.model = model) =>
            isModel (same ▸ List.mem_map_of_mem isTotal)

end Since

/-! ### The turns of a session since its start -/

/-- The own tokens of a session's turns since its last start, and the last totals recorded since. -/
structure Tally (Cost : Type) where
  own : String → TokenKind → Int := 0
  last : Option (List (ModelTokens Cost)) := none

/-- The own tokens sum to the last totals. -/
def Tally.AddsUp (tally : Tally Cost) : Prop :=
  ∀ model kind, tally.own model kind = countFor (tally.last.getD []) model kind

section Tally

variable [Costs Cost]

/-- Tally an event after those before it: a turn of the session that did not resume it starts it
anew, and one that recorded totals adds its own tokens. -/
def Tally.read (session : String) (before : List (TurnEvent Cost)) (tally : Tally Cost)
    (event : TurnEvent Cost) : Tally Cost :=
  match event.finishedIn session with
  | none => tally
  | some finished =>
    let tally := if resumed before finished.turn then tally else {}
    match finished.tokensTotalByModel with
    | none => tally
    | some totals =>
      { own := tally.own + countFor (turnOwnModels before finished.turn session totals)
        last := some totals }

def tallyLastFirst (session : String) : List (TurnEvent Cost) → Tally Cost
  | [] => {}
  | event :: earlier => (tallyLastFirst session earlier).read session earlier.reverse event

/-- The tally of events. -/
def tallyOf (session : String) (events : List (TurnEvent Cost)) : Tally Cost :=
  tallyLastFirst session events.reverse

/-- The totals that a turn's are to be no less than: the last since the session's start. -/
def lastSince (session : String) (events : List (TurnEvent Cost)) (turn : Nat) :
    List (ModelTokens Cost) :=
  if resumed events turn then (tallyOf session events).last.getD [] else []

/-- The totals that an event records are a session's, and none of them fell since its start. -/
def NeverFalls (session : String) (events : List (TurnEvent Cost)) (event : TurnEvent Cost) : Prop :=
  ∀ finished ∈ event.finishedIn session, ∀ totals ∈ finished.tokensTotalByModel,
    (totals.map (·.model)).Nodup ∧ (∀ entry ∈ totals, ∀ kind, entry.counts kind ≤ i64Max) ∧
      ∀ model kind, countFor (lastSince session events finished.turn) model kind ≤
        countFor totals model kind

/-- At a turn that resumed the session, the earlier totals are nothing, or the totals fell below them
just when they are from before the session's start. -/
def Tells (session : String) (events : List (TurnEvent Cost)) (event : TurnEvent Cost) : Prop :=
  ∀ finished ∈ event.finishedIn session, ∀ totals ∈ finished.tokensTotalByModel,
    resumed events finished.turn = true → ∀ earlier ∈ earlierTotals events session,
      (∀ entry ∈ earlier, ∀ kind, entry.counts kind = 0) ∨
        (Fell totals earlier ↔ (tallyOf session events).last = none)

variable {session : String} {events : List (TurnEvent Cost)} {event : TurnEvent Cost}

@[simp] theorem tallyOf_concat :
    tallyOf session (events ++ [event]) = (tallyOf session events).read session events event := by
  simp [tallyOf, tallyLastFirst]

omit [Costs Cost] in
theorem earlierTotals_concat :
    earlierTotals (events ++ [event]) session =
      ((event.finishedIn session).bind (·.tokensTotalByModel)).or (earlierTotals events session) := by
  rw [earlierTotals, lastFirst, List.reverse_append, List.reverse_singleton, List.singleton_append,
    List.filterMap_cons]
  cases event.finishedIn session with
  | none => rfl
  | some finished =>
    dsimp only
    rw [List.findSome?_cons, Option.bind_some]
    cases finished.tokensTotalByModel <;> rfl

/-- What the tally has of the totals recorded: the last since the start are the last of all, and all
are a session's. -/
structure Follows (session : String) (events : List (TurnEvent Cost)) : Prop where
  last : ∀ totals ∈ (tallyOf session events).last, earlierTotals events session = some totals
  totals : ∀ totals ∈ earlierTotals events session, Totals totals

/-- What a session's totals are to be no less than is not negative. -/
theorem Follows.lastSince_nonneg (follows : Follows session events) (turn : Nat) (model : String)
    (kind : TokenKind) : 0 ≤ countFor (lastSince session events turn) model kind := by
  unfold lastSince
  split
  · cases last : (tallyOf session events).last with
    | none => exact le_rfl
    | some totals => exact (follows.totals totals (follows.last totals last)).nonneg model kind
  · exact le_rfl

theorem Follows.concat (follows : Follows session events)
    (neverFalls : NeverFalls session events event) : Follows session (events ++ [event]) := by
  have initial : ({} : Tally Cost).last = none := rfl
  cases found : event.finishedIn session with
  | none =>
    refine ⟨?_, ?_⟩ <;>
      simpa only [tallyOf_concat, Tally.read, earlierTotals_concat, found, Option.bind_none,
        Option.none_or] using by first | exact follows.last | exact follows.totals
  | some finished =>
    cases recorded : finished.tokensTotalByModel with
    | none =>
      refine ⟨fun totals isLast => ?_, fun totals isEarlier => ?_⟩
      · rw [tallyOf_concat, Tally.read, found] at isLast
        dsimp only at isLast
        rw [recorded] at isLast
        rw [earlierTotals_concat, found, Option.bind_some, recorded, Option.none_or]
        dsimp only at isLast
        split at isLast
        · exact follows.last totals isLast
        · cases isLast
      · rw [earlierTotals_concat, found, Option.bind_some, recorded, Option.none_or] at isEarlier
        exact follows.totals totals isEarlier
    | some totals =>
      obtain ⟨names, fits, above⟩ := neverFalls finished found totals recorded
      have earlier : earlierTotals (events ++ [event]) session = some totals := by
        rw [earlierTotals_concat, found, Option.bind_some, recorded, Option.some_or]
      have last : (tallyOf session (events ++ [event])).last = some totals := by
        rw [tallyOf_concat, Tally.read, found]
        dsimp only
        rw [recorded]
      rw [← last] at earlier
      refine ⟨fun other isLast => earlier.trans isLast, fun other isEarlier => ?_⟩
      rw [earlier, last] at isEarlier
      obtain rfl := Option.some.inj isEarlier
      exact ⟨names, fits, fun model kind =>
        (follows.lastSince_nonneg finished.turn model kind).trans (above model kind)⟩

theorem follows_of_neverFalls (neverFalls : Along (NeverFalls session) events) :
    Throughout (Follows session) events :=
  neverFalls.throughout
    ⟨fun _ isLast => (Option.not_mem_none _ isLast).elim,
      fun _ isEarlier => (Option.not_mem_none _ isEarlier).elim⟩
    fun _ _ follows falls => follows.concat falls

omit [Costs Cost] in
/-- A tally adds up after totals are recorded just when the own tokens before them were what the
totals are above those the turn used. -/
theorem addsUp_record_iff {tally : Tally Cost} {own totals : List (ModelTokens Cost)} :
    ({ own := tally.own + countFor own, last := some totals } : Tally Cost).AddsUp ↔
      ∀ model kind, tally.own model kind = countFor totals model kind - countFor own model kind := by
  refine forall_congr' fun model => forall_congr' fun kind => ?_
  show tally.own model kind + countFor own model kind = countFor totals model kind ↔ _
  omega

/-- One more event keeps the sums right just when it tells where the earlier totals are from. -/
theorem addsUp_concat_iff (follows : Follows session events)
    (neverFalls : NeverFalls session events event) (addsUp : (tallyOf session events).AddsUp) :
    (tallyOf session (events ++ [event])).AddsUp ↔ Tells session events event := by
  have initial : ({} : Tally Cost).AddsUp := fun _ _ => rfl
  rw [tallyOf_concat, Tally.read, Tells]
  cases found : event.finishedIn session with
  | none => simpa using addsUp
  | some finished =>
    cases recorded : finished.tokensTotalByModel with
    | none =>
      dsimp only
      rw [recorded]
      cases isResumed : resumed events finished.turn with
      | false => simpa [recorded] using initial
      | true => simpa [recorded] using addsUp
    | some totals =>
      obtain ⟨names, fits, above⟩ := neverFalls finished found totals recorded
      have isTotals : Totals totals := ⟨names, fits, fun model kind =>
        (follows.lastSince_nonneg finished.turn model kind).trans (above model kind)⟩
      dsimp only
      rw [recorded]
      simp only [Option.mem_some_iff, forall_eq', recorded]
      rw [addsUp_record_iff]
      cases isResumed : resumed events finished.turn with
      | false => simp [turnOwnModels, isResumed]
      | true =>
        have own : turnOwnModels events finished.turn session totals =
            ((earlierTotals events session).bind (ModelTokens.since totals)).getD totals := by
          rw [turnOwnModels, isResumed]
          rfl
        rw [if_pos rfl, own]
        cases wasRecorded : earlierTotals events session with
        | none =>
          have noneLast : (tallyOf session events).last = none := by
            refine Option.eq_none_iff_forall_not_mem.mpr fun other isLast => ?_
            rw [follows.last other isLast] at wasRecorded
            cases wasRecorded
          simpa [noneLast, Tally.AddsUp] using addsUp
        | some earlier =>
          have wasTotals := follows.totals earlier wasRecorded
          simp only [Option.bind_some, Option.mem_some_iff, forall_eq', true_imp_iff,
            ← wasTotals.countFor_eq_zero_iff]
          -- What the turns used is the last totals since the start, or nothing where there are none.
          cases isLast : (tallyOf session events).last with
          | none =>
            have nothing : ∀ model kind, (tallyOf session events).own model kind = 0 := by
              simpa [Tally.AddsUp, isLast] using addsUp
            simp only [nothing, iff_true]
            obtain ⟨fell, none_⟩ | ⟨notFell, own, some_, isOwn⟩ := since_spec isTotals wasTotals
            · simp [none_, fell]
            · simp only [some_, Option.getD_some, isOwn, notFell, or_false]
              refine forall_congr' fun model => forall_congr' fun kind => ?_
              omega
          | some last =>
            obtain rfl : last = earlier := by
              have isEarlier := follows.last last isLast
              rw [wasRecorded] at isEarlier
              exact (Option.some.inj isEarlier).symm
            have used : ∀ model kind,
                (tallyOf session events).own model kind = countFor last model kind := by
              simpa [Tally.AddsUp, isLast] using addsUp
            simp only [used, reduceCtorEq, iff_false]
            obtain ⟨fell, none_⟩ | ⟨notFell, own, some_, isOwn⟩ := since_spec isTotals wasTotals
            · simp only [none_, Option.getD_none, sub_self, fell, not_true_eq_false, or_false]
            · simp [some_, isOwn, notFell]

/-- The own tokens of a session's turns sum to the last totals recorded since its start, after every
event, just when every turn that resumed it tells where the earlier totals are from. -/
theorem addsUp_throughout_iff (neverFalls : Along (NeverFalls session) events) :
    Throughout (fun earlier => (tallyOf session earlier).AddsUp) events ↔
      Along (Tells session) events := by
  refine throughout_iff_along (fun _ _ => rfl) fun earlier event isPrefix addsUp => ?_
  exact addsUp_concat_iff
    (follows_of_neverFalls neverFalls earlier ((List.prefix_append _ _).trans isPrefix))
    (neverFalls earlier event isPrefix) addsUp

end Tally

end Dagq.Tokens
