/-
This file proves that the tokens prepared for every cut are those of a cut read alone.
What is kept of a message is a maximum of its counts and the cost at the last place with
one, and the place it is named at is the first that names a model: neither depends on
the order the records are taken in, so the order of the times and that of the
transcript come to the same messages and places. The totals, the messages without a
cost and the places of each pair are functions of these.
-/

import Dagq.Tokens.SpanTokens

namespace Dagq.Tokens

open Lib Ledger

variable {Cost : Type}

/-- A record with its place in the transcript. -/
abbrev Item (Cost : Type) := TranscriptRecord Cost × Nat

/-! ### What is kept of the messages -/

/-- Whether a record has a usage that cannot be read. -/
def unreadable (item : Item Cost) : Bool :=
  item.1.usage.any fun usage => (readCounts usage).isNone

/-- What is kept of a message once a record of it is read. -/
def keptAfter (kept : Kept Cost) (counts : Counts) (cost : Option Cost) (at_ : Nat) : Kept Cost where
  counts := fun kind => max (kept.counts kind) (counts kind)
  cost :=
    if cost.isSome && kept.cost.all fun last => decide (last.1 < at_) then
      cost.map fun cost => (at_, cost)
    else kept.cost

def usageInto (messages : Ordered String (Kept Cost)) (item : Item Cost) :
    Ordered String (Kept Cost) :=
  match item.1.usage.bind readCounts with
  | none => messages
  | some counts =>
    let key := item.1.key item.2
    messages.insert key
      (keptAfter ((messages.get? key).getD {}) counts item.1.costUsd item.2)

theorem keptAfter_comm (kept : Kept Cost) (counts otherCounts : Counts) (cost otherCost : Option Cost)
    {at_ other : Nat} (apart : at_ ≠ other) :
    keptAfter (keptAfter kept counts cost at_) otherCounts otherCost other =
      keptAfter (keptAfter kept otherCounts otherCost other) counts cost at_ := by
  unfold keptAfter
  congr 1
  · funext kind
    exact max_right_comm _ _ _
  · cases cost <;> cases otherCost <;> cases kept.cost <;> grind

theorem usageInto_comm (messages : Ordered String (Kept Cost)) {item other : Item Cost}
    (apart : item.2 ≠ other.2) :
    usageInto (usageInto messages item) other = usageInto (usageInto messages other) item := by
  unfold usageInto
  cases item.1.usage.bind readCounts with
  | none => rfl
  | some counts =>
    cases other.1.usage.bind readCounts with
    | none => rfl
    | some otherCounts =>
      refine Ordered.eq_of_get? fun key => ?_
      by_cases same : item.1.key item.2 = other.1.key other.2
      · simp only [same, Ordered.get?_insert]
        split
        · simp only [if_true, Option.getD_some]
          rw [keptAfter_comm _ _ _ _ _ apart]
        · rfl
      · simp only [Ordered.get?_insert, same, Ne.symm same, if_false]
        grind

/-! ### Where the messages are named -/

/-- The pair a record names its message with. -/
def pairOf (item : Item Cost) : Option ModelPair :=
  if item.1.sidechain then none else item.1.named.map fun model => toLex (model, item.1.effort)

def namedInto (named : Ordered String (Nat × ModelPair)) (item : Item Cost) :
    Ordered String (Nat × ModelPair) :=
  match pairOf item with
  | none => named
  | some pair =>
    let key := item.1.key item.2
    if (named.get? key).any fun first => decide (first.1 < item.2) then named
    else named.insert key (item.2, pair)

/-- A message stays named at an earlier place. -/
def placeAfter (held : Option (Nat × ModelPair)) (place : Nat × ModelPair) : Nat × ModelPair :=
  (held.filter fun first => decide (first.1 < place.1)).getD place

theorem get?_namedInto (named : Ordered String (Nat × ModelPair)) {item : Item Cost}
    {pair : ModelPair} (names : pairOf item = some pair) (key : String) :
    (namedInto named item).get? key =
      if key = item.1.key item.2 then some (placeAfter (named.get? key) (item.2, pair))
      else named.get? key := by
  simp only [namedInto, names]
  split
  · next before =>
    split
    · next same =>
      obtain ⟨first, found, isBefore⟩ := (Option.any_eq_true _ _).mp before
      simp [same, found, placeAfter, Option.filter, of_decide_eq_true isBefore]
    · rfl
  · next notBefore =>
    rw [Ordered.get?_insert]
    split
    · next same =>
      rw [same, placeAfter]
      cases found : named.get? (item.1.key item.2) with
      | none => rfl
      | some first =>
        rw [found, Option.any_some] at notBefore
        simp [Option.filter, notBefore]
    · rfl

theorem placeAfter_comm (held : Option (Nat × ModelPair)) {place other : Nat × ModelPair}
    (apart : place.1 ≠ other.1) :
    placeAfter (some (placeAfter held place)) other =
      placeAfter (some (placeAfter held other)) place := by
  unfold placeAfter
  cases held <;> grind [Option.filter]

theorem namedInto_comm (named : Ordered String (Nat × ModelPair)) {item other : Item Cost}
    (apart : item.2 ≠ other.2) :
    namedInto (namedInto named item) other = namedInto (namedInto named other) item := by
  cases names : pairOf item with
  | none => simp only [namedInto, names]
  | some pair =>
    cases otherNames : pairOf other with
    | none => simp only [namedInto, otherNames]
    | some otherPair =>
      refine Ordered.eq_of_get? fun key => ?_
      rw [get?_namedInto _ otherNames, get?_namedInto _ names, get?_namedInto _ names,
        get?_namedInto _ otherNames]
      have places := @placeAfter_comm (named.get? key) (item.2, pair) (other.2, otherPair) apart
      split <;> split <;> simp only [places]

/-- The place and pair each message is named at are of a record of it. -/
theorem mem_of_namedInto {items : List (Item Cost)} {key : String} {at_ : Nat} {pair : ModelPair}
    (found : (items.foldl namedInto .empty).get? key = some (at_, pair)) :
    ∃ record, (record, at_) ∈ items ∧ record.key at_ = key := by
  induction items using List.reverseRecOn generalizing key at_ pair with
  | nil => cases found
  | append_singleton items item inductionHypothesis =>
    rw [List.foldl_append, List.foldl_cons, List.foldl_nil, namedInto] at found
    have earlier : (items.foldl namedInto .empty).get? key = some (at_, pair) →
        ∃ record, (record, at_) ∈ items ++ [item] ∧ record.key at_ = key := by
      intro isEarlier
      obtain ⟨record, among, isKey⟩ := inductionHypothesis isEarlier
      exact ⟨record, List.mem_append_left _ among, isKey⟩
    split at found
    · exact earlier found
    · dsimp only at found
      split at found
      · exact earlier found
      · rw [Ordered.get?_insert] at found
        split at found
        · next same =>
          obtain ⟨rfl, _⟩ := Prod.mk.inj (Option.some.inj found)
          exact ⟨item.1, by simp, same.symm⟩
        · exact earlier found

/-! ### The places of a pair -/

/-- The places a pair is named at. -/
def placesNamed (named : Ordered String (Nat × ModelPair)) (pair : ModelPair) : Finset Nat :=
  ((named.values.filter fun place => place.2 = pair).map Prod.fst).toFinset

theorem mem_placesNamed {named : Ordered String (Nat × ModelPair)} {pair : ModelPair} {at_ : Nat} :
    at_ ∈ placesNamed named pair ↔ ∃ key, named.get? key = some (at_, pair) := by
  simp only [placesNamed, List.mem_toFinset, List.mem_map, List.mem_filter, Ordered.mem_values,
    decide_eq_true_eq]
  constructor
  · rintro ⟨⟨place, _⟩, ⟨⟨key, found⟩, rfl⟩, rfl⟩
    exact ⟨key, found⟩
  · rintro ⟨key, found⟩
    exact ⟨(at_, pair), ⟨⟨key, found⟩, rfl⟩, rfl⟩

/-- A message named for the first time adds its place. -/
theorem placesNamed_insert {named : Ordered String (Nat × ModelPair)} {key : String} {at_ : Nat}
    {pair : ModelPair} (fresh : named.get? key = none) (other : ModelPair) :
    placesNamed (named.insert key (at_, pair)) other =
      if other = pair then insert at_ (placesNamed named other) else placesNamed named other := by
  ext place
  split <;> simp only [mem_placesNamed, Finset.mem_insert, Ordered.get?_insert] <;> grind

/-- A message named at another place gives up the one before. -/
theorem placesNamed_replace {named : Ordered String (Nat × ModelPair)} {key : String}
    {at_ first : Nat} {pair old : ModelPair} (found : named.get? key = some (first, old))
    (alone : ∀ other held, named.get? other = some (first, held) → other = key)
    (other : ModelPair) :
    placesNamed (named.insert key (at_, pair)) other =
      if other = pair then
        insert at_ (if other = old then (placesNamed named other).erase first
          else placesNamed named other)
      else if other = old then (placesNamed named other).erase first
      else placesNamed named other := by
  ext place
  split <;> split <;>
    simp only [mem_placesNamed, Finset.mem_insert, Finset.mem_erase, Ordered.get?_insert] <;> grind

/-- The pairs with the places they are named at, none of them without one. -/
structure PlacesOf (named : Ordered String (Nat × ModelPair))
    (pairs : Ordered ModelPair (Finset Nat)) : Prop where
  places : ∀ pair, (pairs.get? pair).getD ∅ = placesNamed named pair
  held : ∀ pair, pairs.get? pair ≠ some ∅

namespace Prepared

theorem get?_addPlace (pairs : Ordered ModelPair (Finset Nat)) (pair other : ModelPair)
    (at_ : Nat) : (addPlace pairs pair at_).get? other =
      if other = pair then some (insert at_ ((pairs.get? pair).getD ∅)) else pairs.get? other := by
  rw [addPlace, Ordered.get?_insert]

theorem getD_dropPlace (pairs : Ordered ModelPair (Finset Nat)) (old other : ModelPair)
    (first : Nat) : ((dropPlace pairs old first).get? other).getD ∅ =
      if other = old then ((pairs.get? other).getD ∅).erase first
      else (pairs.get? other).getD ∅ := by
  unfold dropPlace
  cases found : pairs.get? old with
  | none => grind
  | some positions =>
    dsimp only
    split <;> simp only [Ordered.get?_erase, Ordered.get?_insert] <;> grind

theorem dropPlace_held {pairs : Ordered ModelPair (Finset Nat)} {old : ModelPair} {first : Nat}
    (held : ∀ pair, pairs.get? pair ≠ some ∅) (pair : ModelPair) :
    (dropPlace pairs old first).get? pair ≠ some ∅ := by
  unfold dropPlace
  cases found : pairs.get? old with
  | none => exact held pair
  | some positions =>
    dsimp only
    split <;> simp only [Ordered.get?_erase, Ordered.get?_insert] <;> grind

theorem addPlace_held {pairs : Ordered ModelPair (Finset Nat)} {added : ModelPair} {at_ : Nat}
    (held : ∀ pair, pairs.get? pair ≠ some ∅) (pair : ModelPair) :
    (addPlace pairs added at_).get? pair ≠ some ∅ := by
  rw [get?_addPlace]
  split
  · simp
  · exact held pair

end Prepared

/-! ### What is prepared of the records read -/

/-- What the loop holds once these records are read. -/
structure Reads (items : List (Item Cost)) (state : Prepared Cost) : Prop where
  unsupported : state.unsupported = items.any unreadable
  messages : state.messages = items.foldl usageInto .empty
  totals : ∀ kind, state.totals kind = wrapped (state.messages.values.map (·.counts kind)).sum
  withoutCost : (state.withoutCost : Int) =
    (state.messages.values.map fun message => if message.cost.isNone then (1 : Int) else 0).sum
  named : state.named = items.foldl namedInto .empty
  places : PlacesOf state.named state.pairs

theorem reads_nil : Reads [] ({} : Prepared Cost) where
  unsupported := rfl
  messages := rfl
  totals _ := rfl
  withoutCost := rfl
  named := rfl
  places := ⟨fun _ => rfl, fun _ => by simp⟩

namespace Prepared

theorem readUsage_messages (state : Prepared Cost) (item : Item Cost) :
    (state.readUsage item.1 item.2).messages = usageInto state.messages item := by
  unfold readUsage usageInto
  cases item.1.usage with
  | none => rfl
  | some usage =>
    rw [Option.bind_some]
    dsimp only
    cases readCounts usage with
    | none => rfl
    | some counts =>
      have larger : ∀ first second : Int, (if first < second then second else first) =
          max first second := fun first second => by
        rw [max_def]
        split <;> split <;> omega
      simp only [keptAfter, larger]
      split <;> rfl

theorem readUsage_unsupported (state : Prepared Cost) (item : Item Cost) :
    (state.readUsage item.1 item.2).unsupported = (state.unsupported || unreadable item) := by
  unfold readUsage unreadable
  cases item.1.usage with
  | none => simp
  | some usage =>
    dsimp only
    cases found : readCounts usage with
    | none => simp [found]
    | some counts =>
      dsimp only
      split <;> simp [found]

theorem readUsage_totals {state : Prepared Cost} (item : Item Cost)
    (totals : ∀ kind, state.totals kind = wrapped (state.messages.values.map (·.counts kind)).sum)
    (kind : TokenKind) : (state.readUsage item.1 item.2).totals kind =
      wrapped ((state.readUsage item.1 item.2).messages.values.map (·.counts kind)).sum := by
  rw [readUsage_messages]
  unfold readUsage usageInto
  cases item.1.usage with
  | none => exact totals kind
  | some usage =>
    rw [Option.bind_some]
    dsimp only
    cases readCounts usage with
    | none => exact totals kind
    | some counts =>
      have held : ((state.messages.get? (item.1.key item.2)).elim 0 fun kept => kept.counts kind) =
          ((state.messages.get? (item.1.key item.2)).getD {}).counts kind := by
        cases state.messages.get? (item.1.key item.2) <;> rfl
      rw [Ordered.sum_values_insert, held]
      have added : (if ((state.messages.get? (item.1.key item.2)).getD {}).counts kind < counts kind
          then wrapped (state.totals kind + (counts kind -
            ((state.messages.get? (item.1.key item.2)).getD {}).counts kind))
          else state.totals kind) = wrapped ((state.messages.values.map (·.counts kind)).sum -
            ((state.messages.get? (item.1.key item.2)).getD {}).counts kind +
            max (((state.messages.get? (item.1.key item.2)).getD {}).counts kind)
              (counts kind)) := by
        rw [totals kind]
        split
        · next larger =>
          rw [wrapped_add_left, max_eq_right larger.le]
          congr 1
          omega
        · next smaller =>
          rw [max_eq_left (not_lt.mp smaller), sub_add_cancel]
      dsimp only
      split <;> exact added

/-- A message without a cost is counted among those without one. -/
theorem withoutCost_pos {state : Prepared Cost} {key : String} {kept : Kept Cost}
    (withoutCost : (state.withoutCost : Int) =
      (state.messages.values.map fun message => if message.cost.isNone then (1 : Int) else 0).sum)
    (found : state.messages.get? key = some kept) (noCost : kept.cost = none) :
    1 ≤ state.withoutCost := by
  have among : (1 : Int) ∈ state.messages.values.map
      fun message => if message.cost.isNone then (1 : Int) else 0 :=
    List.mem_map.mpr ⟨kept, Ordered.mem_values.mpr ⟨key, found⟩, by simp [noCost]⟩
  have least := List.single_le_sum (fun amount inside => by
    obtain ⟨message, _, rfl⟩ := List.mem_map.mp inside
    split <;> decide) _ among
  omega

theorem readUsage_withoutCost {state : Prepared Cost} (item : Item Cost)
    (withoutCost : (state.withoutCost : Int) =
      (state.messages.values.map fun message => if message.cost.isNone then (1 : Int) else 0).sum) :
    ((state.readUsage item.1 item.2).withoutCost : Int) =
      ((state.readUsage item.1 item.2).messages.values.map
        fun message => if message.cost.isNone then (1 : Int) else 0).sum := by
  rw [readUsage_messages]
  unfold readUsage usageInto
  cases item.1.usage with
  | none => exact withoutCost
  | some usage =>
    rw [Option.bind_some]
    dsimp only
    cases readCounts usage with
    | none => exact withoutCost
    | some counts =>
      rw [Ordered.sum_values_insert, ← withoutCost]
      cases found : state.messages.get? (item.1.key item.2) with
      | none => cases item.1.costUsd <;> simp [keptAfter]
      | some kept =>
        cases noCost : kept.cost with
        | none =>
          have positive := withoutCost_pos withoutCost found noCost
          cases item.1.costUsd <;> simp [keptAfter, noCost]
          omega
        | some last =>
          cases item.1.costUsd with
          | none => simp [keptAfter, noCost]
          | some cost => by_cases later : last.1 < item.2 <;> simp [keptAfter, noCost, later]

theorem readModel_named (state : Prepared Cost) (item : Item Cost) :
    (state.readModel item.1 item.2).named = namedInto state.named item := by
  unfold readModel namedInto pairOf
  cases item.1.sidechain with
  | true => rfl
  | false =>
    cases item.1.named with
    | none => rfl
    | some model =>
      cases found : state.named.get? (item.1.key item.2) with
      | none => simp [found]
      | some first =>
        by_cases before : first.1 < item.2 <;> simp [found, before]

/-- The places of the pairs follow where the messages are named, as long as a place is of one
message. -/
theorem readModel_places {state : Prepared Cost} (item : Item Cost)
    (places : PlacesOf state.named state.pairs)
    (alone : ∀ key other first pair otherPair, state.named.get? key = some (first, pair) →
      state.named.get? other = some (first, otherPair) → other = key) :
    PlacesOf (state.readModel item.1 item.2).named (state.readModel item.1 item.2).pairs := by
  unfold readModel
  cases item.1.sidechain with
  | true => exact places
  | false =>
    cases item.1.named with
    | none => exact places
    | some model =>
      cases found : state.named.get? (item.1.key item.2) with
      | none =>
        simp only [Bool.false_eq_true, if_false, found]
        refine ⟨fun pair => ?_, addPlace_held places.held⟩
        rw [get?_addPlace, placesNamed_insert found]
        split
        · next same => rw [Option.getD_some, places.places, same]
        · exact places.places pair
      | some first =>
        obtain ⟨first, old⟩ := first
        by_cases before : first < item.2
        · simpa [found, before] using places
        · simp only [Bool.false_eq_true, if_false, found, before]
          refine ⟨fun pair => ?_, addPlace_held (dropPlace_held places.held)⟩
          rw [get?_addPlace, placesNamed_replace found fun other held => alone _ _ _ _ _ found]
          split
          · next same => rw [Option.getD_some, getD_dropPlace, places.places, same]
          · rw [getD_dropPlace, places.places]

end Prepared

/-- The places of the records read are of one record each. -/
def Placed (items : List (Item Cost)) : Prop :=
  ∀ first ∈ items, ∀ second ∈ items, first.2 = second.2 → first = second

theorem Reads.read {items : List (Item Cost)} {state : Prepared Cost} (reads : Reads items state)
    (item : Item Cost) (placed : Placed (items ++ [item])) :
    Reads (items ++ [item]) (state.read item) := by
  have kept : (state.readUsage item.1 item.2).named = state.named ∧
      (state.readUsage item.1 item.2).pairs = state.pairs := by
    unfold Prepared.readUsage
    split
    · exact ⟨rfl, rfl⟩
    · split
      · exact ⟨rfl, rfl⟩
      · dsimp only
        split <;> exact ⟨rfl, rfl⟩
  have same : (state.read item).messages = (state.readUsage item.1 item.2).messages ∧
      (state.read item).totals = (state.readUsage item.1 item.2).totals ∧
      (state.read item).withoutCost = (state.readUsage item.1 item.2).withoutCost ∧
      (state.read item).unsupported = (state.readUsage item.1 item.2).unsupported := by
    unfold Prepared.read Prepared.readModel
    split
    · exact ⟨rfl, rfl, rfl, rfl⟩
    · split
      · exact ⟨rfl, rfl, rfl, rfl⟩
      · dsimp only
        split
        · split <;> exact ⟨rfl, rfl, rfl, rfl⟩
        · exact ⟨rfl, rfl, rfl, rfl⟩
  obtain ⟨sameMessages, sameTotals, sameWithout, sameUnsupported⟩ := same
  refine ⟨?_, ?_, fun kind => ?_, ?_, ?_, ?_⟩
  · rw [sameUnsupported, Prepared.readUsage_unsupported, reads.unsupported, List.any_append,
      List.any_cons, List.any_nil, Bool.or_false]
  · rw [sameMessages, Prepared.readUsage_messages, reads.messages, List.foldl_append,
      List.foldl_cons, List.foldl_nil]
  · rw [sameMessages, sameTotals, Prepared.readUsage_totals item reads.totals]
  · rw [sameMessages, sameWithout, Prepared.readUsage_withoutCost item reads.withoutCost]
  · rw [Prepared.read, Prepared.readModel_named, kept.1, reads.named, List.foldl_append,
      List.foldl_cons, List.foldl_nil]
  · refine Prepared.readModel_places item ?_ ?_
    · rw [kept.1, kept.2]
      exact reads.places
    · intro key other first pair otherPair found otherFound
      rw [kept.1, reads.named] at found otherFound
      obtain ⟨record, among, rfl⟩ := mem_of_namedInto found
      obtain ⟨otherRecord, otherAmong, rfl⟩ := mem_of_namedInto otherFound
      have isSame := placed _ (List.mem_append_left _ among) _ (List.mem_append_left _ otherAmong) rfl
      rw [(Prod.mk.inj isSame).1]

/-! ### The records in the transcript's order -/

/-- The records of a span with their places, in the transcript's order. -/
def within (records : List (TranscriptRecord Cost)) (start end_ : Int) : List (Item Cost) :=
  records.zipIdx.filter fun item => item.1.inSpan start end_

theorem foldl_filter_kept {Item State : Type} {step : State → Item → State} {keeps : Item → Bool}
    (skips : ∀ state item, keeps item = false → step state item = state) (items : List Item)
    (state : State) : items.foldl step state = (items.filter keeps).foldl step state := by
  induction items generalizing state with
  | nil => rfl
  | cons item rest inductionHypothesis =>
    cases kept : keeps item with
    | true => rw [List.filter_cons_of_pos kept, List.foldl_cons, List.foldl_cons, inductionHypothesis]
    | false =>
      rw [List.filter_cons_of_neg (by simp [kept]), List.foldl_cons, skips state item kept,
        inductionHypothesis]

theorem foldlM_filter_kept {Item State Error : Type} {step : State → Item → Except Error State}
    {keeps : Item → Bool} (skips : ∀ state item, keeps item = false → step state item = .ok state)
    (items : List Item) (state : State) :
    items.foldlM step state = (items.filter keeps).foldlM step state := by
  induction items generalizing state with
  | nil => rfl
  | cons item rest inductionHypothesis =>
    cases kept : keeps item with
    | true =>
      rw [List.filter_cons_of_pos kept, List.foldlM_cons, List.foldlM_cons]
      exact congrArg _ (funext fun next => inductionHypothesis next)
    | false =>
      rw [List.filter_cons_of_neg (by simp [kept]), List.foldlM_cons, skips state item kept]
      exact inductionHypothesis state

/-- What is kept of a message as the loop over the transcript keeps it. -/
def Kept.message (kept : Kept Cost) : Message Cost := ⟨kept.counts, kept.cost.map Prod.snd⟩

theorem cost_of_usageInto {items : List (Item Cost)} {key : String} {kept : Kept Cost}
    {last : Nat × Cost} (found : (items.foldl usageInto .empty).get? key = some kept)
    (isLast : kept.cost = some last) : ∃ item ∈ items, item.2 = last.1 := by
  induction items using List.reverseRecOn generalizing key kept last with
  | nil => cases found
  | append_singleton items item inductionHypothesis =>
    have earlier : ∀ {key kept}, (items.foldl usageInto .empty).get? key = some kept →
        kept.cost = some last → ∃ other ∈ items ++ [item], other.2 = last.1 := by
      intro key kept isFound isCost
      obtain ⟨other, among, isPlace⟩ := inductionHypothesis isFound isCost
      exact ⟨other, List.mem_append_left _ among, isPlace⟩
    rw [List.foldl_append, List.foldl_cons, List.foldl_nil, usageInto] at found
    split at found
    · exact earlier found isLast
    · rw [Ordered.get?_insert] at found
      split at found
      · obtain rfl := Option.some.inj found
        simp only [keptAfter] at isLast
        split at isLast
        · obtain ⟨cost, _, rfl⟩ := Option.map_eq_some_iff.mp isLast
          exact ⟨item, by simp, rfl⟩
        · cases before : (items.foldl usageInto .empty).get? (item.1.key item.2) with
          | none =>
            rw [before] at isLast
            cases isLast
          | some kept =>
            rw [before] at isLast
            exact earlier before isLast
      · exact earlier found isLast

section

variable {items : List (Item Cost)} {start end_ : Int}

/-- The loop over the transcript keeps what is kept of the messages, or stops at a usage that cannot
be read. -/
theorem usageScan_reads (ascending : items.Pairwise fun first second => first.2 < second.2)
    (inside : ∀ item ∈ items, item.1.inSpan start end_ = true) :
    (items.any unreadable = true →
      items.foldlM (UsageScan.read start end_) {} = .error usageUnsupported) ∧
      (items.any unreadable = false → ∃ scan, items.foldlM (UsageScan.read start end_) {} = .ok scan ∧
        scan.assistants = items.length ∧ ∀ key, scan.messages.get? key =
          ((items.foldl usageInto .empty).get? key).map Kept.message) := by
  induction items using List.reverseRecOn with
  | nil => exact ⟨(fun isUnreadable => by cases isUnreadable), fun _ => ⟨{}, rfl, rfl, fun _ => rfl⟩⟩
  | append_singleton items item inductionHypothesis =>
    obtain ⟨ascendingItems, _, isLater⟩ := List.pairwise_append.mp ascending
    obtain ⟨stops, goesOn⟩ := inductionHypothesis ascendingItems
      fun other among => inside other (List.mem_append_left _ among)
    have isInside := inside item (List.mem_append_right _ List.mem_cons_self)
    rw [List.foldlM_append, List.any_append, List.any_cons, List.any_nil, Bool.or_false]
    cases readable : items.any unreadable with
    | true =>
      rw [stops readable]
      exact ⟨fun _ => rfl, (fun isReadable => by cases isReadable)⟩
    | false =>
      obtain ⟨scan, isScan, assistants, messages⟩ := goesOn readable
      rw [isScan]
      show (_ → UsageScan.read start end_ scan item >>= pure = _) ∧ (_ → ∃ after,
        UsageScan.read start end_ scan item >>= pure = _ ∧ _)
      rw [bind_pure, Bool.false_or, List.length_append, List.length_singleton, List.foldl_append,
        List.foldl_cons, List.foldl_nil]
      simp only [UsageScan.read, isInside, Bool.not_true, Bool.false_eq_true, if_false, unreadable,
        usageInto]
      cases item.1.usage with
      | none =>
        exact ⟨(fun isUnreadable => by cases isUnreadable),
          fun _ => ⟨_, rfl, congrArg (· + 1) assistants, messages⟩⟩
      | some usage =>
        rw [Option.bind_some, Option.any_some]
        dsimp only
        cases readCounts usage with
        | none => exact ⟨fun _ => rfl, (fun isReadable => by cases isReadable)⟩
        | some counts =>
          refine ⟨(fun isUnreadable => by cases isUnreadable),
            fun _ => ⟨_, rfl, congrArg (· + 1) assistants, fun key => ?_⟩⟩
          have held := messages (item.1.key item.2)
          dsimp only
          rw [Ordered.get?_insert, Ordered.get?_insert]
          split
          · rw [Option.map_some, held]
            congr 1
            cases found : (items.foldl usageInto .empty).get? (item.1.key item.2) with
            | none => cases item.1.costUsd <;> rfl
            | some kept =>
              have later : (kept.cost.all fun last => decide (last.1 < item.2)) = true := by
                cases isLast : kept.cost with
                | none => rfl
                | some last =>
                  obtain ⟨other, among, isPlace⟩ := cost_of_usageInto found isLast
                  exact decide_eq_true (isPlace ▸ isLater other among item List.mem_cons_self)
              cases item.1.costUsd <;> simp [Kept.message, keptAfter, later]
          · exact messages key

theorem sumCosts_of_all [Costs Cost] {costs : List (Option Cost)}
    (all : ∀ cost ∈ costs, cost ≠ none) (start : Cost) :
    costs.foldlM (fun total cost => cost.map (Costs.add total)) start =
      some ((costs.map fun cost => cost.getD Costs.zero).foldl Costs.add start) := by
  induction costs generalizing start with
  | nil => rfl
  | cons cost rest inductionHypothesis =>
    obtain ⟨isSome, others⟩ := List.forall_mem_cons.mp all
    obtain ⟨value, rfl⟩ := Option.ne_none_iff_exists'.mp isSome
    exact inductionHypothesis others (Costs.add start value)

theorem sumCosts_of_missing [Costs Cost] {costs : List (Option Cost)} (missing : none ∈ costs)
    (start : Cost) :
    costs.foldlM (fun total cost => cost.map (Costs.add total)) start = none := by
  induction costs generalizing start with
  | nil => cases missing
  | cons cost rest inductionHypothesis =>
    cases cost with
    | none => rfl
    | some value =>
      rcases List.mem_cons.mp missing with isFirst | inRest
      · cases isFirst
      · exact inductionHypothesis inRest (Costs.add start value)

theorem sumCounts_eq (counts : List Int) : sumCounts counts = wrapped counts.sum := by
  have runs : ∀ start, counts.foldl (fun total count => wrapped (total + count)) (wrapped start) =
      wrapped (start + counts.sum) := by
    induction counts with
    | nil => exact fun start => by simp
    | cons count rest inductionHypothesis =>
      intro start
      rw [List.foldl_cons, wrapped_add_left, inductionHypothesis, List.sum_cons, add_assoc]
  have isSum := runs 0
  rwa [zero_add] at isSum

/-- The loop over the transcript counts the places each pair is named at, and knows the last. -/
theorem modelScan_reads (ascending : items.Pairwise fun first second => first.2 < second.2)
    (inside : ∀ item ∈ items, item.1.inSpan start end_ = true) :
    (∀ key, key ∈ (items.foldl (ModelScan.read start end_) {}).seen ↔
      (items.foldl namedInto .empty).get? key ≠ none) ∧
    ∀ pair, (items.foldl (ModelScan.read start end_) {}).pairs.get? pair =
      if placesNamed (items.foldl namedInto .empty) pair = ∅ then none
      else some (((placesNamed (items.foldl namedInto .empty) pair).card : Int),
        (placesNamed (items.foldl namedInto .empty) pair).sup id) := by
  induction items using List.reverseRecOn with
  | nil =>
    have noPlaces : ∀ pair, placesNamed .empty pair = ∅ := fun _ => rfl
    exact ⟨fun key => by simp, fun pair => by simp [noPlaces]⟩
  | append_singleton items item inductionHypothesis =>
    obtain ⟨ascendingItems, _, isLater⟩ := List.pairwise_append.mp ascending
    obtain ⟨seen, pairs⟩ := inductionHypothesis ascendingItems
      fun other among => inside other (List.mem_append_left _ among)
    have isInside := inside item (List.mem_append_right _ List.mem_cons_self)
    rw [List.foldl_append, List.foldl_append, List.foldl_cons, List.foldl_cons, List.foldl_nil,
      List.foldl_nil]
    have waits : ∀ {scan : ModelScan}, pairOf item = none → scan.read start end_ item = scan := by
      intro scan names
      unfold ModelScan.read
      cases sidechain : item.1.sidechain with
      | true => simp [sidechain]
      | false =>
        have noModel : item.1.named = none := by simpa [pairOf, sidechain] using names
        simp [noModel]
    cases names : pairOf item with
    | none =>
      rw [waits names]
      simp only [namedInto, names]
      exact ⟨seen, pairs⟩
    | some pair =>
      obtain ⟨sidechain, model, isModel, isPair⟩ : item.1.sidechain = false ∧
          ∃ model, item.1.named = some model ∧ toLex (model, item.1.effort) = pair := by
        unfold pairOf at names
        split at names
        · cases names
        · next notSide => exact ⟨by simpa using notSide, Option.map_eq_some_iff.mp names⟩
      have reading : (items.foldl (ModelScan.read start end_) {}).read start end_ item =
          if item.1.key item.2 ∈ (items.foldl (ModelScan.read start end_) {}).seen then
            items.foldl (ModelScan.read start end_) {}
          else
            { seen := item.1.key item.2 :: (items.foldl (ModelScan.read start end_) {}).seen
              pairs := (items.foldl (ModelScan.read start end_) {}).pairs.insert pair
                ((((items.foldl (ModelScan.read start end_) {}).pairs.get? pair).getD (0, 0)).1 + 1,
                  item.2) } := by
        rw [← isPair]
        simp only [ModelScan.read, isInside, sidechain, isModel, Bool.not_true, Bool.or_false,
          Bool.false_eq_true, if_false]
        rfl
      have before : ∀ first, (items.foldl namedInto .empty).get? (item.1.key item.2) = some first →
          first.1 < item.2 := by
        intro first found
        obtain ⟨record, among, _⟩ := mem_of_namedInto found
        exact isLater _ among item List.mem_cons_self
      rw [reading]
      cases found : (items.foldl namedInto .empty).get? (item.1.key item.2) with
      | some first =>
        -- The message was named before, at an earlier place.
        rw [if_pos ((seen _).mpr (by simp [found]))]
        simp only [namedInto, names, found, Option.any_some, before first found, decide_true, if_true]
        exact ⟨seen, pairs⟩
      | none =>
        have notSeen : item.1.key item.2 ∉ (items.foldl (ModelScan.read start end_) {}).seen :=
          fun isSeen => (seen _).mp isSeen found
        have earlier : ∀ place ∈ placesNamed (items.foldl namedInto .empty) pair,
            place < item.2 := by
          intro place inside
          obtain ⟨key, isNamed⟩ := mem_placesNamed.mp inside
          obtain ⟨record, among, _⟩ := mem_of_namedInto isNamed
          exact isLater _ among item List.mem_cons_self
        rw [if_neg notSeen]
        simp only [namedInto, names, found, Option.any_none, Bool.false_eq_true, if_false]
        constructor
        · intro key
          rw [List.mem_cons, seen, Ordered.get?_insert]
          by_cases same : key = item.1.key item.2 <;> simp [same]
        · intro other
          rw [Ordered.get?_insert, placesNamed_insert found]
          split
          · next same =>
            have last : (insert item.2 (placesNamed (items.foldl namedInto .empty) pair)).sup id =
                item.2 := by
              rw [Finset.sup_insert]
              exact max_eq_left (Finset.sup_le fun place inside => (earlier place inside).le)
            rw [same, last, Finset.card_insert_of_notMem fun inside => lt_irrefl _ (earlier _ inside),
              if_neg (Finset.insert_ne_empty _ _), pairs pair]
            split
            · next noPlaces => simp [noPlaces]
            · simp
          · exact pairs other

end

end Dagq.Tokens
