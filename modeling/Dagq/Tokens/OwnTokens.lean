/-
This file proves when the own tokens of a span's cuts add up. All of them always do: the
counts of the messages only grow. Those per model do just when, from one cut to the next,
what messages leave a model with is made up by what comes to it; a record that names the
model of a message counted before without one moves the message's tokens to that model,
where they are counted again.
-/

import Mathlib.Data.List.TakeWhile
import Dagq.Lib.Grouped
import Dagq.Tokens.Cuts
import Dagq.Tokens.Totals

namespace Dagq.Tokens

open Lib Ledger SpanTotals

variable {Cost : Type}

/-! ### The messages of records -/

/-- The records of a message. -/
def recordsOf (items : List (Item Cost)) (key : String) : List (Item Cost) :=
  items.filter fun item => item.1.key item.2 = key

/-- The messages counted: those with a record that has a usage. -/
def messageKeys (items : List (Item Cost)) : Finset String :=
  ((items.filter fun item => item.1.usage.isSome).map fun item => item.1.key item.2).toFinset

/-- The largest count of a message's records. -/
def largest (items : List (Item Cost)) (key : String) (kind : TokenKind) : Int :=
  ((recordsOf items key).filterMap fun item => item.1.usage.map (countsOf · kind)).foldl max 0

/-- The model that the first record of a message names, from its first record with a usage on. -/
def nameOf (items : List (Item Cost)) (key : String) : Option String :=
  ((recordsOf items key).dropWhile fun item => item.1.usage.isNone).findSome? fun item =>
    item.1.named

/-- The model that a message counts under. -/
def modelOf (items : List (Item Cost)) (key : String) : String := (nameOf items key).getD modelUnknown

/-- The tokens of all messages. -/
def whole (items : List (Item Cost)) (kind : TokenKind) : Int :=
  ∑ key ∈ messageKeys items, largest items key kind

/-- The tokens of the messages that count under a model. -/
def share (items : List (Item Cost)) (model : String) (kind : TokenKind) : Int :=
  ∑ key ∈ messageKeys items, if modelOf items key = model then largest items key kind else 0

theorem mem_messageKeys {items : List (Item Cost)} {key : String} :
    key ∈ messageKeys items ↔ ∃ item ∈ recordsOf items key, item.1.usage.isSome = true := by
  simp only [messageKeys, recordsOf, List.mem_toFinset, List.mem_map, List.mem_filter,
    decide_eq_true_eq]
  constructor
  · rintro ⟨item, ⟨member, counts⟩, isKey⟩
    exact ⟨item, ⟨member, isKey⟩, counts⟩
  · rintro ⟨item, ⟨member, isKey⟩, counts⟩
    exact ⟨item, ⟨member, counts⟩, isKey⟩

/-- The largest count is that of a record, or 0, and none is larger. -/
theorem largest_spec (items : List (Item Cost)) (key : String) (kind : TokenKind) :
    largest items key kind ∈
        0 :: (recordsOf items key).filterMap (fun item => item.1.usage.map (countsOf · kind)) ∧
      ∀ count ∈
        0 :: (recordsOf items key).filterMap (fun item => item.1.usage.map (countsOf · kind)),
        count ≤ largest items key kind :=
  List.max?_eq_some_iff.mp List.max?_cons'

theorem largest_nonneg (items : List (Item Cost)) (key : String) (kind : TokenKind) :
    0 ≤ largest items key kind :=
  (largest_spec items key kind).2 0 List.mem_cons_self

theorem whole_nonneg (items : List (Item Cost)) (kind : TokenKind) : 0 ≤ whole items kind :=
  Finset.sum_nonneg fun key _ => largest_nonneg items key kind

theorem share_nonneg (items : List (Item Cost)) (model : String) (kind : TokenKind) :
    0 ≤ share items model kind :=
  Finset.sum_nonneg fun key _ => by
    split
    · exact largest_nonneg items key kind
    · exact le_rfl

theorem share_le_whole (items : List (Item Cost)) (model : String) (kind : TokenKind) :
    share items model kind ≤ whole items kind :=
  Finset.sum_le_sum fun key _ => by
    split
    · exact le_rfl
    · exact largest_nonneg items key kind

/-! ### Messages grow -/

section Grows

variable {earlier later : List (Item Cost)} (grows : earlier.Sublist later)

include grows

theorem recordsOf_mono (key : String) : (recordsOf earlier key).Sublist (recordsOf later key) :=
  grows.filter _

theorem messageKeys_mono : messageKeys earlier ⊆ messageKeys later := by
  intro key isKey
  obtain ⟨item, isRecord, counts⟩ := mem_messageKeys.mp isKey
  exact mem_messageKeys.mpr ⟨item, (recordsOf_mono grows key).subset isRecord, counts⟩

theorem largest_mono (key : String) (kind : TokenKind) :
    largest earlier key kind ≤ largest later key kind := by
  refine (largest_spec later key kind).2 _ ?_
  exact (((recordsOf_mono grows key).filterMap _).cons_cons 0).subset
    (largest_spec earlier key kind).1

theorem whole_mono (kind : TokenKind) : whole earlier kind ≤ whole later kind := by
  calc whole earlier kind
      ≤ ∑ key ∈ messageKeys earlier, largest later key kind :=
        Finset.sum_le_sum fun key _ => largest_mono grows key kind
    _ ≤ whole later kind :=
        Finset.sum_le_sum_of_subset_of_nonneg (messageKeys_mono grows)
          fun key _ _ => largest_nonneg later key kind

end Grows

/-! ### What leaves a model and what comes to it -/

/-- The tokens of the messages that leave a model between two cuts. -/
def leaving (earlier later : List (Item Cost)) (model : String) (kind : TokenKind) : Int :=
  ∑ key ∈ messageKeys earlier,
    if modelOf earlier key = model ∧ modelOf later key ≠ model then largest earlier key kind else 0

/-- The tokens of the messages that come to it, new or from another. -/
def joining (earlier later : List (Item Cost)) (model : String) (kind : TokenKind) : Int :=
  ∑ key ∈ messageKeys later,
    if modelOf later key = model ∧ ¬ (key ∈ messageKeys earlier ∧ modelOf earlier key = model)
    then largest later key kind else 0

/-- What the messages that stay with it grow by. -/
def growing (earlier later : List (Item Cost)) (model : String) (kind : TokenKind) : Int :=
  ∑ key ∈ messageKeys earlier,
    if modelOf earlier key = model ∧ modelOf later key = model
    then largest later key kind - largest earlier key kind else 0

/-- What leaves each model is made up by what comes to it. -/
def MadeUp (earlier later : List (Item Cost)) : Prop :=
  ∀ model kind, leaving earlier later model kind ≤
    joining earlier later model kind + growing earlier later model kind

/-- A model's tokens are those before, less what leaves and more what comes. -/
theorem share_later {earlier later : List (Item Cost)} (grows : earlier.Sublist later)
    (model : String) (kind : TokenKind) :
    share later model kind = share earlier model kind - leaving earlier later model kind +
      (joining earlier later model kind + growing earlier later model kind) := by
  have stays : ∑ key ∈ messageKeys later, (if key ∈ messageKeys earlier ∧
      modelOf earlier key = model ∧ modelOf later key = model then largest later key kind else 0) =
      ∑ key ∈ messageKeys earlier, if modelOf earlier key = model ∧ modelOf later key = model
        then largest later key kind else 0 := by
    rw [← Finset.sum_subset (messageKeys_mono grows) fun key _ notEarlier => by simp [notEarlier]]
    exact Finset.sum_congr rfl fun key isEarlier => by simp [isEarlier]
  have split : share later model kind = joining earlier later model kind +
      ∑ key ∈ messageKeys later, if key ∈ messageKeys earlier ∧
        modelOf earlier key = model ∧ modelOf later key = model then largest later key kind else 0 := by
    rw [share, joining, ← Finset.sum_add_distrib]
    refine Finset.sum_congr rfl fun key _ => ?_
    by_cases isModel : modelOf later key = model <;>
      by_cases wasModel : key ∈ messageKeys earlier ∧ modelOf earlier key = model <;>
      simp [isModel, wasModel]
  have each : (∑ key ∈ messageKeys earlier, if modelOf earlier key = model ∧
      modelOf later key = model then largest later key kind else 0) =
      share earlier model kind - leaving earlier later model kind +
        growing earlier later model kind := by
    rw [share, leaving, growing, ← Finset.sum_sub_distrib, ← Finset.sum_add_distrib]
    refine Finset.sum_congr rfl fun key _ => ?_
    by_cases wasModel : modelOf earlier key = model <;>
      by_cases isModel : modelOf later key = model <;>
      simp [wasModel, isModel]
  rw [split, stays, each]
  ring

theorem madeUp_iff {earlier later : List (Item Cost)} (grows : earlier.Sublist later) :
    MadeUp earlier later ↔
      ∀ model kind, share earlier model kind ≤ share later model kind := by
  refine forall_congr' fun model => forall_congr' fun kind => ?_
  rw [share_later grows]
  omega

/-- Where no message counted changes its model, nothing leaves one. -/
theorem madeUp_of_same {earlier later : List (Item Cost)} (grows : earlier.Sublist later)
    (same : ∀ key ∈ messageKeys earlier, modelOf later key = modelOf earlier key) :
    MadeUp earlier later := by
  intro model kind
  have noneLeave : leaving earlier later model kind = 0 := by
    refine Finset.sum_eq_zero fun key isKey => if_neg ?_
    rintro ⟨wasModel, notModel⟩
    exact notModel ((same key isKey).trans wasModel)
  have joins : 0 ≤ joining earlier later model kind :=
    Finset.sum_nonneg fun key _ => by
      split
      · exact largest_nonneg later key kind
      · exact le_rfl
  have grow : 0 ≤ growing earlier later model kind :=
    Finset.sum_nonneg fun key _ => by
      split
      · exact Int.sub_nonneg.mpr (largest_mono grows key kind)
      · exact le_rfl
  omega

/-! ### The loops over the records -/

section Concat

variable (items : List (Item Cost)) (item : Item Cost)

theorem recordsOf_concat_self :
    recordsOf (items ++ [item]) (item.1.key item.2) =
      recordsOf items (item.1.key item.2) ++ [item] := by
  simp [recordsOf]

theorem recordsOf_concat_of_ne {key : String} (other : item.1.key item.2 ≠ key) :
    recordsOf (items ++ [item]) key = recordsOf items key := by
  simp [recordsOf, other]

/-- A message without a usage yet names no model. -/
theorem dropWhile_of_notMem {key : String} (notCounted : key ∉ messageKeys items) :
    (recordsOf items key).dropWhile (fun item => item.1.usage.isNone) = [] := by
  refine List.dropWhile_eq_nil_iff.mpr fun other isRecord => ?_
  by_contra hasUsage
  rw [Bool.not_eq_true, Option.isNone_eq_false_iff] at hasUsage
  exact notCounted (mem_messageKeys.mpr ⟨other, isRecord, hasUsage⟩)

theorem dropWhile_of_mem {key : String} (counted : key ∈ messageKeys items) :
    (recordsOf items key).dropWhile (fun item => item.1.usage.isNone) ≠ [] := by
  obtain ⟨other, isRecord, hasUsage⟩ := mem_messageKeys.mp counted
  intro allDropped
  have noUsage := List.dropWhile_eq_nil_iff.mp allDropped other isRecord
  rw [Option.isNone_iff_eq_none] at noUsage
  rw [noUsage] at hasUsage
  cases hasUsage

theorem nameOf_concat :
    nameOf (items ++ [item]) (item.1.key item.2) =
      if item.1.key item.2 ∈ messageKeys items then
        (nameOf items (item.1.key item.2)).or item.1.named
      else if item.1.usage.isSome then item.1.named else none := by
  rw [nameOf, recordsOf_concat_self, List.dropWhile_append]
  by_cases counted : item.1.key item.2 ∈ messageKeys items
  · have notEmpty := dropWhile_of_mem items counted
    rw [if_neg (by simpa using notEmpty), if_pos counted, List.findSome?_append, nameOf]
    simp
  · rw [dropWhile_of_notMem items counted, if_neg counted]
    cases usage : item.1.usage <;> simp [usage]

theorem messageKeys_concat (key : String) :
    key ∈ messageKeys (items ++ [item]) ↔
      key ∈ messageKeys items ∨ (item.1.key item.2 = key ∧ item.1.usage.isSome = true) := by
  simp only [mem_messageKeys]
  by_cases same : item.1.key item.2 = key
  · subst same
    rw [recordsOf_concat_self]
    simp [or_and_right, exists_or]
  · rw [recordsOf_concat_of_ne items item same]
    simp [same]

theorem largest_concat :
    largest (items ++ [item]) (item.1.key item.2) = fun kind =>
      item.1.usage.elim (largest items (item.1.key item.2) kind) fun usage =>
        max (largest items (item.1.key item.2) kind) (countsOf usage kind) := by
  funext kind
  rw [largest, recordsOf_concat_self, List.filterMap_append, List.foldl_append, largest]
  cases usage : item.1.usage <;> simp [usage]

end Concat

theorem largest_of_notMem {items : List (Item Cost)} {key : String}
    (notCounted : key ∉ messageKeys items) (kind : TokenKind) : largest items key kind = 0 := by
  have noneCounts : (recordsOf items key).filterMap
      (fun item => item.1.usage.map (countsOf · kind)) = [] := by
    refine List.filterMap_eq_nil_iff.mpr fun item isRecord => ?_
    rw [Option.map_eq_none_iff]
    by_contra hasUsage
    exact notCounted (mem_messageKeys.mpr ⟨item, isRecord, Option.isSome_iff_ne_none.mpr hasUsage⟩)
  rw [largest, noneCounts]
  rfl

/-- What the loop holds of a message. -/
def heldOf (messages : Ordered String (Named Cost)) (key : String) :
    Option (Counts × Option String) :=
  (messages.get? key).map fun held => (held.message.counts, held.model)

/-- What one record of a message makes of what is held of it. -/
theorem heldOf_readMessage {start end_ : Int} (messages : Ordered String (Named Cost))
    {item : Item Cost} (isInside : item.1.inSpan start end_ = true) :
    heldOf (readMessage start end_ messages item) (item.1.key item.2) =
      item.1.usage.elim
        ((heldOf messages (item.1.key item.2)).map fun held => (held.1, held.2.or item.1.named))
        fun usage =>
          let held := (heldOf messages (item.1.key item.2)).getD (0, none)
          some (fun kind => max (held.1 kind) (countsOf usage kind), held.2.or item.1.named) := by
  simp only [readMessage, isInside, Bool.not_true, Bool.false_eq_true, if_false]
  cases usage : item.1.usage with
  | none =>
    cases found : messages.get? (item.1.key item.2) <;> simp [heldOf, found]
  | some usage =>
    cases found : messages.get? (item.1.key item.2) <;> simp [heldOf, found]

theorem heldOf_readMessage_of_ne {start end_ : Int} (messages : Ordered String (Named Cost))
    {item : Item Cost} {key : String} (other : item.1.key item.2 ≠ key) :
    heldOf (readMessage start end_ messages item) key = heldOf messages key := by
  rw [readMessage]
  dsimp only
  split
  · rfl
  · split
    · rfl
    · rw [heldOf, Ordered.get?_insert_of_ne _ _ (Ne.symm other), heldOf]
    · rw [heldOf, Ordered.get?_insert_of_ne _ _ (Ne.symm other), heldOf]

/-- The loop over the records holds what they say of each message. -/
theorem heldOf_foldl {items : List (Item Cost)} {start end_ : Int}
    (inside : ∀ item ∈ items, item.1.inSpan start end_ = true) (key : String) :
    heldOf (items.foldl (readMessage start end_) .empty) key =
      if key ∈ messageKeys items then some (largest items key, nameOf items key) else none := by
  induction items using List.reverseRecOn generalizing key with
  | nil => simp [heldOf, messageKeys]
  | append_singleton items item inductionHypothesis =>
    have earlier := inductionHypothesis fun other among => inside other (List.mem_append_left _ among)
    have isInside := inside item (List.mem_append_right _ List.mem_cons_self)
    rw [List.foldl_append, List.foldl_cons, List.foldl_nil]
    by_cases same : item.1.key item.2 = key
    · subst same
      rw [heldOf_readMessage _ isInside, earlier]
      simp only [messageKeys_concat, largest_concat, nameOf_concat]
      by_cases counted : item.1.key item.2 ∈ messageKeys items
      · cases usage : item.1.usage <;> simp [counted]
      · cases usage : item.1.usage <;> simp [counted, largest_of_notMem]
    · have isLargest : largest (items ++ [item]) key = largest items key := by
        funext kind
        rw [largest, recordsOf_concat_of_ne items item same, largest]
      have isName : nameOf (items ++ [item]) key = nameOf items key := by
        rw [nameOf, recordsOf_concat_of_ne items item same, nameOf]
      rw [heldOf_readMessage_of_ne _ same, earlier, isLargest, isName]
      simp only [messageKeys_concat, same, false_and, or_false]

/-- A sum over the messages held is the sum over the messages counted. -/
theorem sum_values_readMessage {items : List (Item Cost)} {start end_ : Int}
    (inside : ∀ item ∈ items, item.1.inSpan start end_ = true)
    (amount : Counts × Option String → Int) :
    ((items.foldl (readMessage start end_) .empty).values.map fun named =>
        amount (named.message.counts, named.model)).sum =
      ∑ key ∈ messageKeys items, amount (largest items key, nameOf items key) := by
  have held := heldOf_foldl inside
  have elims : ∀ key, (((items.foldl (readMessage start end_) .empty).get? key).elim 0 fun named =>
      amount (named.message.counts, named.model)) =
        (heldOf (items.foldl (readMessage start end_) .empty) key).elim 0 amount := by
    intro key
    rw [heldOf]
    cases (items.foldl (readMessage start end_) .empty).get? key <;> rfl
  rw [Ordered.sum_values_eq_sum _ _ (messageKeys items) fun key named found => ?_]
  · refine Finset.sum_congr rfl fun key isKey => ?_
    rw [elims, held, if_pos isKey, Option.elim_some]
  · by_contra notCounted
    have isHeld := held key
    rw [if_neg notCounted, heldOf, Option.map_eq_none_iff] at isHeld
    rw [isHeld] at found
    cases found

/-- Counts that are read are those of the numbers there are. -/
theorem readCounts_eq {usage : Value} {counts : Counts} (reads : readCounts usage = some counts) :
    counts = countsOf usage := by
  have number : ∀ key, (count usage key).join = (usage.get key).bind Value.asI64 := by
    intro key
    rw [count]
    cases usage.get key <;> rfl
  rw [readCounts] at reads
  split at reads
  · next input output isInput isOutput =>
    obtain rfl := Option.some.inj reads
    funext kind
    cases kind with
    | input => simp [countsOf, ← number, isInput]
    | output => simp [countsOf, ← number, isOutput]
    | cacheRead => simp [countsOf, ← number]
    | cacheCreation => simp [countsOf, ← number]
  · cases reads

/-- The loop over the records of a span whose usage can be read holds the same messages. -/
theorem usageScan_messages {items : List (Item Cost)} {start end_ : Int}
    (inside : ∀ item ∈ items, item.1.inSpan start end_ = true) {scan : UsageScan Cost}
    (reads : items.foldlM (UsageScan.read start end_) {} = .ok scan) (key : String) :
    scan.messages.get? key =
      ((items.foldl (readMessage start end_) .empty).get? key).map Named.message := by
  induction items using List.reverseRecOn generalizing key scan with
  | nil =>
    cases reads
    rfl
  | append_singleton items item inductionHypothesis =>
    have isInside := inside item (List.mem_append_right _ List.mem_cons_self)
    rw [List.foldlM_append] at reads
    cases before : items.foldlM (UsageScan.read start end_) {} with
    | error fault =>
      rw [before] at reads
      cases reads
    | ok scanned =>
      have earlier := fun key => inductionHypothesis
        (fun other among => inside other (List.mem_append_left _ among)) before key
      rw [before] at reads
      replace reads : UsageScan.read start end_ scanned item >>= pure = .ok scan := reads
      rw [bind_pure] at reads
      rw [List.foldl_append, List.foldl_cons, List.foldl_nil]
      simp only [UsageScan.read, isInside, Bool.not_true, Bool.false_eq_true, if_false] at reads
      simp only [readMessage, isInside, Bool.not_true, Bool.false_eq_true, if_false]
      cases usage : item.1.usage with
      | none =>
        rw [usage] at reads
        obtain rfl := Except.ok.inj reads
        cases found : (items.foldl (readMessage start end_) .empty).get? (item.1.key item.2) with
        | none => exact earlier key
        | some held =>
          dsimp only
          rw [Ordered.get?_insert]
          split
          · next same => rw [same, earlier, found]; rfl
          · exact earlier key
      | some value =>
        rw [usage] at reads
        dsimp only at reads ⊢
        cases counts : readCounts value with
        | none =>
          rw [counts] at reads
          cases reads
        | some read =>
          rw [counts] at reads
          obtain rfl := Except.ok.inj reads
          dsimp only
          rw [Ordered.get?_insert, Ordered.get?_insert, readCounts_eq counts, earlier]
          split
          · cases (items.foldl (readMessage start end_) .empty).get? (item.1.key item.2) <;> rfl
          · exact earlier key

/-! ### The totals to a cut -/

/-- The tokens that totals give to a model. -/
def SpanTotals.ofModel (totals : SpanTotals Cost) (model : String) (kind : TokenKind) : Int :=
  (totals.byModel.find? fun total => total.model = model).elim 0 (·.counts kind)

/-- Totals are those of the messages of some records. -/
structure Totaled (items : List (Item Cost)) (totals : SpanTotals Cost) : Prop where
  fits : ∀ kind, whole items kind ≤ i64Max
  whole : ∀ kind, totals.tokens.counts kind = whole items kind
  names : (totals.byModel.map (·.model)).Nodup
  share : ∀ model kind, totals.ofModel model kind = share items model kind

section Of

variable [Costs Cost]

/-- The messages added to their models give each model the sum of its messages' counts. -/
theorem addMessage_foldl (messages : List (Named Cost)) (model : String) (kind : TokenKind) :
    ((messages.foldl addMessage .empty).get? model).elim 0 (fun total => total.1 kind) =
      wrapped ((messages.map fun named =>
        if named.model.getD modelUnknown = model then named.message.counts kind else 0).sum) := by
  induction messages using List.reverseRecOn with
  | nil =>
    simp only [List.foldl_nil, Ordered.get?_empty, Option.elim_none, List.map_nil, List.sum_nil]
    rfl
  | append_singleton messages named inductionHypothesis =>
    rw [List.foldl_append, List.foldl_cons, List.foldl_nil, List.map_append, List.sum_append,
      addMessage, Ordered.get?_insert]
    by_cases same : model = named.model.getD modelUnknown
    · subst same
      rw [if_pos rfl, Option.elim_some, List.map_singleton, List.sum_singleton, if_pos rfl,
        ← wrapped_add_left, ← inductionHypothesis]
      cases (messages.foldl addMessage .empty).get? (named.model.getD modelUnknown) <;> rfl
    · rw [if_neg same, inductionHypothesis, List.map_singleton, List.sum_singleton,
        if_neg (Ne.symm same), add_zero]

/-- The totals of a span to a cut are those of its records. -/
theorem totaled_of {records : List (TranscriptRecord Cost)} {start end_ : Int}
    {totals : SpanTotals Cost} (isTotals : of records start end_ = .ok totals)
    (fits : ∀ kind, whole (within records start end_) kind ≤ i64Max) :
    Totaled (within records start end_) totals := by
  have inside : ∀ item ∈ within records start end_, item.1.inSpan start end_ = true :=
    fun item among => (List.mem_filter.mp among).2
  have messages : records.zipIdx.foldl (readMessage start end_) .empty =
      (within records start end_).foldl (readMessage start end_) .empty :=
    foldl_filter_kept (fun messages item outside => by simp [readMessage, outside]) _ _
  have bounds : ∀ {number : Int}, 0 ≤ number → number ≤ i64Max → wrapped number = number :=
    fun low high => wrapped_of_fits (by unfold i64Min; omega) high
  unfold of at isTotals
  cases usage : spanUsage records start end_ with
  | error fault =>
    rw [usage] at isTotals
    cases isTotals
  | ok tokens =>
    rw [usage] at isTotals
    obtain rfl := Except.ok.inj isTotals
    refine ⟨fits, fun kind => ?_, ?_, fun model kind => ?_⟩
    · unfold spanUsage at usage
      rw [foldlM_filter_kept UsageScan.read_outside, ← within] at usage
      cases reads : (within records start end_).foldlM (UsageScan.read start end_) {} with
      | error fault =>
        rw [reads] at usage
        cases usage
      | ok scan =>
        have entries := Ordered.entries_eq_map (usageScan_messages inside reads)
        have sums := sum_values_readMessage inside fun held => held.1 kind
        rw [reads] at usage
        simp only [bind, Except.bind] at usage
        split at usage
        · cases usage
        · obtain rfl := Except.ok.inj usage
          dsimp only
          rw [sumCounts_eq, Ordered.values, entries, List.map_map, List.map_map]
          rw [Ordered.values, List.map_map] at sums
          exact (congrArg wrapped sums).trans (bounds (whole_nonneg _ kind) (fits kind))
    · rw [List.map_map]
      exact Ordered.keys_nodup _
    · dsimp only [SpanTotals.ofModel]
      have found : ∀ models : Ordered String (Counts × Option Cost),
          ((models.entries.map fun entry =>
            (⟨entry.1, entry.2.1, entry.2.2⟩ : ModelTokens Cost)).find? fun total =>
              total.model = model).elim 0 (·.counts kind) =
            (models.get? model).elim 0 fun total => total.1 kind := by
        intro models
        rw [List.find?_map, Ordered.get?]
        have same : ((fun total : ModelTokens Cost => decide (total.model = model)) ∘
            fun entry : String × Counts × Option Cost => ⟨entry.1, entry.2.1, entry.2.2⟩) =
            fun entry => decide (entry.1 = model) := rfl
        rw [same]
        cases models.entries.find? fun entry => decide (entry.1 = model) <;> rfl
      refine (found _).trans ?_
      rw [addMessage_foldl, messages, sum_values_readMessage inside fun held =>
        if held.2.getD modelUnknown = model then held.1 kind else 0]
      exact bounds (share_nonneg _ model kind) ((share_le_whole _ model kind).trans (fits kind))

end Of

/-! ### What a cut adds -/

theorem less_eq {now then_ : Int} (nowLow : 0 ≤ now) (nowHigh : now ≤ i64Max) (thenLow : 0 ≤ then_)
    (thenHigh : then_ ≤ i64Max) : less now then_ = max 0 (now - then_) := by
  rw [less, wrapped_of_fits]
  · unfold i64Min i64Max at *
    omega
  · unfold i64Max at *
    omega

namespace Totaled

variable {items : List (Item Cost)} {totals : SpanTotals Cost} (totaled : Totaled items totals)

include totaled

theorem share_bounds (model : String) (kind : TokenKind) :
    0 ≤ totals.ofModel model kind ∧ totals.ofModel model kind ≤ i64Max := by
  rw [totaled.share]
  exact ⟨share_nonneg items model kind, (share_le_whole items model kind).trans (totaled.fits kind)⟩

theorem counts_eq {total : ModelTokens Cost} (member : total ∈ totals.byModel) (kind : TokenKind) :
    total.counts kind = totals.ofModel total.model kind := by
  have found : (totals.byModel.find? fun other => other.model = total.model).isSome = true :=
    List.find?_isSome.mpr ⟨total, member, decide_eq_true rfl⟩
  obtain ⟨other, isOther⟩ := Option.isSome_iff_exists.mp found
  have isModel : other.model = total.model := by simpa using List.find?_some isOther
  have same : other = total := List.inj_on_of_nodup_map totaled.names
    (List.mem_of_find?_eq_some isOther) member isModel
  rw [SpanTotals.ofModel, isOther, Option.elim_some, same]

omit totaled in
theorem ofModel_of_notMem {totals : SpanTotals Cost} {model : String}
    (absent : model ∉ (totals.byModel.map (·.model)).toFinset) (kind : TokenKind) :
    totals.ofModel model kind = 0 := by
  have noneFound : (totals.byModel.find? fun other => other.model = model) = none := by
    refine List.find?_eq_none.mpr fun other member isModel => absent ?_
    rw [List.mem_toFinset, ← of_decide_eq_true isModel]
    exact List.mem_map_of_mem member
  rw [SpanTotals.ofModel, noneFound, Option.elim_none]

/-- All the tokens are those of any models among which the totals' are. -/
theorem whole_eq_sum {models : Finset String}
    (among : (totals.byModel.map (·.model)).toFinset ⊆ models) (kind : TokenKind) :
    Tokens.whole items kind = ∑ model ∈ models, Tokens.share items model kind := by
  have widened : models ⊆ models ∪ (messageKeys items).image (modelOf items) :=
    Finset.subset_union_left
  rw [Finset.sum_subset widened]
  · simp only [Tokens.share]
    rw [Finset.sum_comm, Tokens.whole]
    refine Finset.sum_congr rfl fun key isKey => ?_
    rw [Finset.sum_ite_eq, if_pos (Finset.mem_union_right _ (Finset.mem_image_of_mem _ isKey))]
  · intro model _ notAmong
    rw [← totaled.share]
    exact ofModel_of_notMem (fun isName => notAmong (among isName)) kind

/-- A sum over the totals' models is one over any models among which these are. -/
theorem sum_byModel (amount : String → Int → Int) (none_ : ∀ model, amount model 0 = 0)
    {models : Finset String} (among : (totals.byModel.map (·.model)).toFinset ⊆ models)
    (kind : TokenKind) :
    (totals.byModel.map fun total => amount total.model (total.counts kind)).sum =
      ∑ model ∈ models, amount model (Tokens.share items model kind) := by
  rw [← Finset.sum_subset among, List.sum_toFinset _ totaled.names, List.map_map]
  · refine congrArg List.sum (List.map_congr_left fun total member => ?_)
    rw [Function.comp_apply, totaled.counts_eq member, totaled.share]
  · intro model _ absent
    rw [← totaled.share, ofModel_of_notMem absent, none_]

end Totaled

theorem sum_filterMap {Item Other : Type} (gives : Item → Option Other) (amount : Other → Int)
    (items : List Item) :
    ((items.filterMap gives).map amount).sum = (items.map fun item => (gives item).elim 0 amount).sum := by
  induction items with
  | nil => rfl
  | cons item rest inductionHypothesis =>
    rw [List.filterMap_cons]
    cases given : gives item with
    | none => simp [given, inductionHypothesis]
    | some other => simp [given, inductionHypothesis]

section Since

variable [Costs Cost] {earlier later : List (Item Cost)} {before after : SpanTotals Cost}

/-- What a model's total adds is what it is above the earlier one. -/
theorem modelSince_counts (wasTotaled : Totaled earlier before) (isTotaled : Totaled later after)
    {total : ModelTokens Cost} (member : total ∈ after.byModel) (kind : TokenKind) :
    (modelSince before.byModel total).elim 0 (·.counts kind) =
      max 0 (total.counts kind - before.ofModel total.model kind) := by
  have counted : ∀ kind, 0 ≤ total.counts kind ∧ total.counts kind ≤ i64Max := by
    intro kind
    rw [isTotaled.counts_eq member]
    exact isTotaled.share_bounds total.model kind
  have bounds := fun kind => wasTotaled.share_bounds total.model kind
  rw [modelSince]
  cases found : before.byModel.find? fun other => other.model = total.model with
  | none =>
    have isZero : before.ofModel total.model kind = 0 := by
      rw [SpanTotals.ofModel, found, Option.elim_none]
    rw [isZero, sub_zero, max_eq_right (counted kind).1]
    rfl
  | some other =>
    have isOther : ∀ kind, before.ofModel total.model kind = other.counts kind := by
      intro kind
      rw [SpanTotals.ofModel, found, Option.elim_some]
    have isLess : ∀ kind, less (total.counts kind) (other.counts kind) =
        max 0 (total.counts kind - before.ofModel total.model kind) := by
      intro kind
      have bound := bounds kind
      rw [isOther] at bound ⊢
      exact less_eq (counted kind).1 (counted kind).2 bound.1 bound.2
    dsimp only
    split
    · exact isLess kind
    · rename_i noneMore
      rw [Option.elim_none, ← isLess]
      simp only [List.any_cons, List.any_nil, Bool.or_false, Bool.or_eq_true, decide_eq_true_eq,
        not_or, not_lt] at noneMore
      have notNegative : 0 ≤ less (total.counts kind) (other.counts kind) := le_max_left _ _
      cases kind <;> omega

variable (grows : earlier.Sublist later) (wasTotaled : Totaled earlier before)
  (isTotaled : Totaled later after)

include grows wasTotaled isTotaled

/-- A cut's own tokens are what all messages grew by. -/
theorem counted_since (kind : TokenKind) :
    (after.since (some before)).counted kind = whole later kind - whole earlier kind := by
  show less (after.tokens.counts kind) (before.tokens.counts kind) = _
  rw [isTotaled.whole, wasTotaled.whole, less_eq (whole_nonneg later kind) (isTotaled.fits kind)
    (whole_nonneg earlier kind) (wasTotaled.fits kind)]
  exact max_eq_right (Int.sub_nonneg.mpr (whole_mono grows kind))

/-- A cut's own tokens per model sum to its own tokens just when what leaves each model is made up. -/
theorem since_adds_up_iff :
    (∀ kind, ((after.since (some before)).byModel.map (·.counts kind)).sum =
        (after.since (some before)).counted kind) ↔ MadeUp earlier later := by
  rw [madeUp_iff grows, forall_comm]
  refine forall_congr' fun kind => ?_
  obtain ⟨models, wasAmong, isAmong⟩ : ∃ models : Finset String,
      (before.byModel.map (·.model)).toFinset ⊆ models ∧
        (after.byModel.map (·.model)).toFinset ⊆ models :=
    ⟨_, Finset.subset_union_left, Finset.subset_union_right⟩
  have own : ((after.since (some before)).byModel.map (·.counts kind)).sum =
      ∑ model ∈ models, max 0 (share later model kind - share earlier model kind) := by
    show ((after.byModel.filterMap (modelSince before.byModel)).map (·.counts kind)).sum = _
    rw [sum_filterMap, List.map_congr_left fun total member =>
      modelSince_counts wasTotaled isTotaled member kind]
    refine (isTotaled.sum_byModel
      (fun model count => max 0 (count - before.ofModel model kind)) ?_ isAmong kind).trans ?_
    · intro model
      have bound := (wasTotaled.share_bounds model kind).1
      omega
    · exact Finset.sum_congr rfl fun model _ => by rw [wasTotaled.share]
  rw [own, counted_since grows wasTotaled isTotaled, isTotaled.whole_eq_sum isAmong,
    wasTotaled.whole_eq_sum wasAmong, ← Finset.sum_sub_distrib, eq_comm,
    Finset.sum_eq_sum_iff_of_le fun model _ => le_max_right _ _]
  constructor
  · intro each model
    by_cases isModel : model ∈ models
    · have same := each model isModel
      omega
    · rw [← wasTotaled.share, Totaled.ofModel_of_notMem fun isName => isModel (wasAmong isName)]
      exact share_nonneg later model kind
  · intro each model _
    have isLess := each model
    omega

end Since

/-! ### The cuts of a span -/

/-- A cut of a span: how many records the transcript had, and the time it was cut at. -/
structure CutAt where
  records : Nat
  end_ : Int

/-- The records of a span to a cut. -/
def itemsAt (records : List (TranscriptRecord Cost)) (start : Int) (cut : CutAt) :
    List (Item Cost) :=
  within (records.take cut.records) start cut.end_

/-- Cuts of a transcript that only grows, one after another. -/
def Ascend (cuts : List CutAt) : Prop :=
  cuts.Pairwise fun first second => first.records ≤ second.records ∧ first.end_ ≤ second.end_

theorem itemsAt_mono (records : List (TranscriptRecord Cost)) (start : Int) {first second : CutAt}
    (ascends : first.records ≤ second.records ∧ first.end_ ≤ second.end_) :
    (itemsAt records start first).Sublist (itemsAt records start second) := by
  have fewer : ((records.take first.records).zipIdx).Sublist
      ((records.take second.records).zipIdx) := by
    have taken : records.take first.records <+: records.take second.records :=
      List.take_prefix_take_left ascends.1
    obtain ⟨more, isMore⟩ := taken
    rw [← isMore, List.zipIdx_append]
    exact List.sublist_append_left _ _
  refine (fewer.filter _).trans (List.monotone_filter_right _ fun item inFirst => ?_)
  simp only [TranscriptRecord.inSpan, Bool.and_eq_true, decide_eq_true_eq] at inFirst ⊢
  exact ⟨inFirst.1, inFirst.2.trans_le ascends.2⟩

section Runs

variable [Costs Cost]

/-- The totals of a span's cuts, where the usage can be read at each. -/
def totalsOf (records : List (TranscriptRecord Cost)) (start : Int) (cuts : List CutAt) :
    Except String (List (SpanTotals Cost)) :=
  cuts.mapM fun cut => SpanTotals.of (records.take cut.records) start cut.end_

/-- The own tokens of cuts with these totals add up: for each kind to the last totals, and at each
cut those per model to the cut's own. -/
structure AddsUp (totals : List (SpanTotals Cost)) : Prop where
  kinds : ∀ kind, ((ownOf none totals).map (·.counted kind)).sum =
    totals.getLast?.elim 0 (·.tokens.counts kind)
  models : ∀ own ∈ ownOf none totals, ∀ kind,
    (own.byModel.map (·.counts kind)).sum = own.counted kind

variable {items : List (Item Cost)} {before : SpanTotals Cost} {rest : List (List (Item Cost))}
  {totals : List (SpanTotals Cost)}

/-- From one cut on, the own tokens sum to what the messages grew by. -/
theorem sum_ownOf (growing : (items :: rest).Pairwise List.Sublist) (wasTotaled : Totaled items before)
    (areTotaled : List.Forall₂ Totaled rest totals) (kind : TokenKind) :
    before.tokens.counts kind + ((ownOf (some before) totals).map (·.counted kind)).sum =
      (totals.getLast?.getD before).tokens.counts kind := by
  induction areTotaled generalizing items before with
  | nil => simp [ownOf]
  | @cons later after rest totals isTotaled _ inductionHypothesis =>
    obtain ⟨grows, growingRest⟩ := List.pairwise_cons.mp growing
    have further := inductionHypothesis growingRest isTotaled
    rw [ownOf, List.map_cons, List.sum_cons,
      counted_since (grows later List.mem_cons_self) wasTotaled isTotaled, List.getLast?_cons,
      Option.getD_some, ← further, wasTotaled.whole, isTotaled.whole]
    ring

/-- From one cut on, the own tokens per model sum to the own tokens just when what leaves a model is
made up from each cut to the next. -/
theorem ownOf_adds_up_iff (growing : (items :: rest).Pairwise List.Sublist)
    (wasTotaled : Totaled items before) (areTotaled : List.Forall₂ Totaled rest totals) :
    (∀ own ∈ ownOf (some before) totals, ∀ kind,
        (own.byModel.map (·.counts kind)).sum = own.counted kind) ↔
      (items :: rest).IsChain MadeUp := by
  induction areTotaled generalizing items before with
  | nil => simp [ownOf]
  | @cons later after rest totals isTotaled _ inductionHypothesis =>
    obtain ⟨grows, growingRest⟩ := List.pairwise_cons.mp growing
    rw [ownOf, List.forall_mem_cons, List.isChain_cons_cons,
      since_adds_up_iff (grows later List.mem_cons_self) wasTotaled isTotaled,
      inductionHypothesis growingRest isTotaled]

/-- Totals of cuts add up just when what leaves a model is made up from each cut to the next. -/
theorem totals_addsUp_iff {cuts : List (List (Item Cost))}
    (growing : cuts.Pairwise List.Sublist) (areTotaled : List.Forall₂ Totaled cuts totals) :
    AddsUp totals ↔ cuts.IsChain MadeUp := by
  cases areTotaled with
  | nil => exact iff_of_true ⟨fun _ => rfl, fun own isOwn => by cases isOwn⟩ List.isChain_nil
  | @cons items first rest totals isTotaled areTotaled =>
    rw [← ownOf_adds_up_iff growing isTotaled areTotaled]
    have kinds : ∀ kind, ((ownOf none (first :: totals)).map (·.counted kind)).sum =
        (first :: totals).getLast?.elim 0 (·.tokens.counts kind) := by
      intro kind
      rw [ownOf, List.map_cons, List.sum_cons, List.getLast?_cons, Option.elim_some,
        ← sum_ownOf growing isTotaled areTotaled kind]
      rfl
    have firstAddsUp : ∀ kind, ((first.since none).byModel.map (·.counts kind)).sum =
        (first.since none).counted kind := by
      intro kind
      show (first.byModel.map (·.counts kind)).sum = first.tokens.counts kind
      rw [isTotaled.whole, isTotaled.whole_eq_sum subset_rfl]
      exact isTotaled.sum_byModel (fun _ count => count) (fun _ => rfl) subset_rfl kind
    refine ⟨fun addsUp own isOwn => addsUp.models own (List.mem_cons_of_mem _ isOwn),
      fun later => ⟨kinds, List.forall_mem_cons.mpr ⟨firstAddsUp, later⟩⟩⟩

theorem forall₂_totalsOf {records : List (TranscriptRecord Cost)} {start : Int}
    {cuts : List CutAt} (readable : totalsOf records start cuts = .ok totals)
    (fits : ∀ cut ∈ cuts, ∀ kind, whole (itemsAt records start cut) kind ≤ i64Max) :
    List.Forall₂ Totaled (cuts.map (itemsAt records start)) totals := by
  induction cuts generalizing totals with
  | nil =>
    obtain rfl := Except.ok.inj readable
    exact List.Forall₂.nil
  | cons cut rest inductionHypothesis =>
    obtain ⟨fitsCut, fitsRest⟩ := List.forall_mem_cons.mp fits
    rw [totalsOf, List.mapM_cons] at readable
    cases isFirst : SpanTotals.of (records.take cut.records) start cut.end_ with
    | error fault =>
      rw [isFirst] at readable
      cases readable
    | ok first =>
      cases areLater : totalsOf records start rest with
      | error fault =>
        rw [totalsOf] at areLater
        rw [isFirst, areLater] at readable
        cases readable
      | ok later =>
        have isRest := inductionHypothesis areLater fitsRest
        rw [totalsOf] at areLater
        rw [isFirst, areLater] at readable
        obtain rfl := Except.ok.inj readable
        exact List.Forall₂.cons (totaled_of isFirst fitsCut) isRest

/-- Of a growing transcript's ascending cuts at which the usage can be read and the sums fit in 64
bits, the own tokens add up just when from each cut to the next what leaves a model is made up by
what comes to it. -/
theorem addsUp_iff (records : List (TranscriptRecord Cost)) (start : Int) (cuts : List CutAt)
    (ascend : Ascend cuts) (readable : totalsOf records start cuts = .ok totals)
    (fits : ∀ cut ∈ cuts, ∀ kind, whole (itemsAt records start cut) kind ≤ i64Max) :
    AddsUp totals ↔ cuts.IsChain fun first second =>
      MadeUp (itemsAt records start first) (itemsAt records start second) := by
  have growing : (cuts.map (itemsAt records start)).Pairwise List.Sublist :=
    List.pairwise_map.mpr (ascend.imp fun ascends => itemsAt_mono records start ascends)
  rw [totals_addsUp_iff growing (forall₂_totalsOf readable fits), List.isChain_map]

end Runs

/-! ### A message named late -/

/-- A record of the message `m` that counts five tokens of input and one of output. -/
def fiveOne (at_ : Int) (model : Option String) : TranscriptRecord Int where
  at_ := at_
  usage := some (.object [("input_tokens", .int 5), ("output_tokens", .int 1)])
  messageId := some "m"
  model := model

/-- A message whose second record names its model first. -/
def namedLate : List (TranscriptRecord Int) := [fiveOne 0 none, fiveOne 10 (some "opus")]

/-- Cut between the two records, the second cut's own tokens are none, yet those of the model named
are all of the message's. -/
theorem namedLate_not_addsUp :
    Ascend [⟨1, 5⟩, ⟨2, 20⟩] ∧
      ∃ totals, totalsOf namedLate 0 [⟨1, 5⟩, ⟨2, 20⟩] = .ok totals ∧ ¬ AddsUp totals := by
  refine ⟨List.pairwise_pair.mpr ⟨by decide, by decide⟩, _, rfl, fun addsUp => ?_⟩
  have wrong := addsUp.models _ (List.mem_cons_of_mem _ List.mem_cons_self) .input
  revert wrong
  decide +kernel

/-- A message whose first record names its model. -/
def namedFirst : List (TranscriptRecord Int) := [fiveOne 0 (some "opus"), fiveOne 10 none]

/-- Cut between the two records, the own tokens add up. -/
theorem addsUp_namedFirst :
    ∃ totals, totalsOf namedFirst 0 [⟨1, 5⟩, ⟨2, 20⟩] = .ok totals ∧ AddsUp totals := by
  refine ⟨_, rfl, (addsUp_iff namedFirst 0 [⟨1, 5⟩, ⟨2, 20⟩] ?_ rfl ?_).mpr ?_⟩
  · exact List.pairwise_pair.mpr ⟨by decide, by decide⟩
  · intro cut isCut kind
    fin_cases isCut <;> cases kind <;> decide +kernel
  · refine List.isChain_pair.mpr (madeUp_of_same (itemsAt_mono namedFirst 0 ⟨by decide, by decide⟩) ?_)
    decide +kernel

end Dagq.Tokens
