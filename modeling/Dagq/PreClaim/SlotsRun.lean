/-
This file proves what a supervisor's records, its process and the book of the waits
tell of its full slots over a whole run of its passes. The process's classes, those
the newest record leaves open and those the book holds are the same but for the
classes taken from a guess and not recorded since.
-/

import Dagq.PreClaim.Alike
import Dagq.PreClaim.SlotsFull

namespace Dagq.PreClaim

open Dagq.Lib Dagq.Ledger

/-! ### What an event does in a supervisor's class of slots -/

namespace Book

theorem wake_heldBy {book : Book} {upto : Nat} (holds : Held book upto) (event : RunEvent)
    (place : Place) : (book.wake event).heldBy place = book.heldBy place := by
  unfold wake
  split
  · rename_i supervisor _
    rw [holds.reopen]
    exact (reachClass_heldBy _ _ _ _ _).trans (reachClass_heldBy _ _ _ _ _)
  · rfl

theorem add_heldBy (book : Book) (event : RunEvent) (place : Place) :
    (book.add event).heldBy place =
      ((book.wake event).take event ((book.wake event).turn event)).heldBy place := by
  rw [add_eq, (addLanding_same _ event).heldBy, (name_same _ event).heldBy]

/-- An event that records nothing of a supervisor's class changes nothing there. -/
theorem add_heldBy_of_ne {book : Book} {upto : Nat} (holds : Held book upto) {event : RunEvent}
    (fresh : upto ≤ event.id) {token : String} {slotClass : SlotClass}
    (notItsOwn : slotsFullOf event ≠ some (token, slotClass)) :
    (book.add event).heldBy (.slot token slotClass) = book.heldBy (.slot token slotClass) := by
  have woken := holds.wake event
  rw [add_heldBy, ← wake_heldBy holds event]
  cases taken : (book.wake event).turn event with
  | none => rfl
  | some turn =>
    refine (take_elsewhere woken fresh (turn_fits taken) fun isPlace => ?_).1
    rcases turn_cases event with ⟨slots, _⟩ | ⟨hold, _⟩ | deferral
    · have isSlots := (slots (book.wake event)).1.symm.trans taken
      unfold slotsTurn at isSlots
      split at isSlots
      next => cases isSlots
      next supervisor named isOf =>
        have place : turn.place = .slot supervisor named := by
          split at isSlots
          · split at isSlots
            · cases isSlots
            · rw [← Option.some.inj isSlots]
          · rw [← Option.some.inj isSlots]
        obtain ⟨rfl, rfl⟩ := Place.slot.inj (isPlace.trans place)
        exact notItsOwn isOf
    · have place := holdTurn_place ((hold (book.wake event)).1.symm.trans taken)
      cases isPlace.trans place
    · obtain ⟨_, place⟩ := deferralTurn_place ((deferral (book.wake event)).1.symm.trans taken)
      cases isPlace.trans place

theorem slotsFullOf_kind {event : RunEvent} {key : String × SlotClass}
    (isOf : slotsFullOf event = some key) :
    event.kind = .slotsFullStarted ∨ event.kind = .slotsFullEnded := by
  unfold slotsFullOf at isOf
  split at isOf
  next isKind => exact isKind
  next => cases isOf

/-- A record of a supervisor's class leaves it open if it is a start, and not if it is an end. -/
theorem add_heldBy_of_eq {book : Book} {upto : Nat} (holds : Held book upto) {event : RunEvent}
    {token : String} {slotClass : SlotClass}
    (itsOwn : slotsFullOf event = some (token, slotClass)) :
    (book.add event).heldBy (.slot token slotClass) ≠ none ↔ event.kind = .slotsFullStarted := by
  have slots : (book.wake event).turn event = (book.wake event).slotsTurn event := by
    unfold turn
    rcases slotsFullOf_kind itsOwn with kind | kind <;> rw [kind]
  rw [add_heldBy, slots]
  unfold slotsTurn
  rw [itsOwn]
  dsimp only
  by_cases isStart : event.kind = .slotsFullStarted
  · rw [if_pos isStart, iff_true_right isStart]
    cases held : (book.wake event).heldBy (.slot token slotClass) with
    | some start =>
      dsimp only
      rw [take_none, held]
      exact Option.some_ne_none start
    | none =>
      have started : ((book.wake event).take event (some ⟨.slot token slotClass, none,
          some (.full event token slotClass)⟩)).heldBy (.slot token slotClass) =
          some event.id := by
        show ((book.wake event).startWait (.slot token slotClass) event
          (.full event token slotClass)).heldBy _ = _
        rw [heldBy_startWait, if_pos rfl]
      rw [started]
      exact Option.some_ne_none _
  · rw [if_neg isStart, iff_false_right isStart, not_ne_iff]
    exact ((holds.wake event).endWait _ _ _ _).2

end Book

/-! ### What a record of its own says -/

theorem of_asStr (slotClass : SlotClass) : SlotClass.of slotClass.asStr = some slotClass := by
  cases slotClass <;> decide

/-- The record of a change as it is made. -/
def recordOf (token : String) (attempt : Attempt) (change : EventKind × SlotClass)
    (after : Finset SlotClass) : RunEvent where
  id := attempt.id
  kind := change.1
  payload := slotsFullPayload token change.2 after attempt.running attempt.slots
  createdAt := attempt.createdAt

theorem mapM_asStr (classes : List SlotClass) :
    (classes.map fun slotClass => Value.text slotClass.asStr).mapM
      (fun item : Value => item.asStr.bind SlotClass.of) = some classes := by
  induction classes with
  | nil => rfl
  | cons slotClass rest inductionHypothesis =>
    rw [List.map_cons, List.mapM_cons, inductionHypothesis]
    show (SlotClass.of slotClass.asStr >>= fun one => some rest >>= fun others =>
      some (one :: others)) = _
    rw [of_asStr]
    rfl

variable {token : String} {attempt : Attempt} {change : EventKind × SlotClass}
  {after : Finset SlotClass}

theorem recordedOpen_recordOf : recordedOpen (recordOf token attempt change after) = some after := by
  have isOpen : (recordOf token attempt change after).payload.get "open" =
      some (.list ((SlotClass.every.filter (· ∈ after)).map fun slotClass =>
        .text slotClass.asStr)) := by
    simp [recordOf, slotsFullPayload, Value.get]
  unfold recordedOpen
  rw [isOpen]
  show Option.map List.toFinset (List.mapM _ _) = _
  rw [mapM_asStr, Option.map_some, Option.some.injEq]
  ext slotClass
  rw [List.mem_toFinset, List.mem_filter, decide_eq_true_iff]
  exact and_iff_right (by cases slotClass <;> decide)

theorem text_recordOf : (recordOf token attempt change after).text "supervisor" = some token := by
  simp [recordOf, slotsFullPayload, RunEvent.text, Value.get, Value.asStr]

theorem slotsFullOf_recordOf
    (isChange : change.1 = .slotsFullStarted ∨ change.1 = .slotsFullEnded) :
    Book.slotsFullOf (recordOf token attempt change after) = some (token, change.2) := by
  have class_ : (recordOf token attempt change after).text "class" = some change.2.asStr := by
    simp [recordOf, slotsFullPayload, RunEvent.text, Value.get, Value.asStr]
  have isKind : (recordOf token attempt change after).kind = .slotsFullStarted ∨
      (recordOf token attempt change after).kind = .slotsFullEnded := isChange
  unfold Book.slotsFullOf
  rw [if_pos isKind, text_recordOf, class_, Option.bind_some, of_asStr]
  rfl

theorem isSlotsFull_recordOf
    (isChange : change.1 = .slotsFullStarted ∨ change.1 = .slotsFullEnded) :
    IsSlotsFull token (recordOf token attempt change after) := ⟨isChange, text_recordOf⟩

theorem isSlotsFull_of {event : RunEvent} {slotClass : SlotClass}
    (isOf : Book.slotsFullOf event = some (token, slotClass)) : IsSlotsFull token event := by
  have isKind := Book.slotsFullOf_kind isOf
  refine ⟨isKind, ?_⟩
  unfold Book.slotsFullOf at isOf
  rw [if_pos isKind] at isOf
  obtain ⟨supervisor, named, isOf⟩ := Option.bind_eq_some_iff.mp isOf
  obtain ⟨_, _, isOf⟩ := Option.bind_eq_some_iff.mp isOf
  rw [named, (Prod.mk.inj (Option.some.inj isOf)).1]

/-! ### The newest record -/

variable {events : List RunEvent} {event : RunEvent}

theorem newestOf_append_own (itsOwn : IsSlotsFull token event) :
    newestOf (events ++ [event]) token = some event := by
  unfold newestOf
  rw [List.filter_append, List.filter_cons_of_pos (by simpa using itsOwn), List.filter_nil,
    List.getLast?_concat]

theorem newestOf_append_other (other : ¬IsSlotsFull token event) :
    newestOf (events ++ [event]) token = newestOf events token := by
  unfold newestOf
  rw [List.filter_append, List.filter_cons_of_neg (by simpa using other), List.filter_nil,
    List.append_nil]

theorem mem_of_newestOf (newest : newestOf events token = some event) :
    event ∈ events ∧ IsSlotsFull token event := by
  have isLast := List.mem_filter.mp (List.mem_of_getLast? newest)
  exact ⟨isLast.1, by simpa using isLast.2⟩

theorem eq_of_id (ascending : Ascending events) {first second : RunEvent} (inFirst : first ∈ events)
    (inSecond : second ∈ events) (same : first.id = second.id) : first = second := by
  have distinct : (events.map (·.id)).Nodup :=
    List.pairwise_map.mpr (ascending.imp fun before equal => before.ne equal)
  exact List.inj_on_of_nodup_map distinct inFirst inSecond same

/-- The classes the newest record of a supervisor leaves open, none for one without records, when
it says so. -/
def toldOpen (events : List RunEvent) (token : String) : Option (Finset SlotClass) :=
  match newestOf events token with
  | none => some ∅
  | some event => recordedOpen event

theorem heavySlotsFree_of_told {tokens : List String} (ascending : Ascending events)
    (among : token ∈ tokens) {open_ : Finset SlotClass}
    (told : toldOpen events token = some open_) :
    heavySlotsFree (latestEventsBySupervisor events tokens) token = true ↔ .heavy ∉ open_ := by
  have ofToken : ((latestEventsBySupervisor events tokens).filter fun event =>
      event.text "supervisor" = some token) = (newestOf events token).toList := by
    refine @eq_of_ascending_of_mem_iff _ _ _ (fun event : RunEvent => event.id) _ _
      ((ascending.filter _).filter _) ?_ fun event => ?_
    · cases newestOf events token with
      | none => exact List.Pairwise.nil
      | some event => exact List.pairwise_singleton _ _
    · rw [latestEventsBySupervisor, List.mem_filter, List.mem_filter, Option.mem_toList,
        List.any_eq_true, decide_eq_true_iff]
      constructor
      · rintro ⟨⟨isEvent, other, _, hasId⟩, named⟩
        obtain ⟨newest, isNewest, sameId⟩ :=
          Option.map_eq_some_iff.mp (of_decide_eq_true hasId)
        obtain ⟨inEvents, itsOwn⟩ := mem_of_newestOf isNewest
        obtain rfl := eq_of_id ascending inEvents isEvent sameId
        rw [Option.some.inj (named.symm.trans itsOwn.2)]
        exact isNewest
      · intro isNewest
        obtain ⟨inEvents, itsOwn⟩ := mem_of_newestOf isNewest
        refine ⟨⟨inEvents, token, among, ?_⟩, itsOwn.2⟩
        rw [isNewest]
        exact decide_eq_true rfl
  unfold heavySlotsFree
  rw [ofToken]
  unfold toldOpen at told
  cases newest : newestOf events token with
  | none =>
    rw [newest] at told
    obtain rfl := Option.some.inj told
    simp
  | some event =>
    rw [newest] at told
    dsimp only at told
    simp [laterOf, told]

/-! ### What the book holds not freed -/

/-- The classes of a supervisor whose slots-full waits a book holds not freed. -/
def notFreed (book : Book) (token : String) : Finset SlotClass :=
  Finset.univ.filter fun slotClass => ∃ row ∈ book.rows, row.1.kind = .slotsFull ∧
    row.1.supervisor = some token ∧ row.1.class_ = some slotClass ∧
    row.1.end_ ≠ some endedFreed

/-- Every slots-full wait an event ended is freed. -/
def FreedAlone (book : Book) : Prop :=
  ∀ id row, book.closed.get? id = some row → row.1.kind = .slotsFull →
    row.1.end_ = some endedFreed

/-- A turn that ends slots full frees them. -/
theorem turn_frees {book : Book} {event : RunEvent} {turn : Turn}
    (taken : book.turn event = some turn) {why : String} {by_ : Option String}
    (ends : turn.ends = some (why, by_)) {interval : PreClaimInterval}
    (ofPlace : interval.Of turn.place) (isSlots : interval.kind = .slotsFull) :
    why = endedFreed := by
  rcases Book.turn_cases event with ⟨slots, _⟩ | ⟨hold, _⟩ | deferral
  · have isTurn := (slots book).1.symm.trans taken
    unfold Book.slotsTurn at isTurn
    split at isTurn
    · cases isTurn
    · split at isTurn
      · split at isTurn
        · cases isTurn
        · rw [← Option.some.inj isTurn] at ends
          cases ends
      · rw [← Option.some.inj isTurn] at ends
        exact (Prod.mk.inj (Option.some.inj ends)).1.symm
  · rw [Book.holdTurn_place ((hold book).1.symm.trans taken)] at ofPlace
    cases isSlots.symm.trans ofPlace
  · obtain ⟨_, place⟩ := Book.deferralTurn_place ((deferral book).1.symm.trans taken)
    rw [place] at ofPlace
    cases isSlots.symm.trans ofPlace.1

theorem wake_closed {book : Book} {upto : Nat} (holds : Book.Held book upto) (event : RunEvent) :
    (book.wake event).closed = book.closed := by
  unfold Book.wake
  split
  · rename_i supervisor _
    rw [holds.reopen]
    exact (Book.reachClass_spec _ _ _ _).1.trans (Book.reachClass_spec _ _ _ _).1
  · rfl

theorem freedAlone_add {book : Book} {upto : Nat} (holds : Book.Held book upto)
    (freed : FreedAlone book) (event : RunEvent) : FreedAlone (book.add event) := by
  have woken := holds.wake event
  unfold FreedAlone at freed ⊢
  rw [← wake_closed holds event] at freed
  rw [Book.add_eq, (Book.addLanding_same _ event).closed, (Book.name_same _ event).closed]
  cases taken : (book.wake event).turn event with
  | none => exact freed
  | some turn =>
    have started : ((book.wake event).take event (some turn)).closed =
        ((book.wake event).endTurn event turn).closed := by
      show (((book.wake event).endTurn event turn).startTurn event turn).closed = _
      unfold Book.startTurn
      split
      · exact Book.closed_occupy _ _ _
      · rfl
    rw [started]
    unfold Book.endTurn
    cases ends : turn.ends with
    | none => exact freed
    | some why =>
      cases held : (book.wake event).heldBy turn.place with
      | none =>
        dsimp only
        rw [Book.endWait_of_none held]
        exact freed
      | some start =>
        obtain ⟨interval, ofPlace, found, _⟩ := woken.kept held
        dsimp only
        rw [(Book.endWait_waits held found event why.1 why.2).2]
        intro id row isRow isSlots
        rw [Ordered.get?_insert] at isRow
        split at isRow
        · obtain rfl := Option.some.inj isRow
          exact congrArg some (turn_frees taken ends ofPlace isSlots)
        · exact freed id row isRow isSlots

theorem mem_notFreed {book : Book} {upto : Nat} (holds : Book.Held book upto)
    (freed : FreedAlone book) {slotClass : SlotClass} :
    slotClass ∈ notFreed book token ↔ book.heldBy (.slot token slotClass) ≠ none := by
  unfold notFreed
  rw [Finset.mem_filter, and_iff_right (Finset.mem_univ _)]
  constructor
  · rintro ⟨row, among, isKind, isSupervisor, isClass, isOpen⟩
    have kept := ((rows_spec holds).2 row).mp among
    unfold Book.kept at kept
    split at kept
    next other closed =>
      obtain rfl := Option.some.inj kept
      exact absurd (freed _ _ closed isKind) isOpen
    next =>
      obtain ⟨interval, opened, rfl⟩ := Option.map_eq_some_iff.mp kept
      have held := (holds.held (.slot token slotClass) interval.id).mpr
        ⟨interval, opened, isKind, isSupervisor, isClass⟩
      rw [held]
      exact Option.some_ne_none _
  · intro isHeld
    obtain ⟨start, held⟩ := Option.ne_none_iff_exists'.mp isHeld
    obtain ⟨interval, ⟨isKind, isSupervisor, isClass⟩, opened, kept⟩ := holds.kept held
    have isId := (holds.openId start interval opened).1
    refine ⟨(interval, none), ((rows_spec holds).2 _).mpr (by rw [isId]; exact kept), isKind,
      isSupervisor, isClass, ?_⟩
    have notEnded := holds.unended start interval opened
    rw [← notEnded]
    exact nofun

theorem freedAlone_of (ascending : Ascending events) : FreedAlone (Book.of events) := by
  induction events using List.reverseRecOn with
  | nil => exact fun _ _ isRow => by cases isRow
  | append_singleton events event inductionHypothesis =>
    rw [Ascending, List.pairwise_append] at ascending
    rw [Book.of, List.foldl_append]
    exact freedAlone_add (held_of ascending.1 fun earlier member =>
      ascending.2.2 earlier member event List.mem_cons_self) (inductionHypothesis ascending.1) event

/-- The book holds a class of a supervisor open. -/
def HoldsOpen (events : List RunEvent) (token : String) (slotClass : SlotClass) : Prop :=
  (Book.of events).heldBy (.slot token slotClass) ≠ none

theorem mem_notFreed_of (ascending : Ascending events) {slotClass : SlotClass} :
    slotClass ∈ notFreed (Book.of events) token ↔ HoldsOpen events token slotClass := by
  obtain ⟨upto, below⟩ := ids_below events
  exact mem_notFreed (held_of ascending below) (freedAlone_of ascending)

theorem holdsOpen_append (ascending : Ascending (events ++ [event])) (slotClass : SlotClass) :
    (Book.slotsFullOf event ≠ some (token, slotClass) →
      (HoldsOpen (events ++ [event]) token slotClass ↔ HoldsOpen events token slotClass)) ∧
    (Book.slotsFullOf event = some (token, slotClass) →
      (HoldsOpen (events ++ [event]) token slotClass ↔ event.kind = .slotsFullStarted)) := by
  rw [Ascending, List.pairwise_append] at ascending
  have holds := held_of ascending.1 fun earlier member =>
    ascending.2.2 earlier member event List.mem_cons_self
  unfold HoldsOpen
  rw [Book.of, List.foldl_append]
  exact ⟨fun notItsOwn => by
      rw [← Book.add_heldBy_of_ne holds le_rfl notItsOwn]
      rfl,
    fun itsOwn => Book.add_heldBy_of_eq holds itsOwn⟩

/-! ### What is taken from a guess -/

/-- The classes taken from a guess and not recorded since, of those the process takes to be open or
not and of those the newest record leaves open or not. -/
structure Guess where
  process : Finset SlotClass := ∅
  newest : Finset SlotClass := ∅

namespace Guess

/-- A change recorded is guessed no more. -/
def record (attempts : SlotClass → Attempt) (guess : Guess) (change : EventKind × SlotClass) :
    Guess :=
  if (attempts change.2).made then
    { process := guess.process.erase change.2, newest := guess.process.erase change.2 }
  else guess

/-- A process that cannot read what its newest record leaves open guesses every class. -/
def opening (guess : Guess) (passing : Passing) (token : String) (readFails : Bool) : Guess :=
  match passing.slotsFull with
  | some _ => guess
  | none =>
    { guess with
      process := if readFails = true ∨ toldOpen passing.events token = none then Finset.univ
        else guess.newest }

def step (token : String) (passing : Passing) (guess : Guess) : Passing.Step → Guess
  | .pass readFails full attempts =>
    (slotsFullChanges (passing.opening token readFails full) full).foldl (record attempts)
      (guess.opening passing token readFails)
  | _ => guess

end Guess

/-- The pass finds each class guessed and not recorded since in another state than the guess. -/
def Heeds (token : String) (passing : Passing) (guess : Guess) : Passing.Step → Prop
  | .pass readFails full _ =>
    ∀ slotClass ∈ (guess.opening passing token readFails).process,
      (slotClass ∈ full ↔ slotClass ∉ passing.opening token readFails full)
  | _ => True

/-- Every pass of a run does. -/
def Heeded (token : String) : Passing → Guess → List Passing.Step → Prop
  | _, _, [] => True
  | passing, guess, step :: rest =>
    Heeds token passing guess step ∧
      Heeded token (passing.step token step) (guess.step token passing step) rest

instance (token : String) (passing : Passing) (guess : Guess) (step : Passing.Step) :
    Decidable (Heeds token passing guess step) :=
  match step with
  | .pass readFails full _ => inferInstanceAs (Decidable (∀ slotClass ∈
      (guess.opening passing token readFails).process,
        (slotClass ∈ full ↔ slotClass ∉ passing.opening token readFails full)))
  | .replaced => isTrue trivial
  | .others _ => isTrue trivial

instance decidableHeeded (token : String) : (passing : Passing) → (guess : Guess) →
    (steps : List Passing.Step) → Decidable (Heeded token passing guess steps)
  | _, _, [] => isTrue trivial
  | passing, guess, step :: rest =>
    let _ := decidableHeeded token (passing.step token step) (guess.step token passing step) rest
    inferInstanceAs (Decidable (_ ∧ _))

/-! ### A pass -/

/-- What the process takes to be open, what its newest record leaves open and what the book holds
are the same but for what is guessed. -/
structure Consistent (token : String) (events : List RunEvent) (open_ : Finset SlotClass)
    (guess : Guess) : Prop where
  process : ∀ slotClass ∉ guess.process, (slotClass ∈ open_ ↔ HoldsOpen events token slotClass)
  tells : guess.process ≠ Finset.univ → toldOpen events token = some open_

/-- The same of the newest record alone. -/
def Told (token : String) (events : List RunEvent) (guess : Guess) : Prop :=
  ∀ open_, toldOpen events token = some open_ → guess.newest ≠ Finset.univ ∧
    ∀ slotClass ∉ guess.newest, (slotClass ∈ open_ ↔ HoldsOpen events token slotClass)

/-- Nothing another supervisor records changes what the newest record and the book tell. -/
theorem tells_others {others : List RunEvent}
    (notItsOwn : ∀ event ∈ others, ¬IsSlotsFull token event)
    (ascending : Ascending (events ++ others)) :
    newestOf (events ++ others) token = newestOf events token ∧
      ∀ slotClass, HoldsOpen (events ++ others) token slotClass ↔
        HoldsOpen events token slotClass := by
  induction others using List.reverseRecOn with
  | nil =>
    rw [List.append_nil]
    exact ⟨rfl, fun _ => Iff.rfl⟩
  | append_singleton others event inductionHypothesis =>
    rw [← List.append_assoc] at ascending ⊢
    obtain ⟨newest, holds⟩ := inductionHypothesis
      (fun earlier among => notItsOwn earlier (List.mem_append_left _ among))
      (List.pairwise_append.mp ascending).1
    have other := notItsOwn event (List.mem_append_right _ List.mem_cons_self)
    have notOf (slotClass : SlotClass) : Book.slotsFullOf event ≠ some (token, slotClass) :=
      fun isOf => other (isSlotsFull_of isOf)
    exact ⟨(newestOf_append_other other).trans newest, fun slotClass =>
      ((holdsOpen_append ascending slotClass).1 (notOf slotClass)).trans (holds slotClass)⟩

variable {attempts : SlotClass → Attempt} {open_ : Finset SlotClass} {guess : Guess}

/-- One change tried: recorded it is open or not as it says, not recorded nothing changes but for
the events of others before it. -/
theorem recordChange_tryRecord (change : EventKind × SlotClass) :
    recordChange (tryRecord token attempts) (open_, events) change =
      if (attempts change.2).made then
        (afterChange open_ change, events ++ (attempts change.2).others ++
          [recordOf token (attempts change.2) change (afterChange open_ change)])
      else (open_, events ++ (attempts change.2).others) := by
  unfold recordChange tryRecord
  dsimp only
  split
  · rfl
  · rfl

theorem mem_afterChange (change : EventKind × SlotClass) (slotClass : SlotClass) :
    slotClass ∈ afterChange open_ change ↔
      if slotClass = change.2 then change.1 = .slotsFullStarted else slotClass ∈ open_ := by
  unfold afterChange
  by_cases isStart : change.1 = .slotsFullStarted <;>
    by_cases same : slotClass = change.2 <;> simp [isStart, same]

theorem consistent_record {change : EventKind × SlotClass}
    (isChange : change.1 = .slotsFullStarted ∨ change.1 = .slotsFullEnded)
    (notItsOwn : ∀ event ∈ (attempts change.2).others, ¬IsSlotsFull token event)
    (ascending : Ascending
      (recordChange (tryRecord token attempts) (open_, events) change).2)
    (consistent : Consistent token events open_ guess) (told : Told token events guess) :
    Consistent token (recordChange (tryRecord token attempts) (open_, events) change).2
        (recordChange (tryRecord token attempts) (open_, events) change).1
        (guess.record attempts change) ∧
      Told token (recordChange (tryRecord token attempts) (open_, events) change).2
        (guess.record attempts change) := by
  rw [recordChange_tryRecord] at ascending ⊢
  unfold Guess.record
  by_cases made : (attempts change.2).made = true
  · rw [if_pos made] at ascending ⊢
    rw [if_pos made]
    dsimp only at ascending ⊢
    obtain ⟨_, kept⟩ := tells_others notItsOwn (List.pairwise_append.mp ascending).1
    have itsOwn := @isSlotsFull_recordOf token (attempts change.2) change
      (afterChange open_ change) isChange
    have isOf := @slotsFullOf_recordOf token (attempts change.2) change
      (afterChange open_ change) isChange
    have tells : toldOpen (events ++ (attempts change.2).others ++
        [recordOf token (attempts change.2) change (afterChange open_ change)]) token =
        some (afterChange open_ change) := by
      unfold toldOpen
      rw [newestOf_append_own itsOwn]
      exact recordedOpen_recordOf
    have process : ∀ slotClass ∉ guess.process.erase change.2,
        (slotClass ∈ afterChange open_ change ↔
          HoldsOpen (events ++ (attempts change.2).others ++
            [recordOf token (attempts change.2) change (afterChange open_ change)]) token
            slotClass) := by
      intro slotClass notGuessed
      rw [mem_afterChange]
      by_cases same : slotClass = change.2
      · rw [if_pos same, ((holdsOpen_append ascending slotClass).2 (same ▸ isOf))]
        exact Iff.rfl
      · have notOf : Book.slotsFullOf (recordOf token (attempts change.2) change
            (afterChange open_ change)) ≠ some (token, slotClass) := by
          rw [isOf]
          exact fun equal => same (Prod.mk.inj (Option.some.inj equal)).2.symm
        rw [if_neg same, (holdsOpen_append ascending slotClass).1 notOf, kept]
        exact consistent.process slotClass fun guessed =>
          notGuessed (Finset.mem_erase.mpr ⟨same, guessed⟩)
    refine ⟨⟨process, fun _ => tells⟩, fun other isTold => ?_⟩
    obtain rfl := Option.some.inj (tells.symm.trans isTold)
    refine ⟨fun isAll => ?_, process⟩
    have inAll := Finset.mem_univ change.2
    rw [← isAll] at inAll
    exact Finset.notMem_erase _ _ inAll
  · rw [if_neg made] at ascending ⊢
    rw [if_neg made]
    dsimp only at ascending ⊢
    obtain ⟨newest, kept⟩ := tells_others notItsOwn ascending
    have sameTold : toldOpen (events ++ (attempts change.2).others) token =
        toldOpen events token := by
      unfold toldOpen
      rw [newest]
    refine ⟨⟨fun slotClass notGuessed => ?_, fun notAll => ?_⟩, fun other isTold => ?_⟩
    · rw [kept]
      exact consistent.process slotClass notGuessed
    · rw [sameTold]
      exact consistent.tells notAll
    · rw [sameTold] at isTold
      obtain ⟨notAll, agrees⟩ := told other isTold
      exact ⟨notAll, fun slotClass notGuessed => by rw [kept]; exact agrees slotClass notGuessed⟩

theorem events_grow (changes : List (EventKind × SlotClass)) :
    events <+: (changes.foldl (recordChange (tryRecord token attempts)) (open_, events)).2 := by
  induction changes generalizing events open_ with
  | nil => exact List.prefix_rfl
  | cons change rest inductionHypothesis =>
    have first : events <+:
        (recordChange (tryRecord token attempts) (open_, events) change).2 := by
      rw [recordChange_tryRecord]
      split
      · rw [List.append_assoc]
        exact List.prefix_append _ _
      · exact List.prefix_append _ _
    exact first.trans inductionHypothesis

theorem consistent_changes {changes : List (EventKind × SlotClass)}
    (areChanges : ∀ change ∈ changes,
      change.1 = .slotsFullStarted ∨ change.1 = .slotsFullEnded)
    (notItsOwn : ∀ slotClass, ∀ event ∈ (attempts slotClass).others, ¬IsSlotsFull token event)
    (ascending : Ascending
      (changes.foldl (recordChange (tryRecord token attempts)) (open_, events)).2)
    (consistent : Consistent token events open_ guess) (told : Told token events guess) :
    Consistent token (changes.foldl (recordChange (tryRecord token attempts)) (open_, events)).2
        (changes.foldl (recordChange (tryRecord token attempts)) (open_, events)).1
        (changes.foldl (Guess.record attempts) guess) ∧
      Told token (changes.foldl (recordChange (tryRecord token attempts)) (open_, events)).2
        (changes.foldl (Guess.record attempts) guess) := by
  induction changes generalizing events open_ guess with
  | nil => exact ⟨consistent, told⟩
  | cons change rest inductionHypothesis =>
    have ascendingNext : Ascending
        (recordChange (tryRecord token attempts) (open_, events) change).2 :=
      ascending.sublist (events_grow rest).sublist
    obtain ⟨next, nextTold⟩ := consistent_record (areChanges change List.mem_cons_self)
      (notItsOwn change.2) ascendingNext consistent told
    exact inductionHypothesis (fun later among => areChanges later (List.mem_cons_of_mem _ among))
      ascending next nextTold

/-- It records a change of a class that starts or ends. -/
theorem mem_slotsFullChanges {full : Finset SlotClass} {change : EventKind × SlotClass} :
    change ∈ slotsFullChanges open_ full ↔
      (change.1 = .slotsFullStarted ∧ change.2 ∈ full ∧ change.2 ∉ open_) ∨
        (change.1 = .slotsFullEnded ∧ change.2 ∈ open_ ∧ change.2 ∉ full) := by
  have every (slotClass : SlotClass) : slotClass ∈ SlotClass.every := by
    cases slotClass <;> decide
  obtain ⟨kind, slotClass⟩ := change
  unfold slotsFullChanges
  simp only [List.mem_append, List.mem_map, List.mem_filter, decide_eq_true_iff, Prod.mk.injEq]
  constructor
  · rintro (⟨_, ⟨_, isIn⟩, rfl, rfl⟩ | ⟨_, ⟨_, isIn⟩, rfl, rfl⟩)
    · exact .inl ⟨rfl, isIn⟩
    · exact .inr ⟨rfl, isIn⟩
  · rintro (⟨rfl, isIn⟩ | ⟨rfl, isIn⟩)
    · exact .inl ⟨slotClass, ⟨every slotClass, isIn⟩, rfl, rfl⟩
    · exact .inr ⟨slotClass, ⟨every slotClass, isIn⟩, rfl, rfl⟩

/-- Every change made, what is open is what is full. -/
theorem foldl_afterChange (open_ full : Finset SlotClass) :
    (slotsFullChanges open_ full).foldl afterChange open_ = full := by
  revert open_ full
  decide

theorem opens_all_made {changes : List (EventKind × SlotClass)}
    (allMade : ∀ change ∈ changes, (attempts change.2).made = true) :
    (changes.foldl (recordChange (tryRecord token attempts)) (open_, events)).1 =
      changes.foldl afterChange open_ := by
  induction changes generalizing events open_ with
  | nil => rfl
  | cons change rest inductionHypothesis =>
    rw [List.foldl_cons, List.foldl_cons, recordChange_tryRecord,
      if_pos (allMade change List.mem_cons_self)]
    exact inductionHypothesis fun later among => allMade later (List.mem_cons_of_mem _ among)

theorem guess_all_made {changes : List (EventKind × SlotClass)}
    (allMade : ∀ change ∈ changes, (attempts change.2).made = true) (slotClass : SlotClass) :
    slotClass ∈ (changes.foldl (Guess.record attempts) guess).process ↔
      slotClass ∈ guess.process ∧ ∀ change ∈ changes, slotClass ≠ change.2 := by
  induction changes generalizing guess with
  | nil => simp
  | cons change rest inductionHypothesis =>
    rw [List.foldl_cons, inductionHypothesis fun later among =>
      allMade later (List.mem_cons_of_mem _ among), Guess.record,
      if_pos (allMade change List.mem_cons_self), Finset.mem_erase, List.forall_mem_cons]
    tauto

/-! ### A run of passes -/

/-- What holds of a supervisor over its passes. -/
structure Steady (token : String) (passing : Passing) (guess : Guess) : Prop where
  consistent : ∀ open_, passing.slotsFull = some open_ →
    Consistent token passing.events open_ guess
  told : Told token passing.events guess

variable {passing : Passing}

theorem steady_opening (steady : Steady token passing guess) (readFails : Bool)
    (full : Finset SlotClass) :
    Consistent token passing.events (passing.opening token readFails full)
        (guess.opening passing token readFails) ∧
      Told token passing.events (guess.opening passing token readFails) := by
  unfold Passing.opening Guess.opening
  cases process : passing.slotsFull with
  | some open_ => exact ⟨steady.consistent open_ process, steady.told⟩
  | none =>
    refine ⟨?_, steady.told⟩
    by_cases guesses : readFails = true ∨ toldOpen passing.events token = none
    · rw [if_pos guesses]
      exact ⟨fun slotClass notGuessed => absurd (Finset.mem_univ slotClass) notGuessed,
        fun notAll => absurd rfl notAll⟩
    · rw [if_neg guesses]
      obtain ⟨readsTrue, isTold⟩ := not_or.mp guesses
      obtain ⟨told, tells⟩ := Option.ne_none_iff_exists'.mp isTold
      have sameOpen : openAtStart (if readFails = true then none else
          some (newestOf passing.events token)) full = told := by
        rw [if_neg readsTrue]
        unfold toldOpen at tells
        cases newest : newestOf passing.events token with
        | none =>
          rw [newest] at tells
          exact Option.some.inj tells
        | some event =>
          rw [newest] at tells
          exact congrArg (Option.getD · _) tells
      dsimp only
      rw [sameOpen]
      exact ⟨(steady.told told tells).2, fun _ => tells⟩

/-- The events another step of a run adds record nothing of the supervisor. -/
def Passing.Step.Apart (token : String) : Passing.Step → Prop
  | .pass _ _ attempts =>
    ∀ slotClass, ∀ event ∈ (attempts slotClass).others, ¬IsSlotsFull token event
  | .replaced => True
  | .others events => ∀ event ∈ events, ¬IsSlotsFull token event

instance (token : String) (step : Passing.Step) : Decidable (step.Apart token) :=
  match step with
  | .pass _ _ attempts => inferInstanceAs (Decidable (∀ slotClass,
      ∀ event ∈ (attempts slotClass).others, ¬IsSlotsFull token event))
  | .replaced => isTrue trivial
  | .others events => inferInstanceAs (Decidable (∀ event ∈ events, ¬IsSlotsFull token event))

theorem steady_step (steady : Steady token passing guess) (step : Passing.Step)
    (apart : step.Apart token) (ascending : Ascending (passing.step token step).events) :
    Steady token (passing.step token step) (guess.step token passing step) := by
  cases step with
  | pass readFails full attempts =>
    obtain ⟨consistent, told⟩ := steady_opening steady readFails full
    obtain ⟨after, afterTold⟩ := consistent_changes
      (fun change among => (mem_slotsFullChanges.mp among).imp And.left And.left) apart ascending
      consistent told
    exact ⟨fun open_ isOpen => Option.some.inj isOpen ▸ after, afterTold⟩
  | replaced => exact ⟨nofun, steady.told⟩
  | others events =>
    obtain ⟨newest, kept⟩ := tells_others apart ascending
    have sameTold : toldOpen (passing.events ++ events) token = toldOpen passing.events token := by
      unfold toldOpen
      rw [newest]
    refine ⟨fun open_ isOpen => ⟨fun slotClass notGuessed => ?_, fun notAll => ?_⟩,
      fun open_ isTold => ?_⟩
    · exact ((steady.consistent open_ isOpen).process slotClass notGuessed).trans
        (kept slotClass).symm
    · exact sameTold.trans ((steady.consistent open_ isOpen).tells notAll)
    · obtain ⟨notAll, agrees⟩ := steady.told open_ (sameTold.symm.trans isTold)
      exact ⟨notAll, fun slotClass notGuessed =>
        (agrees slotClass notGuessed).trans (kept slotClass).symm⟩

/-- The classes the newest record leaves open, those the book holds not freed and the heavy slots
free tell the same. -/
def Agree (events : List RunEvent) (token : String) (open_ : Finset SlotClass) : Prop :=
  toldOpen events token = some open_ ∧ notFreed (Book.of events) token = open_ ∧
    ∀ tokens, token ∈ tokens →
      (heavySlotsFree (latestEventsBySupervisor events tokens) token = true ↔ .heavy ∉ open_)

theorem agree_of_told (ascending : Ascending events)
    (told : toldOpen events token = some open_)
    (holds : ∀ slotClass, slotClass ∈ open_ ↔ HoldsOpen events token slotClass) :
    Agree events token open_ := by
  refine ⟨told, ?_, fun tokens among => heavySlotsFree_of_told ascending among told⟩
  ext slotClass
  rw [mem_notFreed_of ascending, holds]

/-- A pass all of whose records are made, and that finds what is guessed in another state than the
guess, leaves the classes it found full open everywhere. -/
theorem pass_agrees (steady : Steady token passing guess) {readFails : Bool}
    {full : Finset SlotClass} (apart : (Passing.Step.pass readFails full attempts).Apart token)
    (ascending : Ascending (passing.step token (.pass readFails full attempts)).events)
    (heeds : Heeds token passing guess (.pass readFails full attempts))
    (allMade : ∀ change ∈ slotsFullChanges (passing.opening token readFails full) full,
      (attempts change.2).made = true) :
    Agree (passing.step token (.pass readFails full attempts)).events token full := by
  have after := (steady_step steady (.pass readFails full attempts) apart ascending).consistent _ rfl
  have isFull : ((slotsFullChanges (passing.opening token readFails full) full).foldl
      (recordChange (tryRecord token attempts))
        (passing.opening token readFails full, passing.events)).1 = full :=
    (opens_all_made allMade).trans (foldl_afterChange _ _)
  have noGuess : ∀ slotClass, slotClass ∉
      (guess.step token passing (.pass readFails full attempts)).process := by
    intro slotClass guessed
    obtain ⟨isGuessed, unchanged⟩ := (guess_all_made allMade slotClass).mp guessed
    have differs := heeds slotClass isGuessed
    by_cases isIn : slotClass ∈ full
    · exact unchanged (.slotsFullStarted, slotClass)
        (mem_slotsFullChanges.mpr (.inl ⟨rfl, isIn, differs.mp isIn⟩)) rfl
    · exact unchanged (.slotsFullEnded, slotClass) (mem_slotsFullChanges.mpr
        (.inr ⟨rfl, not_not.mp (mt differs.mpr isIn), isIn⟩)) rfl
  rw [isFull] at after
  refine agree_of_told ascending (after.tells fun isAll => ?_) fun slotClass =>
    after.process slotClass (noGuess slotClass)
  exact noGuess .heavy (isAll ▸ Finset.mem_univ _)

/-! ### Every single record, without a guess -/

/-- At every event the newest record leaves open what the book holds. -/
def AllTold (token : String) (events : List RunEvent) : Prop :=
  ∀ before, before <+: events → ∃ open_, toldOpen before token = some open_ ∧
    ∀ slotClass, slotClass ∈ open_ ↔ HoldsOpen before token slotClass

theorem allTold_append (all : AllTold token events)
    (last : ∃ open_, toldOpen (events ++ [event]) token = some open_ ∧
      ∀ slotClass, slotClass ∈ open_ ↔ HoldsOpen (events ++ [event]) token slotClass) :
    AllTold token (events ++ [event]) := by
  intro before isBefore
  rcases List.prefix_concat_iff.mp isBefore with rfl | earlier
  · exact last
  · exact all before earlier

theorem allTold_others (all : AllTold token events) {others : List RunEvent}
    (notItsOwn : ∀ event ∈ others, ¬IsSlotsFull token event)
    (ascending : Ascending (events ++ others)) : AllTold token (events ++ others) := by
  induction others using List.reverseRecOn with
  | nil =>
    rw [List.append_nil]
    exact all
  | append_singleton others event inductionHypothesis =>
    rw [← List.append_assoc] at ascending ⊢
    refine allTold_append (inductionHypothesis
      (fun earlier among => notItsOwn earlier (List.mem_append_left _ among))
      (List.pairwise_append.mp ascending).1) ?_
    obtain ⟨open_, told, agrees⟩ := all events List.prefix_rfl
    rw [List.append_assoc] at ascending ⊢
    obtain ⟨newest, kept⟩ := tells_others notItsOwn ascending
    refine ⟨open_, ?_, fun slotClass => (agrees slotClass).trans (kept slotClass).symm⟩
    unfold toldOpen at told ⊢
    rw [newest, told]

theorem allTold_changes {changes : List (EventKind × SlotClass)}
    (areChanges : ∀ change ∈ changes,
      change.1 = .slotsFullStarted ∨ change.1 = .slotsFullEnded)
    (notItsOwn : ∀ slotClass, ∀ event ∈ (attempts slotClass).others, ¬IsSlotsFull token event)
    (ascending : Ascending
      (changes.foldl (recordChange (tryRecord token attempts)) (open_, events)).2)
    (consistent : Consistent token events open_ {}) (told : Told token events {})
    (all : AllTold token events) :
    AllTold token (changes.foldl (recordChange (tryRecord token attempts)) (open_, events)).2 ∧
      changes.foldl (Guess.record attempts) {} = {} := by
  induction changes generalizing events open_ with
  | nil => exact ⟨all, rfl⟩
  | cons change rest inductionHypothesis =>
    have ascendingNext : Ascending
        (recordChange (tryRecord token attempts) (open_, events) change).2 :=
      ascending.sublist (events_grow rest).sublist
    have noGuess : Guess.record attempts {} change = {} := by
      unfold Guess.record
      split <;> rfl
    obtain ⟨next, nextTold⟩ := consistent_record (areChanges change List.mem_cons_self)
      (notItsOwn change.2) ascendingNext consistent told
    have nextAll : AllTold token
        (recordChange (tryRecord token attempts) (open_, events) change).2 := by
      rw [noGuess] at next
      rw [recordChange_tryRecord] at next ascendingNext ⊢
      split at next
      next made =>
        rw [if_pos made] at ascendingNext ⊢
        exact allTold_append (allTold_others all (notItsOwn change.2)
            (List.pairwise_append.mp ascendingNext).1)
          ⟨_, next.tells (by decide), fun slotClass =>
            next.process slotClass (Finset.notMem_empty slotClass)⟩
      next notMade =>
        rw [if_neg notMade] at ascendingNext ⊢
        exact allTold_others all (notItsOwn change.2) ascendingNext
    rw [noGuess] at next nextTold
    rw [List.foldl_cons, List.foldl_cons, noGuess]
    exact inductionHypothesis
      (fun later among => areChanges later (List.mem_cons_of_mem _ among)) ascending next nextTold
      nextAll

/-- Its pass, if it is one, can read the newest record. -/
def Passing.Step.Reads : Passing.Step → Prop
  | .pass readFails _ _ => readFails = false
  | _ => True

theorem allTold_step (steady : Steady token passing {}) (all : AllTold token passing.events)
    {step : Passing.Step} (apart : step.Apart token) (reads : step.Reads)
    (ascending : Ascending (passing.step token step).events) :
    AllTold token (passing.step token step).events ∧ Guess.step token passing {} step = {} := by
  cases step with
  | pass readFails full attempts =>
    have noGuess : Guess.opening {} passing token readFails = {} := by
      unfold Guess.opening
      split
      · rfl
      · obtain ⟨open_, told, _⟩ := all passing.events List.prefix_rfl
        have isRead : ¬(readFails = true ∨ toldOpen passing.events token = none) := by
          rw [told, show readFails = false from reads]
          simp
        rw [if_neg isRead]
    obtain ⟨consistent, told⟩ := steady_opening steady readFails full
    rw [noGuess] at consistent told
    obtain ⟨allNext, still⟩ := allTold_changes
      (fun change among => (mem_slotsFullChanges.mp among).imp And.left And.left) apart ascending
      consistent told all
    refine ⟨allNext, ?_⟩
    show (slotsFullChanges _ full).foldl _ (Guess.opening {} passing token readFails) = {}
    rw [noGuess]
    exact still
  | replaced => exact ⟨all, rfl⟩
  | others events => exact ⟨allTold_others all apart ascending, rfl⟩

/-! ### Over a run -/

/-- A supervisor after its steps. -/
def Passing.run (token : String) (passing : Passing) (steps : List Passing.Step) : Passing :=
  steps.foldl (Passing.step token) passing

theorem step_grows (passing : Passing) (step : Passing.Step) :
    passing.events <+: (passing.step token step).events := by
  cases step with
  | pass readFails full attempts => exact events_grow _
  | replaced => exact List.prefix_rfl
  | others events => exact List.prefix_append _ _

theorem run_grows (passing : Passing) (steps : List Passing.Step) :
    passing.events <+: (passing.run token steps).events := by
  induction steps generalizing passing with
  | nil => exact List.prefix_rfl
  | cons step rest inductionHypothesis =>
    exact (step_grows passing step).trans (inductionHypothesis _)

theorem run_agrees {before : List Passing.Step} {readFails : Bool} {full : Finset SlotClass}
    (steady : Steady token passing guess)
    (apart : ∀ step ∈ before ++ [.pass readFails full attempts], step.Apart token)
    (ascending : Ascending
      (passing.run token (before ++ [.pass readFails full attempts])).events)
    (heeded : Heeded token passing guess (before ++ [.pass readFails full attempts]))
    (allMade : ∀ change ∈ slotsFullChanges
        ((passing.run token before).opening token readFails full) full,
      (attempts change.2).made = true) :
    Agree (passing.run token (before ++ [.pass readFails full attempts])).events token full := by
  induction before generalizing passing guess with
  | nil =>
    exact pass_agrees steady (apart _ List.mem_cons_self) ascending heeded.1 allMade
  | cons step rest inductionHypothesis =>
    have ascendingRest : Ascending (Passing.run token (passing.step token step)
        (rest ++ [.pass readFails full attempts])).events := ascending
    have ascendingNext := ascendingRest.sublist (run_grows _ _).sublist
    exact inductionHypothesis
      (steady_step steady step (apart step List.mem_cons_self) ascendingNext)
      (fun later among => apart later (List.mem_cons_of_mem _ among)) ascending heeded.2 allMade

theorem run_allTold {steps : List Passing.Step} (steady : Steady token passing {})
    (all : AllTold token passing.events) (apart : ∀ step ∈ steps, step.Apart token)
    (reads : ∀ step ∈ steps, step.Reads)
    (ascending : Ascending (passing.run token steps).events) :
    AllTold token (passing.run token steps).events := by
  induction steps generalizing passing with
  | nil => exact all
  | cons step rest inductionHypothesis =>
    have ascendingNext : Ascending (passing.step token step).events :=
      ascending.sublist (run_grows _ rest).sublist
    obtain ⟨allNext, noGuess⟩ := allTold_step steady all (apart step List.mem_cons_self)
      (reads step List.mem_cons_self) ascendingNext
    have next := steady_step steady step (apart step List.mem_cons_self) ascendingNext
    rw [noGuess] at next
    exact inductionHypothesis next allNext
      (fun later among => apart later (List.mem_cons_of_mem _ among))
      (fun later among => reads later (List.mem_cons_of_mem _ among)) ascending

theorem not_holdsOpen_nil (slotClass : SlotClass) : ¬HoldsOpen [] token slotClass :=
  fun holds => holds rfl

/-- Nothing of a supervisor is held before its first record. -/
theorem not_holdsOpen {history : List RunEvent}
    (noRecord : ∀ event ∈ history, ¬IsSlotsFull token event) (ascending : Ascending history)
    (slotClass : SlotClass) : ¬HoldsOpen history token slotClass := by
  have kept := (@tells_others token [] history noRecord ascending).2 slotClass
  exact fun holds => not_holdsOpen_nil slotClass (kept.mp holds)

theorem steady_start {history : List RunEvent}
    (earlier : ∀ event ∈ history, IsSlotsFull token event → recordedOpen event = none)
    (ascending : Ascending history) : Steady token ⟨history, none⟩ {} := by
  refine ⟨nofun, fun open_ told => ⟨by decide, fun slotClass _ => ?_⟩⟩
  unfold toldOpen at told
  cases newest : newestOf history token with
  | none =>
    rw [newest] at told
    obtain rfl := Option.some.inj told
    have noRecord : ∀ event ∈ history, ¬IsSlotsFull token event := by
      have noneLeft := List.filter_eq_nil_iff.mp (List.getLast?_eq_none_iff.mp newest)
      exact fun event among itsOwn => noneLeft event among (by simpa using itsOwn)
    exact iff_of_false (Finset.notMem_empty slotClass)
      (not_holdsOpen noRecord ascending slotClass)
  | some event =>
    obtain ⟨among, itsOwn⟩ := mem_of_newestOf newest
    rw [newest] at told
    cases (earlier event among itsOwn).symm.trans told

/-- Over every run of a supervisor's passes, its records made or failing, its process replaced and
others' events among them: a pass all of whose records are made leaves open in the newest record
and in the book exactly the classes it found full, in a run whose passes each find a class guessed
and not recorded since in another state than the guess; and without a guess the newest record and
the book agree after every single event. -/
theorem slotsFull_agree {history : List RunEvent}
    (earlier : ∀ event ∈ history, IsSlotsFull token event → recordedOpen event = none)
    {steps : List Passing.Step} (apart : ∀ step ∈ steps, step.Apart token)
    (ascending : Ascending (Passing.run token ⟨history, none⟩ steps).events) :
    (Heeded token ⟨history, none⟩ {} steps →
      ∀ before readFails full attempts, steps = before ++ [.pass readFails full attempts] →
        (∀ change ∈ slotsFullChanges
            ((Passing.run token ⟨history, none⟩ before).opening token readFails full) full,
          (attempts change.2).made = true) →
        Agree (Passing.run token ⟨history, none⟩ steps).events token full) ∧
    ((∀ step ∈ steps, step.Reads) → (∀ event ∈ history, ¬IsSlotsFull token event) →
      ∀ events, events <+: (Passing.run token ⟨history, none⟩ steps).events →
        ∃ open_, Agree events token open_) := by
  have ascendingStart : Ascending history :=
    ascending.sublist (run_grows ⟨history, none⟩ steps).sublist
  have steady := steady_start earlier ascendingStart
  refine ⟨?_, fun reads noRecord events isBefore => ?_⟩
  · rintro heeded before readFails full attempts rfl allMade
    exact run_agrees steady apart ascending heeded allMade
  · have allNone : AllTold token [] := by
      intro before isBefore
      rw [List.prefix_nil.mp isBefore]
      exact ⟨∅, rfl, fun slotClass => iff_of_false (Finset.notMem_empty slotClass)
        (not_holdsOpen_nil slotClass)⟩
    have all : AllTold token history := allTold_others allNone noRecord ascendingStart
    obtain ⟨open_, told, agrees⟩ := run_allTold steady all apart reads ascending events isBefore
    exact ⟨open_, agree_of_told (ascending.sublist isBefore.sublist) told agrees⟩

/-- Both classes fill, and the light start fails. Another process goes on that cannot read its
newest record and finds the heavy slots full: the light end it guesses fails too. -/
def retried : List Passing.Step :=
  [.pass false {.heavy, .light} fun slotClass =>
    { id := slotClass.rank + 1, made := slotClass = .heavy },
  .replaced,
  .pass true {.heavy} fun slotClass => { id := slotClass.rank + 3, made := slotClass = .heavy }]

theorem slotsFull_agree_retried :
    Agree (Passing.run "s" ⟨[], none⟩ (retried ++
      [.pass false {.heavy} fun _ => { id := 5 }])).events "s" {.heavy} := by
  have ascending : Ascending (Passing.run "s" ⟨[], none⟩ (retried ++
      [.pass false {.heavy} fun _ => { id := 5 }])).events := by
    unfold Ascending
    decide
  have agreed := (@slotsFull_agree "s" [] (fun _ among => nomatch among) _ (by decide) ascending).1
    (by decide)
  exact agreed retried false {.heavy} (fun _ => { id := 5 }) rfl (by decide)

/-- A process that could not read its newest record takes the light slots to be full, finding only
the heavy ones full, and fails to record that they are not. When they are, it records no start of
them: the book never holds them. -/
theorem light_slots_never_held :
    let started := Passing.run "s" ⟨[], none⟩
      [.pass true {.heavy} fun slotClass =>
        { id := slotClass.rank + 1, made := slotClass = .heavy }]
    let full : Finset SlotClass := {.heavy, .light}
    let after := started.step "s" (.pass false full fun _ => { id := 3 })
    slotsFullChanges (started.opening "s" false full) full = [] ∧
      toldOpen after.events "s" = some full ∧ .light ∉ notFreed (Book.of after.events) "s" := by
  refine ⟨by decide, by decide, ?_⟩
  rw [mem_notFreed_of (by unfold Ascending; decide)]
  unfold HoldsOpen
  decide

end Dagq.PreClaim
