/-
This file models the requests a supervisor leaves in the directory of a headless
session and what the supervisor reads of them: the number and the state in a
file's name, the number of the next request, the requests that wait, and whether
a turn the session was sent has not ended yet.

A request is written under its number, renamed when it is taken, and renamed
otherwise when a later session drops it; it is never removed, so no number is
given twice. A number is counted up from one, far from the end of its range.
-/

import Mathlib.Data.List.Sort
import Dagq.Turns.Event

namespace Dagq.Turns

/-! ### Requests and the names of their files -/

structure TurnRequest where
  seq : Nat
  what : String
  prompt : String
  deriving DecidableEq, Repr

/-- Where a request stands: waiting to be taken, taken, or dropped untaken when a later session
started. -/
inductive RequestState where
  | pending
  | taken
  | dropped
  deriving DecidableEq, Repr

/-- A request found in a session's directory, with its state. -/
structure ListedRequest where
  state : RequestState
  request : TurnRequest
  deriving DecidableEq, Repr

/-- A number in six digits at least. -/
def sixDigits (seq : Nat) : List Char :=
  let digits := Nat.toDigits 10 seq
  List.replicate (6 - digits.length) '0' ++ digits

def RequestState.extension : RequestState → String
  | pending => ".json"
  | taken => ".taken.json"
  | dropped => ".dropped"

/-- The name of request `seq`'s file. -/
def requestPath (seq : Nat) (state : RequestState) : String :=
  String.ofList ("request-".toList ++ (sixDigits seq ++ state.extension.toList))

def ListedRequest.name (listed : ListedRequest) : String :=
  requestPath listed.request.seq listed.state

/-- An unsigned number as it is parsed: digits, after a sign or not. The source holds it in 64
bits, which the numbers that `nextSeq` gives out never come near. -/
def parseSeq (text : List Char) : Option Nat :=
  let digits := text.dropPrefix? ['+'] |>.getD text
  if digits ≠ [] ∧ digits.all Char.isDigit then some (Nat.ofDigitChars 10 digits 0) else none

/-- The number of a request file and whether it was taken; none for any other file. One dropped
with an earlier session is as good as taken. -/
def requestSeq (name : String) : Option (Nat × Bool) := do
  let rest ← name.toList.dropPrefix? "request-".toList
  let taken := rest.dropSuffix? RequestState.taken.extension.toList <|>
    rest.dropSuffix? RequestState.dropped.extension.toList
  match taken with
  | some seq => (parseSeq seq).map fun seq => (seq, true)
  | none =>
    let seq ← rest.dropSuffix? RequestState.pending.extension.toList
    (parseSeq seq).map fun seq => (seq, false)

/-- The number and state of a request file; none for any other file. -/
def requestState (name : String) : Option (Nat × RequestState) := do
  let rest ← name.toList.dropPrefix? "request-".toList
  match rest.dropSuffix? RequestState.taken.extension.toList with
  | some seq => (parseSeq seq).map fun seq => (seq, .taken)
  | none => match rest.dropSuffix? RequestState.dropped.extension.toList with
    | some seq => (parseSeq seq).map fun seq => (seq, .dropped)
    | none =>
      let seq ← rest.dropSuffix? RequestState.pending.extension.toList
      (parseSeq seq).map fun seq => (seq, .pending)

/-- The number of the next request, after every request named, taken or not. -/
def nextSeq (names : List String) : Nat :=
  ((names.filterMap requestSeq).map Prod.fst).max?.getD 0 + 1

/-- The requests named that wait to be taken, oldest first. -/
def pending (names : List String) : List Nat :=
  (((names.filterMap requestSeq).filter fun named => !named.2).map Prod.fst).insertionSort (· ≤ ·)

/-! ### What a file's name says -/

theorem sixDigits_isDigit (seq : Nat) (digit : Char) (member : digit ∈ sixDigits seq) :
    digit.isDigit = true := by
  unfold sixDigits at member
  rcases List.mem_append.mp member with zero | shown
  · rw [List.eq_of_mem_replicate zero]
    decide
  · exact Nat.isDigit_of_mem_toDigits (by decide) (by decide) shown

theorem sixDigits_ne_nil (seq : Nat) : sixDigits seq ≠ [] := by
  intro empty
  have none := (List.append_eq_nil_iff.mp empty).2
  exact Nat.toDigits_ne_nil none

theorem parseSeq_sixDigits (seq : Nat) : parseSeq (sixDigits seq) = some seq := by
  have unsigned : (sixDigits seq).dropPrefix? ['+'] = none := by
    by_contra signed
    obtain ⟨rest, found⟩ := Option.ne_none_iff_exists'.mp signed
    obtain ⟨sign, whole, isSign⟩ := List.dropPrefix?_eq_some_iff.mp found
    have plus : '+' ∈ sixDigits seq := by
      rw [whole, eq_of_beq isSign]
      simp
    have digit := sixDigits_isDigit seq '+' plus
    revert digit
    decide
  have value : Nat.ofDigitChars 10 (sixDigits seq) 0 = seq := by
    unfold sixDigits
    rw [Nat.ofDigitChars_append, Nat.ofDigitChars_replicate_zero, Nat.mul_zero]
    exact Nat.ofDigitChars_ten_toDigits
  unfold parseSeq
  simp only [unsigned, Option.getD_none]
  rw [if_pos ⟨sixDigits_ne_nil seq, List.all_eq_true.mpr (sixDigits_isDigit seq)⟩, value]

/-- A suffix of another extension is not one of the name. -/
theorem dropSuffix?_other (seq : Nat) (state other : RequestState)
    (different : ∀ front, sixDigits seq ++ state.extension.toList ≠
      front ++ other.extension.toList) :
    (sixDigits seq ++ state.extension.toList).dropSuffix? other.extension.toList = none := by
  by_contra found
  obtain ⟨front, isSuffix⟩ := Option.ne_none_iff_exists'.mp found
  obtain ⟨suffix, whole, same⟩ := List.dropSuffix?_eq_some_iff.mp isSuffix
  rw [eq_of_beq same] at whole
  exact different front whole

theorem dropSuffix?_own (seq : Nat) (state : RequestState) :
    (sixDigits seq ++ state.extension.toList).dropSuffix? state.extension.toList =
      some (sixDigits seq) :=
  List.dropSuffix?_eq_some_iff.mpr ⟨_, rfl, BEq.rfl⟩

/-- The name of a request that waits ends otherwise than a taken one's: a digit stands before its
extension. -/
theorem pending_ne_taken (seq : Nat) (front : List Char) :
    sixDigits seq ++ RequestState.pending.extension.toList ≠
      front ++ RequestState.taken.extension.toList := by
  intro same
  have split : sixDigits seq ++ ".json".toList = (front ++ ".taken".toList) ++ ".json".toList := by
    rw [List.append_assoc]
    exact same
  have digits := List.append_cancel_right split
  have letter : 'n' ∈ sixDigits seq := by
    rw [digits]
    simp
  have digit := sixDigits_isDigit seq 'n' letter
  revert digit
  decide

/-- Names of different last letters have no suffix in common. -/
theorem append_ne_of_getLast? {front other suffix otherSuffix : List Char}
    (left : suffix ≠ []) (right : otherSuffix ≠ [])
    (different : suffix.getLast? ≠ otherSuffix.getLast?) :
    front ++ suffix ≠ other ++ otherSuffix := by
  intro same
  have last := congrArg List.getLast? same
  rw [List.getLast?_append_of_ne_nil _ left, List.getLast?_append_of_ne_nil _ right] at last
  exact different last

theorem dropPrefix?_ofList (front rest : List Char) :
    (String.ofList (front ++ rest)).toList.dropPrefix? front = some rest := by
  rw [String.toList_ofList]
  exact List.dropPrefix?_append_of_beq rest BEq.rfl

theorem requestState_requestPath (seq : Nat) (state : RequestState) :
    requestState (requestPath seq state) = some (seq, state) := by
  have front : (requestPath seq state).toList.dropPrefix? "request-".toList =
      some (sixDigits seq ++ state.extension.toList) :=
    dropPrefix?_ofList "request-".toList (sixDigits seq ++ state.extension.toList)
  unfold requestState
  rw [front]
  cases state with
  | taken => simp [dropSuffix?_own, parseSeq_sixDigits]
  | dropped =>
    have untaken := dropSuffix?_other seq .dropped .taken fun other =>
      append_ne_of_getLast? (by decide) (by decide) (by decide)
    simp [untaken, dropSuffix?_own, parseSeq_sixDigits]
  | pending =>
    have untaken := dropSuffix?_other seq .pending .taken (pending_ne_taken seq)
    have undropped := dropSuffix?_other seq .pending .dropped fun other =>
      append_ne_of_getLast? (by decide) (by decide) (by decide)
    simp [untaken, undropped, dropSuffix?_own, parseSeq_sixDigits]

/-- Both readings of a name agree. -/
theorem requestSeq_eq (name : String) :
    requestSeq name = (requestState name).map fun named => (named.1, named.2 != .pending) := by
  unfold requestSeq requestState
  cases name.toList.dropPrefix? "request-".toList with
  | none => rfl
  | some rest =>
    cases taken : rest.dropSuffix? RequestState.taken.extension.toList with
    | some seq => cases parsed : parseSeq seq <;> simp [taken, parsed]
    | none =>
      cases dropped : rest.dropSuffix? RequestState.dropped.extension.toList with
      | some seq => cases parsed : parseSeq seq <;> simp [taken, dropped, parsed]
      | none =>
        cases waits : rest.dropSuffix? RequestState.pending.extension.toList with
        | none => simp [taken, dropped, waits]
        | some seq => cases parsed : parseSeq seq <;> simp [taken, dropped, waits, parsed]

theorem requestState_name (listed : ListedRequest) :
    requestState listed.name = some (listed.request.seq, listed.state) :=
  requestState_requestPath listed.request.seq listed.state

theorem requestSeq_name (listed : ListedRequest) :
    requestSeq listed.name = some (listed.request.seq, listed.state != .pending) := by
  rw [requestSeq_eq, requestState_name]
  rfl

/-! ### The directory of a session -/

/-- A session's directory of requests, no number twice. -/
structure Directory where
  files : List ListedRequest
  numbered : (files.map fun file => file.request.seq).Nodup

namespace Directory

def empty : Directory := ⟨[], List.nodup_nil⟩

def names (directory : Directory) : List String := directory.files.map ListedRequest.name

/-- The requests in the directory as their files' names and contents say. -/
def listedRequests (directory : Directory) : List ListedRequest :=
  directory.files.filterMap fun file =>
    (requestState file.name).map fun named => ⟨named.2, file.request⟩

theorem listedRequests_eq (directory : Directory) : directory.listedRequests = directory.files := by
  unfold listedRequests
  conv_rhs => rw [← List.filterMap_some (l := directory.files)]
  congr
  funext file
  rw [requestState_name]
  rfl

theorem numbersOf_names (directory : Directory) :
    directory.names.filterMap requestSeq =
      directory.files.map fun file => (file.request.seq, file.state != .pending) := by
  unfold names
  rw [List.filterMap_map, ← List.filterMap_eq_map]
  refine List.filterMap_congr fun file _ => ?_
  exact requestSeq_name file

theorem seq_lt_nextSeq (directory : Directory) {file : ListedRequest}
    (listed : file ∈ directory.files) : file.request.seq < nextSeq directory.names := by
  unfold nextSeq
  rw [numbersOf_names, List.map_map]
  have member : file.request.seq ∈ directory.files.map fun file => file.request.seq :=
    List.mem_map_of_mem listed
  cases largest : (directory.files.map fun file => file.request.seq).max? with
  | none =>
    rw [List.max?_eq_none_iff.mp largest] at member
    cases member
  | some last =>
    have bound := (List.max?_eq_some_iff.mp largest).2 _ member
    show file.request.seq < ((directory.files.map fun file => file.request.seq).max?).getD 0 + 1
    rw [largest]
    exact Nat.lt_succ_of_le bound

/-- A directory that has the numbers of another has no earlier next number. -/
theorem nextSeq_le {directory later : Directory}
    (kept : ∀ file ∈ directory.files, ∃ now ∈ later.files, now.request.seq = file.request.seq) :
    nextSeq directory.names ≤ nextSeq later.names := by
  unfold nextSeq
  rw [numbersOf_names, List.map_map]
  cases largest : (directory.files.map fun file => file.request.seq).max? with
  | none =>
    show ((directory.files.map fun file => file.request.seq).max?).getD 0 + 1 ≤ _
    rw [largest]
    exact Nat.succ_le_succ (Nat.zero_le _)
  | some last =>
    obtain ⟨file, listed, isLast⟩ := List.mem_map.mp (List.max?_eq_some_iff.mp largest).1
    obtain ⟨now, nowListed, same⟩ := kept file listed
    have bound := later.seq_lt_nextSeq nowListed
    rw [same, isLast] at bound
    show ((directory.files.map fun file => file.request.seq).max?).getD 0 + 1 ≤ nextSeq later.names
    rw [largest]
    exact Nat.succ_le_of_lt bound

theorem mem_pending (directory : Directory) (seq : Nat) :
    seq ∈ pending directory.names ↔
      ∃ file ∈ directory.files, file.request.seq = seq ∧ file.state = .pending := by
  unfold pending
  rw [numbersOf_names, List.mem_insertionSort]
  simp only [List.mem_map, List.mem_filter, Prod.exists]
  constructor
  · rintro ⟨found, taken, ⟨⟨file, listed, same⟩, waits⟩, isSeq⟩
    cases same
    exact ⟨file, listed, isSeq, by simpa using waits⟩
  · rintro ⟨file, listed, isSeq, waits⟩
    exact ⟨_, _, ⟨⟨file, listed, rfl⟩, by simp [waits]⟩, isSeq⟩

/-- Write a request under the next number. -/
def write (directory : Directory) (what prompt : String) : Directory where
  files := directory.files ++ [⟨.pending, ⟨nextSeq directory.names, what, prompt⟩⟩]
  numbered := by
    rw [List.map_append]
    refine List.nodup_append.mpr ⟨directory.numbered, List.nodup_singleton _, ?_⟩
    intro seq earlier next isNext
    obtain ⟨file, listed, rfl⟩ := List.mem_map.mp earlier
    rw [List.mem_singleton.mp isNext]
    exact (directory.seq_lt_nextSeq listed).ne

/-- Rename request `seq`'s file to say `state`. -/
def rename (directory : Directory) (seq : Nat) (state : RequestState) : Directory where
  files := directory.files.map fun file =>
    if file.request.seq = seq then { file with state := state } else file
  numbered := by
    have same : (directory.files.map fun file =>
        if file.request.seq = seq then { file with state := state } else file).map
          (fun file => file.request.seq) = directory.files.map fun file => file.request.seq := by
      rw [List.map_map]
      refine List.map_congr_left fun file _ => ?_
      show (if file.request.seq = seq then _ else _ : ListedRequest).request.seq = file.request.seq
      split <;> rfl
    rw [same]
    exact directory.numbered

/-- Drop each request that waits. -/
def dropPending (directory : Directory) : Directory :=
  (pending directory.names).foldl (fun dropped seq => dropped.rename seq .dropped) directory

/-- A number names one file. -/
theorem eq_of_seq (directory : Directory) {file other : ListedRequest}
    (listed : file ∈ directory.files) (otherListed : other ∈ directory.files)
    (same : file.request.seq = other.request.seq) : file = other :=
  List.inj_on_of_nodup_map directory.numbered listed otherListed same

theorem mem_rename (directory : Directory) (seq : Nat) (state : RequestState)
    (file : ListedRequest) :
    file ∈ (directory.rename seq state).files ↔
      (∃ before ∈ directory.files, before.request.seq = seq ∧
        file = { before with state := state }) ∨
      (file ∈ directory.files ∧ file.request.seq ≠ seq) := by
  unfold rename
  rw [List.mem_map]
  constructor
  · rintro ⟨before, listed, rfl⟩
    split
    · rename_i isSeq
      exact Or.inl ⟨before, listed, isSeq, rfl⟩
    · rename_i another
      exact Or.inr ⟨listed, another⟩
  · rintro (⟨before, listed, isSeq, rfl⟩ | ⟨listed, another⟩)
    · exact ⟨before, listed, if_pos isSeq⟩
    · exact ⟨file, listed, if_neg another⟩

theorem mem_write (directory : Directory) (what prompt : String) (file : ListedRequest) :
    file ∈ (directory.write what prompt).files ↔
      file ∈ directory.files ∨ file = ⟨.pending, ⟨nextSeq directory.names, what, prompt⟩⟩ := by
  simp [write]

theorem nextSeq_write (directory : Directory) (what prompt : String) :
    nextSeq directory.names ≤ nextSeq (directory.write what prompt).names :=
  nextSeq_le fun file listed => ⟨file, (directory.mem_write what prompt file).mpr (Or.inl listed), rfl⟩

theorem nextSeq_rename (directory : Directory) (seq : Nat) (state : RequestState) :
    nextSeq directory.names ≤ nextSeq (directory.rename seq state).names := by
  refine nextSeq_le fun file listed => ?_
  by_cases same : file.request.seq = seq
  · exact ⟨{ file with state := state },
      (directory.mem_rename seq state _).mpr (Or.inl ⟨file, listed, same, rfl⟩), rfl⟩
  · exact ⟨file, (directory.mem_rename seq state file).mpr (Or.inr ⟨listed, same⟩), rfl⟩

end Directory

end Dagq.Turns
