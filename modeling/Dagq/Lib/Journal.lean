/-
This file builds journals. Parties observe, each keeping a recorder of what it
recorded and a queue of the records it still has to write; the records go to one
log, a party's in their order and those of different parties in any, among
entries of others. A party whose records are refused starts over, and a record may
be lost that its party takes for written. A reader folds the entries of one party. Where a reader that follows a recorder follows it
again once the records of the next observation are read, it follows it in every
run: with nothing left to write, what it read is what its party recorded last,
and it is safe after every entry.
-/

import Dagq.Lib.Transition

namespace Dagq.Lib

/-- How parties record what they observe and how the log is read back. -/
structure Journal (Party Observation Record Entry Recorder Reader : Type) where
  /-- The recorder of a party that recorded nothing. -/
  fresh : Recorder
  /-- The records of an observation, and the recorder after it. -/
  observe : Party → Recorder → Observation → List Record × Recorder
  /-- The observations that are made. -/
  Admits : Observation → Prop
  /-- The party an entry of the log is of and the record it carries. -/
  carried : Entry → Option (Party × Record)
  /-- The records that may be lost, taken for written. -/
  Losable : Record → Prop
  start : Reader
  read : Reader → Entry → Reader

namespace Journal

variable {Party Observation Record Entry Recorder Reader : Type}

/-- The log, and for each party its recorder, the records it has to write, and what it observed
since it started over. -/
structure World (Party Observation Record Entry Recorder : Type) where
  entries : List Entry
  recorder : Party → Recorder
  pending : Party → List Record
  observed : Party → List Observation

variable [DecidableEq Party] (journal : Journal Party Observation Record Entry Recorder Reader)

/-! ### Runs -/

/-- The entry is one of the party. -/
def isOf (party : Party) (entry : Entry) : Bool :=
  (journal.carried entry).any fun carried => carried.1 = party

/-- What a reader of a party makes of a log. -/
def reading (party : Party) (entries : List Entry) : Reader :=
  (entries.filter (journal.isOf party)).foldl journal.read journal.start

def empty : World Party Observation Record Entry Recorder where
  entries := []
  recorder := fun _ => journal.fresh
  pending := fun _ => []
  observed := fun _ => []

/-- The world once a party observed. -/
def record (world : World Party Observation Record Entry Recorder) (party : Party)
    (observation : Observation) : World Party Observation Record Entry Recorder :=
  { world with
    recorder := Function.update world.recorder party
      (journal.observe party (world.recorder party) observation).2
    pending := Function.update world.pending party
      (world.pending party ++ (journal.observe party (world.recorder party) observation).1)
    observed := Function.update world.observed party (world.observed party ++ [observation]) }

/-- The world once a party has only these records to write. -/
def World.keep (world : World Party Observation Record Entry Recorder) (party : Party)
    (records : List Record) : World Party Observation Record Entry Recorder :=
  { world with pending := Function.update world.pending party records }

/-- The world once an entry is written. -/
def World.push (world : World Party Observation Record Entry Recorder) (entry : Entry) :
    World Party Observation Record Entry Recorder :=
  { world with entries := world.entries ++ [entry] }

/-- The world once a party starts over. -/
def startOver (world : World Party Observation Record Entry Recorder) (party : Party) :
    World Party Observation Record Entry Recorder :=
  { world with
    recorder := Function.update world.recorder party journal.fresh
    observed := Function.update world.observed party [] }

/-- One step of a run. -/
inductive Step (world : World Party Observation Record Entry Recorder) :
    World Party Observation Record Entry Recorder → Prop
  /-- A party observes. -/
  | observe (party : Party) (observation : Observation) (admitted : journal.Admits observation) :
      Step world (journal.record world party observation)
  /-- The first of the records a party has to write is written. -/
  | write (party : Party) (record : Record) (rest : List Record) (entry : Entry)
      (first : world.pending party = record :: rest)
      (carries : journal.carried entry = some (party, record)) :
      Step world ((world.push entry).keep party rest)
  /-- The first of the records a party has to write is lost, and it does not know. -/
  | lose (party : Party) (record : Record) (rest : List Record)
      (first : world.pending party = record :: rest) (losable : journal.Losable record) :
      Step world (world.keep party rest)
  /-- Something else is written. -/
  | other (entry : Entry) (carries : journal.carried entry = none) : Step world (world.push entry)
  /-- The later of the records a party has to write are refused, and it starts over. -/
  | refuse (party : Party) (kept refused : List Record)
      (cut : world.pending party = kept ++ refused) :
      Step world (journal.startOver (world.keep party kept) party)

/-- The worlds some run leads to. -/
abbrev Reached : World Party Observation Record Entry Recorder → Prop :=
  Reachable journal.empty journal.Step

/-! ### Readings -/

theorem reading_of {party : Party} {record : Record} {entry : Entry}
    (carries : journal.carried entry = some (party, record)) (entries : List Entry) :
    journal.reading party (entries ++ [entry]) =
      journal.read (journal.reading party entries) entry := by
  have isOwn : journal.isOf party entry = true := by simp [isOf, carries]
  rw [reading, List.filter_append, List.filter_singleton, isOwn, cond_true, List.foldl_append]
  rfl

theorem reading_of_not {party : Party} {entry : Entry} (notOwn : journal.isOf party entry = false)
    (entries : List Entry) :
    journal.reading party (entries ++ [entry]) = journal.reading party entries := by
  rw [reading, List.filter_append, List.filter_singleton, notOwn, cond_false, List.append_nil]
  rfl

/-- A reader that reads the records not lost, each safely, ends at what is aimed at. -/
def Tells (safe aim : Reader → Prop) (party : Party) : List Record → Reader → Prop
  | [], reader => aim reader
  | record :: rest, reader =>
    (∀ entry, journal.carried entry = some (party, record) →
      safe (journal.read reader entry) ∧ Tells safe aim party rest (journal.read reader entry)) ∧
    (journal.Losable record → Tells safe aim party rest reader)

variable (follows : List Observation → Recorder → Reader → Prop) (safe : Reader → Prop)

/-- A reader follows a recorder whatever is observed, and is safe. -/
structure Follows : Prop where
  start : safe journal.start
  /-- Any safe reader follows a recorder of nothing. -/
  fresh : ∀ reader, safe reader → follows [] journal.fresh reader
  observe : ∀ party observed recorder reader observation, journal.Admits observation →
    safe reader → follows observed recorder reader →
    journal.Tells safe
      (follows (observed ++ [observation]) (journal.observe party recorder observation).2) party
      (journal.observe party recorder observation).1 reader

variable {journal follows safe}

omit [DecidableEq Party] in
/-- Records are read one after another. -/
theorem Tells.append {party : Party} {middle aim : Reader → Prop} {first second : List Record}
    {reader : Reader} (isSafe : safe reader) (tells : journal.Tells safe middle party first reader)
    (more : ∀ reader, safe reader → middle reader →
      journal.Tells safe aim party second reader) :
    journal.Tells safe aim party (first ++ second) reader := by
  induction first generalizing reader with
  | nil => exact more reader isSafe tells
  | cons record rest inductionHypothesis =>
    refine ⟨fun entry carries => ?_, fun losable => inductionHypothesis isSafe (tells.2 losable)⟩
    obtain ⟨nextSafe, nextTells⟩ := tells.1 entry carries
    exact ⟨nextSafe, inductionHypothesis nextSafe nextTells⟩

omit [DecidableEq Party] in
theorem Tells.mono {party : Party} {aim other : Reader → Prop} {records : List Record}
    {reader : Reader} (tells : journal.Tells safe aim party records reader)
    (isAlso : ∀ reader, aim reader → other reader) :
    journal.Tells safe other party records reader := by
  induction records generalizing reader with
  | nil => exact isAlso reader tells
  | cons record rest inductionHypothesis =>
    refine ⟨fun entry carries => ?_, fun losable => inductionHypothesis (tells.2 losable)⟩
    obtain ⟨nextSafe, nextTells⟩ := tells.1 entry carries
    exact ⟨nextSafe, inductionHypothesis nextTells⟩

omit [DecidableEq Party] in
/-- The first of the records are read safely, to what any safe reader is at. -/
theorem Tells.cut {party : Party} {aim other : Reader → Prop}
    (always : ∀ reader, safe reader → other reader) {kept lost : List Record} {reader : Reader}
    (isSafe : safe reader) (tells : journal.Tells safe aim party (kept ++ lost) reader) :
    journal.Tells safe other party kept reader := by
  induction kept generalizing reader with
  | nil => exact always reader isSafe
  | cons record rest inductionHypothesis =>
    refine ⟨fun entry carries => ?_, fun losable => inductionHypothesis isSafe (tells.2 losable)⟩
    obtain ⟨nextSafe, nextTells⟩ := tells.1 entry carries
    exact ⟨nextSafe, inductionHypothesis nextSafe nextTells⟩

/-! ### What a run keeps -/

variable (journal follows safe) in
/-- The reader of each party is safe, and follows its recorder once it reads what is pending. -/
def Kept (world : World Party Observation Record Entry Recorder) : Prop :=
  ∀ party, safe (journal.reading party world.entries) ∧
    journal.Tells safe (follows (world.observed party) (world.recorder party)) party
      (world.pending party) (journal.reading party world.entries)

theorem Kept.step (keeps : journal.Follows follows safe)
    {before after : World Party Observation Record Entry Recorder}
    (kept : journal.Kept follows safe before) (next : journal.Step before after) :
    journal.Kept follows safe after := by
  intro party
  obtain ⟨isSafe, tells⟩ := kept party
  cases next with
  | observe observer observation admitted =>
    refine ⟨isSafe, ?_⟩
    dsimp only [record]
    by_cases same : party = observer
    · subst same
      simp only [Function.update_self]
      exact tells.append isSafe fun reader readerSafe readerFollows =>
        keeps.observe party _ _ reader observation admitted readerSafe readerFollows
    · simp only [Function.update_of_ne same]
      exact tells
  | write writer record rest entry first carries =>
    dsimp only [World.keep, World.push]
    by_cases same : party = writer
    · subst same
      rw [first] at tells
      simp only [Function.update_self, journal.reading_of carries]
      exact tells.1 entry carries
    · have notOwn : journal.isOf party entry = false := by
        simp [isOf, carries, Ne.symm same]
      simp only [Function.update_of_ne same, journal.reading_of_not notOwn]
      exact ⟨isSafe, tells⟩
  | lose writer record rest first losable =>
    refine ⟨isSafe, ?_⟩
    dsimp only [World.keep]
    by_cases same : party = writer
    · subst same
      rw [first] at tells
      simp only [Function.update_self]
      exact tells.2 losable
    · simp only [Function.update_of_ne same]
      exact tells
  | other entry carries =>
    have notOwn : journal.isOf party entry = false := by simp [isOf, carries]
    dsimp only [World.push]
    simp only [journal.reading_of_not notOwn]
    exact ⟨isSafe, tells⟩
  | refuse writer kept refused cut =>
    refine ⟨isSafe, ?_⟩
    dsimp only [startOver, World.keep]
    by_cases same : party = writer
    · subst same
      rw [cut] at tells
      simp only [Function.update_self]
      exact tells.cut keeps.fresh isSafe
    · simp only [Function.update_of_ne same]
      exact tells

theorem Follows.kept (keeps : journal.Follows follows safe)
    {world : World Party Observation Record Entry Recorder} (reached : journal.Reached world) :
    journal.Kept follows safe world :=
  reached.invariant (journal.Kept follows safe)
    (fun _ => ⟨keeps.start, keeps.fresh _ keeps.start⟩)
    fun _ _ _ kept next => kept.step keeps next

/-- With nothing left to write, the reader of a party follows its recorder. -/
theorem Follows.reads_back (keeps : journal.Follows follows safe)
    {world : World Party Observation Record Entry Recorder} (reached : journal.Reached world)
    {party : Party} (written : world.pending party = []) :
    follows (world.observed party) (world.recorder party)
      (journal.reading party world.entries) := by
  have tells := (keeps.kept reached party).2
  rw [written] at tells
  exact tells

/-- What a run wrote up to an entry, a shorter run wrote. -/
theorem reached_before {world : World Party Observation Record Entry Recorder}
    (reached : journal.Reached world) {entries : List Entry}
    (isPrefix : entries <+: world.entries) :
    ∃ earlier, journal.Reached earlier ∧ earlier.entries = entries := by
  induction reached with
  | start => exact ⟨journal.empty, .start, (List.prefix_nil.mp isPrefix).symm⟩
  | @step before after reached next inductionHypothesis =>
    have grown : after.entries = before.entries ∨ ∃ entry, after.entries = before.entries ++ [entry] := by
      cases next with
      | observe => exact .inl rfl
      | write _ _ _ entry => exact .inr ⟨entry, rfl⟩
      | lose => exact .inl rfl
      | other entry => exact .inr ⟨entry, rfl⟩
      | refuse => exact .inl rfl
    rcases grown with same | ⟨entry, isLonger⟩
    · exact inductionHypothesis (same ▸ isPrefix)
    · rw [isLonger, List.prefix_concat_iff] at isPrefix
      rcases isPrefix with isWhole | shorter
      · exact ⟨after, reached.step next, isLonger.trans isWhole.symm⟩
      · exact inductionHypothesis shorter

/-- The reader of every party is safe after every entry. -/
theorem Follows.safe_before (keeps : journal.Follows follows safe)
    {world : World Party Observation Record Entry Recorder} (reached : journal.Reached world)
    (party : Party) {entries : List Entry} (isPrefix : entries <+: world.entries) :
    safe (journal.reading party entries) := by
  obtain ⟨earlier, isEarlier, rfl⟩ := reached_before reached isPrefix
  exact (keeps.kept isEarlier party).1

end Journal

end Dagq.Lib
