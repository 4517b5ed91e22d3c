/-
This file models the row that says which process leads the writes of a queue. A takeover moves its
generation on by one, and every write starts by matching its holder and generation with the row, so
once a process took over, none writes under an earlier generation, whatever the clocks say. The
clock of the database says only when another process may take over: not while the lease that the
last write extended still runs.
-/

import Dagq.Lib.Transition

namespace Dagq.Leader

open Dagq.Lib

/-! ### The row -/

/-- How long a lease lasts from its takeover or its last extension, in milliseconds. -/
def lease : Int := 30000

structure WriteLeader where
  /-- None while no process has ever led. -/
  holder : Option String
  /-- The fencing number; 0 while no process has led. -/
  generation : Int
  /-- The end of the lease by the clock of the database; 0 when released or never taken. -/
  leaseUntilMs : Int
  acquiredAtMs : Option Int
  deriving DecidableEq, Repr

/-- The row the migration leaves. -/
def WriteLeader.fresh : WriteLeader := ⟨none, 0, 0, none⟩

/-- Whom a process writes as. -/
structure WriteIdentity where
  holder : Option String
  generation : Int
  deriving DecidableEq, Repr

def WriteLeader.identity (row : WriteLeader) : WriteIdentity := ⟨row.holder, row.generation⟩

inductive Takeover where
  | take
  | wait (untilMs : Int)
  deriving DecidableEq, Repr

/-- Whether a process that is not the leader takes the row over. -/
def takeover (row : WriteLeader) (nowMs : Int) (localProof : Bool) : Takeover :=
  if localProof || row.leaseUntilMs ≤ nowMs then .take else .wait row.leaseUntilMs

/-! ### Statements -/

/-- Take the row as the holder, when its lease ran out or was released, or on the local proof. -/
def take (row : WriteLeader) (nowMs : Int) (holder : String) (leaseMs : Int) (localProof : Bool) :
    Option WriteLeader :=
  if row.leaseUntilMs ≤ nowMs ∨ localProof = true then
    some ⟨some holder, row.generation + 1, nowMs + leaseMs, some nowMs⟩
  else none

/-- Extend the lease of an identity that matches. -/
def renew (row : WriteLeader) (nowMs : Int) (identity : WriteIdentity) (leaseMs : Int) :
    Option WriteLeader :=
  if identity = row.identity then some { row with leaseUntilMs := nowMs + leaseMs } else none

/-- The first statement of every write: only takeover fences an old writer, so the end of the lease
is not asked for. -/
def fence (row : WriteLeader) (nowMs : Int) (identity : WriteIdentity) : Option WriteLeader :=
  renew row nowMs identity lease

def release (row : WriteLeader) (holder : String) (generation : Int) : Option WriteLeader :=
  if row.identity = ⟨some holder, generation⟩ then some { row with leaseUntilMs := 0 } else none

/-- Whether a migration that read this identity locks the row. -/
def lockMigration (row : WriteLeader) (identity : WriteIdentity) : Bool := identity = row.identity

/-- The statement changes the row exactly where the process would take it over. -/
theorem take_isSome_iff (row : WriteLeader) (nowMs : Int) (holder : String) (leaseMs : Int)
    (localProof : Bool) :
    (take row nowMs holder leaseMs localProof).isSome = true ↔
      takeover row nowMs localProof = .take := by
  unfold take takeover
  cases localProof <;> by_cases ended : row.leaseUntilMs ≤ nowMs <;> simp [ended]

/-! ### Processes -/

/-- What was committed, with the clock of the database then. -/
inductive Commit where
  | took (nowMs : Int) (holder : String) (generation : Int) (localProof : Bool)
  | wrote (nowMs : Int) (identity : WriteIdentity)
  | renewed (nowMs : Int) (identity : WriteIdentity)
  | released (nowMs : Int) (identity : WriteIdentity)
  | migrated (nowMs : Int) (identity : WriteIdentity)
  deriving DecidableEq, Repr

/-- The row, and all that was committed, the first first. -/
structure Queue where
  row : WriteLeader
  commits : List Commit

def Queue.fresh : Queue := ⟨.fresh, []⟩

def Queue.commit (queue : Queue) (row : WriteLeader) (commit : Commit) : Queue :=
  ⟨row, queue.commits ++ [commit]⟩

/-- A process commits a statement at what the database's clock says then, writing as whomever it
takes itself for; one that matches no row changes nothing. -/
inductive LeaderStep : Queue → Queue → Prop
  | took {queue : Queue} {row : WriteLeader} (nowMs : Int) (holder : String) (localProof : Bool)
      (taken : take queue.row nowMs holder lease localProof = some row) :
      LeaderStep queue (queue.commit row (.took nowMs holder row.generation localProof))
  | wrote {queue : Queue} {row : WriteLeader} (nowMs : Int) (identity : WriteIdentity)
      (fenced : fence queue.row nowMs identity = some row) :
      LeaderStep queue (queue.commit row (.wrote nowMs identity))
  | renewed {queue : Queue} {row : WriteLeader} (nowMs : Int) (holder : String) (generation : Int)
      (extended : renew queue.row nowMs ⟨some holder, generation⟩ lease = some row) :
      LeaderStep queue (queue.commit row (.renewed nowMs ⟨some holder, generation⟩))
  | released {queue : Queue} {row : WriteLeader} (nowMs : Int) (holder : String) (generation : Int)
      (freed : release queue.row holder generation = some row) :
      LeaderStep queue (queue.commit row (.released nowMs ⟨some holder, generation⟩))
  | migrated {queue : Queue} (nowMs : Int) (identity : WriteIdentity)
      (locked : lockMigration queue.row identity = true) :
      LeaderStep queue (queue.commit queue.row (.migrated nowMs identity))
  | refused {queue : Queue} : LeaderStep queue queue

/-- Whom a commit was made as: a takeover as the leader it makes. -/
def Commit.identity : Commit → WriteIdentity
  | .took _ holder generation _ => ⟨some holder, generation⟩
  | .wrote _ identity | .renewed _ identity | .released _ identity | .migrated _ identity => identity

def Commit.nowMs : Commit → Int
  | .took nowMs .. | .wrote nowMs _ | .renewed nowMs _ | .released nowMs _ | .migrated nowMs _ =>
    nowMs

def Commit.isTakeover : Commit → Bool
  | .took .. => true
  | _ => false

/-! ### What a step can do -/

/-- Each commit is made as the leader of the row it leaves; a takeover moves the generation on by one,
any other keeps the leader. -/
theorem LeaderStep.cases {before after : Queue} (step : LeaderStep before after) :
    after = before ∨ ∃ commit, after.commits = before.commits ++ [commit] ∧
      commit.identity = after.row.identity ∧
      (commit.isTakeover = true → after.row.generation = before.row.generation + 1) ∧
      (commit.isTakeover = false → after.row.identity = before.row.identity) := by
  cases step with
  | took nowMs holder localProof taken =>
    unfold take at taken
    split at taken
    · cases taken
      exact Or.inr ⟨_, rfl, rfl, fun _ => rfl, nofun⟩
    · cases taken
  | wrote nowMs identity fenced =>
    unfold fence renew at fenced
    split at fenced
    · rename_i same
      cases fenced
      exact Or.inr ⟨_, rfl, same, nofun, fun _ => rfl⟩
    · cases fenced
  | renewed nowMs holder generation extended =>
    unfold renew at extended
    split at extended
    · rename_i same
      cases extended
      exact Or.inr ⟨_, rfl, same, nofun, fun _ => rfl⟩
    · cases extended
  | released nowMs holder generation freed =>
    unfold release at freed
    split at freed
    · rename_i same
      cases freed
      exact Or.inr ⟨_, rfl, same.symm, nofun, fun _ => rfl⟩
    · cases freed
  | migrated nowMs identity locked =>
    exact Or.inr ⟨_, rfl, of_decide_eq_true locked, nofun, fun _ => rfl⟩
  | refused => exact Or.inl rfl

/-! ### One leader at a time -/

/-- Of two commits, the earlier one is under an earlier generation, or under the same one and as the
same leader with no takeover since. -/
def Commit.before (first second : Commit) : Prop :=
  first.identity.generation < second.identity.generation ∨
    first.identity = second.identity ∧ second.isTakeover = false

/-- Every commit is before every later one, and none is past the row. -/
structure Fenced (queue : Queue) : Prop where
  ordered : queue.commits.Pairwise Commit.before
  current : ∀ commit ∈ queue.commits, commit.identity.generation < queue.row.generation ∨
    commit.identity = queue.row.identity

theorem fenced_step {before after : Queue} (fenced : Fenced before) (step : LeaderStep before after) :
    Fenced after := by
  rcases step.cases with rfl | ⟨commit, isCommits, asLeader, moved, kept⟩
  · exact fenced
  have generations : before.row.generation = before.row.identity.generation := rfl
  have sameGeneration : after.row.generation = after.row.identity.generation := rfl
  have old : ∀ earlier ∈ before.commits, earlier.before commit ∧
      (earlier.identity.generation < after.row.generation ∨
        earlier.identity = after.row.identity) := by
    intro earlier member
    cases isTakeover : commit.isTakeover with
    | true =>
      have lower : earlier.identity.generation < after.row.generation := by
        rcases fenced.current earlier member with below | same
        · rw [moved isTakeover]
          omega
        · rw [moved isTakeover, same, generations]
          omega
      exact ⟨Or.inl (by rwa [asLeader, ← sameGeneration]), Or.inl lower⟩
    | false =>
      have same := kept isTakeover
      rcases fenced.current earlier member with below | isSame
      · have lower : earlier.identity.generation < after.row.generation := by
          rwa [sameGeneration, same, ← generations]
        exact ⟨Or.inl (by rwa [asLeader, ← sameGeneration]), Or.inl lower⟩
      · exact ⟨Or.inr ⟨by rw [asLeader, same, isSame], isTakeover⟩, Or.inr (by rw [same, isSame])⟩
  constructor
  · rw [isCommits]
    refine List.pairwise_append.mpr ⟨fenced.ordered, List.pairwise_singleton _ _, ?_⟩
    intro earlier member last isLast
    rw [List.mem_singleton.mp isLast]
    exact (old earlier member).1
  · intro earlier member
    rw [isCommits] at member
    rcases List.mem_append.mp member with before | last
    · exact (old earlier before).2
    · rw [List.mem_singleton.mp last]
      exact Or.inr asLeader

theorem fenced_of_reachable {queue : Queue} (reached : Reachable .fresh LeaderStep queue) :
    Fenced queue :=
  reached.invariant Fenced ⟨List.Pairwise.nil, nofun⟩ fun _ _ _ fenced step =>
    fenced_step fenced step

/-- Whatever the processes take themselves for and whatever their clocks say, a takeover parts the
commits: all before it are under earlier generations, and all after it as its own holder until one
under a later generation. -/
theorem takeover_fences {queue : Queue} (reached : Reachable .fresh LeaderStep queue)
    {before after : List Commit} {nowMs : Int} {holder : String} {generation : Int}
    {localProof : Bool}
    (isCut : queue.commits = before ++ .took nowMs holder generation localProof :: after) :
    (∀ commit ∈ before, commit.identity.generation < generation) ∧
      ∀ commit ∈ after, generation < commit.identity.generation ∨
        commit.identity = ⟨some holder, generation⟩ ∧ commit.isTakeover = false := by
  have ordered := (fenced_of_reachable reached).ordered
  rw [isCut, List.pairwise_append, List.pairwise_cons] at ordered
  obtain ⟨_, ⟨later, _⟩, earlier⟩ := ordered
  refine ⟨fun commit member => ?_, fun commit member => ?_⟩
  · exact (earlier commit member _ List.mem_cons_self).resolve_right nofun
  · exact (later commit member).imp id fun same => ⟨same.1.symm, same.2⟩

theorem takeover_fences_second :
    2 < (Commit.wrote 7 ⟨some "b", 2⟩).identity.generation ∨
      (Commit.wrote 7 ⟨some "b", 2⟩).identity = ⟨some "b", 2⟩ ∧
        (Commit.wrote 7 ⟨some "b", 2⟩).isTakeover = false := by
  have reached : Reachable .fresh LeaderStep
      ⟨⟨some "b", 2, 30007, some 6⟩,
        [.took 5 "a" 1 false, .wrote 3 ⟨some "a", 1⟩, .took 6 "b" 2 true, .wrote 7 ⟨some "b", 2⟩]⟩ :=
    (((Reachable.start.step (.took 5 "a" false rfl)).step (.wrote 3 ⟨some "a", 1⟩ rfl)).step
      (.took 6 "b" true rfl)).step (.wrote 7 ⟨some "b", 2⟩ rfl)
  have isCut : [Commit.took 5 "a" 1 false, .wrote 3 ⟨some "a", 1⟩, .took 6 "b" 2 true,
      .wrote 7 ⟨some "b", 2⟩] = [.took 5 "a" 1 false, .wrote 3 ⟨some "a", 1⟩] ++
        .took 6 "b" 2 true :: [.wrote 7 ⟨some "b", 2⟩] := rfl
  exact (takeover_fences reached isCut).2 _ (List.mem_singleton.mpr rfl)

/-! ### The lease -/

/-- The end that a commit gives the lease, where it gives one. -/
def Commit.leaseEnd : Commit → Option Int
  | .took nowMs .. | .wrote nowMs _ | .renewed nowMs _ => some (nowMs + lease)
  | .released .. => some 0
  | .migrated .. => none

def Commit.isRelease : Commit → Bool
  | .released .. => true
  | _ => false

/-- The end of the lease after these commits. -/
def leaseEnd (commits : List Commit) : Int :=
  commits.foldl (fun untilMs commit => commit.leaseEnd.getD untilMs) 0

theorem leaseEnd_concat (commits : List Commit) (commit : Commit) :
    leaseEnd (commits ++ [commit]) = commit.leaseEnd.getD (leaseEnd commits) :=
  List.foldl_append ..

/-- The row's lease ends where the commits say, and a takeover without the local proof was made only
once it had. -/
structure Leased (queue : Queue) : Prop where
  row : queue.row.leaseUntilMs = leaseEnd queue.commits
  waited : ∀ before nowMs holder generation after,
    queue.commits = before ++ .took nowMs holder generation false :: after → leaseEnd before ≤ nowMs

/-- A cut of commits with one more is a cut of those before it, or is at the last one. -/
theorem waited_concat {commits : List Commit} {commit : Commit}
    (waited : ∀ before nowMs holder generation after,
      commits = before ++ .took nowMs holder generation false :: after → leaseEnd before ≤ nowMs)
    (now : ∀ nowMs holder generation, commit = .took nowMs holder generation false →
      leaseEnd commits ≤ nowMs) :
    ∀ before nowMs holder generation after,
      commits ++ [commit] = before ++ .took nowMs holder generation false :: after →
        leaseEnd before ≤ nowMs := by
  intro before nowMs holder generation after isCut
  rcases List.eq_nil_or_concat after with rfl | ⟨rest, last, rfl⟩
  · obtain ⟨rfl, isLast⟩ := List.append_inj' isCut rfl
    exact now nowMs holder generation (List.cons.inj isLast).1
  · rw [List.concat_eq_append, ← List.cons_append, ← List.append_assoc] at isCut
    exact waited before nowMs holder generation rest (List.append_inj' isCut rfl).1

theorem Leased.commit {queue : Queue} (leased : Leased queue) {row : WriteLeader} {commit : Commit}
    (isEnd : row.leaseUntilMs = commit.leaseEnd.getD queue.row.leaseUntilMs)
    (now : ∀ nowMs holder generation, commit = .took nowMs holder generation false →
      queue.row.leaseUntilMs ≤ nowMs) : Leased (queue.commit row commit) where
  row := isEnd.trans (by rw [leased.row, Queue.commit, leaseEnd_concat])
  waited := waited_concat leased.waited (leased.row ▸ now)

theorem leased_step {before after : Queue} (leased : Leased before) (step : LeaderStep before after) :
    Leased after := by
  cases step with
  | took nowMs holder localProof taken =>
    unfold take at taken
    split at taken
    · rename_i allowed
      cases taken
      refine leased.commit rfl ?_
      rintro _ _ _ isTook
      cases isTook
      exact allowed.resolve_right nofun
    · cases taken
  | wrote nowMs identity fenced =>
    unfold fence renew at fenced
    split at fenced
    · cases fenced
      exact leased.commit rfl nofun
    · cases fenced
  | renewed nowMs holder generation extended =>
    unfold renew at extended
    split at extended
    · cases extended
      exact leased.commit rfl nofun
    · cases extended
  | released nowMs holder generation freed =>
    unfold release at freed
    split at freed
    · cases freed
      exact leased.commit rfl nofun
    · cases freed
  | migrated nowMs identity locked => exact leased.commit rfl nofun
  | refused => exact leased

theorem leased_of_reachable {queue : Queue} (reached : Reachable .fresh LeaderStep queue) :
    Leased queue :=
  reached.invariant Leased ⟨rfl, fun before _ _ _ _ isCut => by cases before <;> cases isCut⟩
    fun _ _ _ leased step => leased_step leased step

/-- Without a release, a lease only ends later while the clock does not go back. -/
theorem leaseEnd_mono {before rest : List Commit} {untilMs : Int} (held : untilMs ≤ leaseEnd before)
    (kept : ∀ commit ∈ rest, commit.isRelease = false ∧ untilMs ≤ commit.nowMs + lease) :
    untilMs ≤ leaseEnd (before ++ rest) := by
  induction rest using List.reverseRecOn with
  | nil => rwa [List.append_nil]
  | append_singleton rest last inductionHypothesis =>
    have earlier := inductionHypothesis fun commit member =>
      kept commit (List.mem_append_left _ member)
    obtain ⟨notReleased, notBefore⟩ := kept last (List.mem_append_right _ List.mem_cons_self)
    rw [← List.append_assoc, leaseEnd_concat]
    cases last with
    | released => cases notReleased
    | migrated => exact earlier
    | _ => exact notBefore

/-- While the database's clock does not go back, another process takes over without the local proof
only a whole lease after each takeover, write or extension before it, unless the row was released
since. -/
theorem takeover_waits {queue : Queue} (reached : Reachable .fresh LeaderStep queue)
    (forward : queue.commits.Pairwise fun first second => first.nowMs ≤ second.nowMs)
    {before rest after : List Commit} {extension : Commit} {nowMs : Int} {holder : String}
    {generation : Int}
    (isCut : queue.commits =
      before ++ extension :: rest ++ .took nowMs holder generation false :: after)
    (extends_ : extension.leaseEnd = some (extension.nowMs + lease))
    (unreleased : ∀ commit ∈ rest, commit.isRelease = false) : extension.nowMs + lease ≤ nowMs := by
  have ended := (leased_of_reachable reached).waited _ nowMs holder generation after isCut
  rw [isCut, List.pairwise_append, List.pairwise_append, List.pairwise_cons] at forward
  refine le_trans ?_ ended
  have isEnd : leaseEnd (before ++ [extension]) = extension.nowMs + lease := by
    rw [leaseEnd_concat, extends_, Option.getD_some]
  rw [List.append_cons]
  refine leaseEnd_mono isEnd.ge fun commit member => ⟨unreleased commit member, ?_⟩
  have later := forward.1.2.1.1 commit member
  omega

theorem takeover_waits_second : (3 : Int) + lease ≤ 30003 := by
  have reached : Reachable .fresh LeaderStep
      ⟨⟨some "b", 2, 60003, some 30003⟩,
        [.took 1 "a" 1 false, .wrote 3 ⟨some "a", 1⟩, .took 30003 "b" 2 false]⟩ :=
    ((Reachable.start.step (.took 1 "a" false rfl)).step (.wrote 3 ⟨some "a", 1⟩ rfl)).step
      (.took 30003 "b" false rfl)
  have forward : [Commit.took 1 "a" 1 false, .wrote 3 ⟨some "a", 1⟩, .took 30003 "b" 2 false].Pairwise
      fun first second => first.nowMs ≤ second.nowMs := by decide
  have isCut : [Commit.took 1 "a" 1 false, .wrote 3 ⟨some "a", 1⟩, .took 30003 "b" 2 false] =
      [.took 1 "a" 1 false] ++ .wrote 3 ⟨some "a", 1⟩ :: [] ++ .took 30003 "b" 2 false :: [] := rfl
  exact takeover_waits reached forward isCut rfl nofun

end Dagq.Leader
