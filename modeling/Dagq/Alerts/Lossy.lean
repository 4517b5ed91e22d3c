/-
This file proves what the versions and the reaches of a stream of the judgments of now
are for. Where records may be lost that their supervisor takes for written, all but
its baselines, a fold either holds what the supervisor recorded or has fallen behind;
once a reach of the supervisor's version is read, one that has fallen behind shows a
record missing, so what is taken of the others is what was seen last.
-/

import Dagq.Alerts.Standing

namespace Dagq.Alerts

open Dagq.Ledger Dagq.Lib

/-- The supervisors, whose records may be lost, all but their baselines. -/
abbrev lossyJournal : Journal String (Int × Observation) Record RunEvent LiveRecorder StreamFold :=
  journalWith fun record => record.1 ≠ .baseline

/-! ### Streams that fell behind -/

/-- A fold misses a change of the stream. -/
def Behind (stream : Stream) (reader : StreamFold) : Prop :=
  reader.baselined = true ∧ (reader.broken = true ∨ reader.version < stream.version)

/-- A fold holds what a stream does, or fell behind it. -/
def OnOrBehind (stream : Stream) (reader : StreamFold) : Prop :=
  Mirrors stream reader ∨ Behind stream reader

section Steps

variable {stream : Stream} {reader : StreamFold}

/-- A fold that misses a change falls behind. -/
theorem OnOrBehind.lose_change (onOrBehind : OnOrBehind stream reader) (target : Target)
    (value : Value) : OnOrBehind (stream.change target value) reader := by
  have later : stream.version < (stream.change target value).version := Nat.lt_succ_self _
  rcases onOrBehind with mirrors | ⟨baselined, behind⟩
  · exact .inr ⟨mirrors.baselined, .inr (mirrors.version ▸ later)⟩
  · exact .inr ⟨baselined, behind.imp_right fun earlier => earlier.trans later⟩

/-- A change read by a fold that fell behind is out of order. -/
theorem OnOrBehind.read_change (onOrBehind : OnOrBehind stream reader) {target : Target}
    {value : Value} (recorded : Recorded target value) (supervisor : String) (time : Int)
    (id : Nat) :
    OnOrBehind (stream.change target value) (reader.record .inputChanged
      (inputPayload supervisor (stream.version + 1) target value) time id) := by
  rcases onOrBehind with mirrors | ⟨baselined, behind⟩
  · exact .inl (mirrors.change recorded supervisor time id)
  · right
    have outOfOrder : ¬((Option.some (Value.int ((stream.version + 1 : Nat) : Int))).bind
        Value.asU64 = some (reader.version + 1) ∧ reader.broken = false) := by
      rintro ⟨next, whole⟩
      rw [Option.bind_some, Value.asU64_natCast, Option.some.injEq] at next
      rcases behind with broken | earlier
      · rw [whole] at broken
        cases broken
      · omega
    rw [StreamFold.record]
    dsimp only
    rw [inputPayload_version, if_pos baselined, if_neg outOfOrder]
    exact ⟨baselined, .inl rfl⟩

theorem OnOrBehind.same (onOrBehind : OnOrBehind stream reader) {other : Stream}
    {next : StreamFold} (version : other.version = stream.version)
    (values : other.values = stream.values)
    (fields : next.baselined = reader.baselined ∧ next.broken = reader.broken ∧
      next.version = reader.version ∧ next.slots = reader.slots ∧ next.config = reader.config ∧
      next.runs = reader.runs) : OnOrBehind other next := by
  rcases onOrBehind with mirrors | ⟨baselined, behind⟩
  · exact .inl (mirrors.same version values fields)
  · right
    rw [Behind, fields.1, fields.2.1, fields.2.2.1, version]
    exact ⟨baselined, behind⟩

theorem OnOrBehind.baselined (onOrBehind : OnOrBehind stream reader) : reader.baselined = true :=
  onOrBehind.elim Mirrors.baselined And.left

end Steps

/-! ### A recorder and its fold -/

/-- A fold is on a recorder's stream or behind it, and the stream holds what was seen last. -/
structure FollowsLossy (observed : List (Int × Observation)) (recorder : LiveRecorder)
    (reader : StreamFold) : Prop where
  nothing : recorder.stream = none → lastSeen observed = none
  stream : ∀ stream, recorder.stream = some stream →
    OnOrBehind stream reader ∧
      ∃ inputs, lastSeen observed = some inputs ∧ inputs.Listed ∧ stream.Holds inputs

/-- Any fold. -/
def Anyhow (_ : StreamFold) : Prop := True

section Tells

variable {supervisor : String} {stream : Stream} {reader : StreamFold}

theorem lossy_changeAll {changes : List (Target × Value)}
    (recorded : ∀ target value, (target, value) ∈ changes → Recorded target value)
    (onOrBehind : OnOrBehind stream reader) :
    lossyJournal.Tells Anyhow (OnOrBehind (stream.changeAll supervisor changes).2) supervisor
      (stream.changeAll supervisor changes).1 reader := by
  induction changes generalizing stream reader with
  | nil => exact onOrBehind
  | cons change rest inductionHypothesis =>
    have others : ∀ target value, (target, value) ∈ rest → Recorded target value :=
      fun target value inside => recorded target value (List.mem_cons_of_mem _ inside)
    refine ⟨fun event carries => ⟨trivial, ?_⟩, fun _ => ?_⟩
    · obtain ⟨time, _, reads⟩ := read_of_carried carries
      have first := recorded change.1 change.2 List.mem_cons_self
      exact reads reader ▸
        inductionHypothesis others (onOrBehind.read_change first supervisor time event.id)
    · exact inductionHypothesis others (onOrBehind.lose_change change.1 change.2)

theorem lossy_alerts {kind : RecordKind} (isAlert : kind = .started ∨ kind = .ended)
    (alerts : List AlertKey) (onOrBehind : OnOrBehind stream reader) :
    lossyJournal.Tells Anyhow (OnOrBehind stream) supervisor
      (alerts.map fun alert => (kind, keyPayload supervisor alert)) reader := by
  induction alerts generalizing reader with
  | nil => exact onOrBehind
  | cons alert rest inductionHypothesis =>
    refine ⟨fun event carries => ⟨trivial, ?_⟩, fun _ => inductionHypothesis onOrBehind⟩
    obtain ⟨time, _, reads⟩ := read_of_carried carries
    rw [reads reader, StreamFold.record_alert isAlert onOrBehind.baselined]
    exact inductionHypothesis (onOrBehind.same rfl rfl ⟨rfl, rfl, rfl, rfl, rfl, rfl⟩)

theorem lossy_seen (supervisor : String) (inputs : LiveInputs)
    (onOrBehind : OnOrBehind stream reader) (alerts : Finset AlertKey) :
    lossyJournal.Tells Anyhow
      (OnOrBehind (stream.changeAll supervisor (stream.changes (targets inputs))).2) supervisor
      ((stream.changeAll supervisor (stream.changes (targets inputs))).1 ++
        ((stream.open_ \ alerts).sort.map fun alert =>
          (RecordKind.ended, keyPayload supervisor alert)) ++
        (alerts \ stream.open_).sort.map fun alert =>
          (RecordKind.started, keyPayload supervisor alert)) reader := by
  have ended : lossyJournal.Tells Anyhow
      (OnOrBehind (stream.changeAll supervisor (stream.changes (targets inputs))).2) supervisor
      ((stream.changeAll supervisor (stream.changes (targets inputs))).1 ++
        (stream.open_ \ alerts).sort.map fun alert =>
          (RecordKind.ended, keyPayload supervisor alert)) reader :=
    (lossy_changeAll (fun _ _ inside => changes_recorded inside) onOrBehind).append trivial
      fun _ _ still => lossy_alerts (.inr rfl) _ still
  exact ended.append trivial fun _ _ still => lossy_alerts (.inl rfl) _ still

/-- A reach, of a success or a failure, changes nothing of the inputs. -/
theorem lossy_reach (onOrBehind : OnOrBehind stream reader) (version : Nat)
    (failure : Option String) :
    lossyJournal.Tells Anyhow (OnOrBehind stream) supervisor
      [(.reached, reachPayload supervisor version failure)] reader := by
  refine ⟨fun event carries => ⟨trivial, ?_⟩, fun _ => onOrBehind⟩
  obtain ⟨time, _, reads⟩ := read_of_carried carries
  rw [reads reader]
  cases failure with
  | none =>
    rw [StreamFold.record_reach onOrBehind.baselined]
    exact onOrBehind.same rfl rfl ⟨rfl, rfl, rfl, rfl, rfl, rfl⟩
  | some reason =>
    rw [StreamFold.record_failure]
    exact onOrBehind.same rfl rfl ⟨rfl, rfl, rfl, rfl, rfl, rfl⟩

end Tells

/-- A fold is on a recorder's stream or behind it whatever its supervisor observes next. -/
theorem followsLossy : lossyJournal.Follows FollowsLossy Anyhow where
  start := trivial
  fresh := fun _ _ => ⟨fun _ => rfl, fun _ isNone => by cases isNone⟩
  observe := by
    rintro supervisor observed recorder reader ⟨nowMs, observation⟩ admitted _ follows
    cases observation with
    | failed reason =>
      change lossyJournal.Tells Anyhow (FollowsLossy _ (recorder.observe supervisor nowMs _).2) _
        (recorder.observe supervisor nowMs _).1 reader
      -- the stream stays as it is
      have still : ∀ {failing : Option String} {lastReachMs : Option Int} {next : StreamFold},
          (∀ stream, recorder.stream = some stream → OnOrBehind stream next) →
          FollowsLossy (observed ++ [(nowMs, .failed reason)])
            ⟨recorder.stream, failing, lastReachMs⟩ next := fun onOrBehind => by
        refine ⟨fun none_ => ?_, fun stream isStream => ⟨onOrBehind stream isStream, ?_⟩⟩
        · rw [lastSeen_failed]
          exact follows.nothing none_
        · rw [lastSeen_failed]
          exact (follows.stream stream isStream).2
      rw [LiveRecorder.observe]
      split
      · cases isStream : recorder.stream with
        | none =>
          rw [isStream] at still
          exact ⟨fun _ _ => ⟨trivial, still fun _ isNone => by cases isNone⟩,
            fun _ => still fun _ isNone => by cases isNone⟩
        | some stream =>
          rw [isStream] at still
          refine (lossy_reach (follows.stream stream isStream).1 _ _).mono fun next onOrBehind =>
            still fun other same => ?_
          cases same
          exact onOrBehind
      · exact still fun stream isStream => (follows.stream stream isStream).1
    | seen inputs alerts =>
      have listed : inputs.Listed := admitted
      change lossyJournal.Tells Anyhow (FollowsLossy _ (recorder.observe supervisor nowMs _).2) _
        (recorder.observe supervisor nowMs _).1 reader
      rw [LiveRecorder.observe]
      cases isStream : recorder.stream with
      | none =>
        refine ⟨fun event carries => ⟨trivial, fun isNone => ?_, fun stream same => ?_⟩,
          fun lost => ?_⟩
        · cases isNone
        · obtain ⟨time, _, reads⟩ := read_of_carried carries
          cases same
          rw [reads reader]
          exact ⟨.inl (mirrors_baseline listed alerts supervisor time event.id reader), inputs,
            lastSeen_seen _ _ _ _, listed, holds_baseline listed alerts⟩
        · exact absurd rfl lost
      | some stream =>
        have told := lossy_seen supervisor inputs (follows.stream stream isStream).1 alerts
        have holds := holds_changeAll listed supervisor stream
        -- the stream with the alerts now open has the same values
        have following : ∀ {lastReachMs : Option Int} {next : StreamFold},
            OnOrBehind (stream.changeAll supervisor (stream.changes (targets inputs))).2 next →
            FollowsLossy (observed ++ [(nowMs, .seen inputs alerts)])
              { stream := some
                  { (stream.changeAll supervisor (stream.changes (targets inputs))).2 with
                    open_ := alerts }
                failing := none
                lastReachMs := lastReachMs } next := fun onOrBehind =>
          ⟨fun isNone => (by cases isNone), fun stream same => by
            cases same
            exact ⟨onOrBehind.same rfl rfl ⟨rfl, rfl, rfl, rfl, rfl, rfl⟩, inputs,
              lastSeen_seen _ _ _ _, listed, holds⟩⟩
        dsimp only
        split
        · exact told.append trivial fun next _ onOrBehind =>
            (lossy_reach onOrBehind _ _).mono fun _ still => following still
        · exact told.mono fun next onOrBehind => following onOrBehind

/-! ### What a reach finds out -/

/-- Once a reach of its supervisor's version is read, a stream with no record missing holds the
inputs its supervisor saw last, whatever records were lost. -/
theorem lost_found_out {world : World} (reached : lossyJournal.Reached world) {supervisor : String}
    (written : world.pending supervisor = []) {inputs : LiveInputs}
    (seen : lastSeen (world.observed supervisor) = some inputs) {reader : StreamFold}
    (found : (streamsOf world.entries).get? supervisor = some reader)
    (confirmed : ∀ stream, (world.recorder supervisor).stream = some stream →
      stream.version ≤ reader.confirmed)
    (noGap : reader.gap = false) : reader.inputs = some inputs := by
  have follows := followsLossy.reads_back reached written
  have isReading : lossyJournal.reading supervisor world.entries = reader := by
    rw [streamsOf_get?] at found
    split at found
    · exact Option.some.inj found
    · cases found
  rw [isReading] at follows
  obtain ⟨stream, isStream⟩ := Option.ne_none_iff_exists'.mp fun none_ => by
    rw [follows.nothing none_] at seen
    cases seen
  obtain ⟨onOrBehind, last, isLast, listed, holds⟩ := follows.stream stream isStream
  obtain rfl := Option.some.inj (seen.symm.trans isLast)
  obtain ⟨whole, reachedVersion⟩ := StreamFold.gap_eq_false.mp noGap
  rcases onOrBehind with mirrors | ⟨_, broken | earlier⟩
  · exact mirrors.inputs listed holds
  · rw [whole] at broken
    cases broken
  · exact absurd ((confirmed stream isStream).trans reachedVersion) (Nat.not_le.mpr earlier)

/-! The supervisor that saw a run claimed lost the record of its alert, and then reached its
version. -/

def reachRecord : Record := (.reached, reachPayload "a" 3 none)

def reachEvent : RunEvent := recordEvent 6 reachRecord "2026-10-30T00:06:00.000Z"

def lostWorld : World :=
  let observed := journal.record (claimedWorld.keep "a" []) "a"
    (360000, .seen claimedInputs {runningAlert})
  (observed.push reachEvent).keep "a" []

theorem lost_pending :
    (journal.record (claimedWorld.keep "a" []) "a"
      (360000, .seen claimedInputs {runningAlert})).pending "a" = [reachRecord] := by
  let first := Stream.ofBaseline freeInputs ∅
  let stream : Stream := { (first.changeAll "a" (first.changes (targets claimedInputs))).2 with
    open_ := {runningAlert} }
  have changed : stream.changes (targets claimedInputs) = [] := by rfl
  have isOpen : stream.open_ = {runningAlert} := rfl
  change (LiveRecorder.observe { stream := some stream, lastReachMs := some 0 } "a" 360000 _).1 = _
  simp only [LiveRecorder.observe, isOpen, changed, sdiff_self, Finset.bot_eq_empty,
    Finset.sort_empty]
  rfl

theorem lostWorld_reached : lossyJournal.Reached lostWorld := by
  have admitted : lossyJournal.Admits (360000, .seen claimedInputs {runningAlert}) :=
    claimedInputs_listed
  have losable : alertRecord.1 ≠ .baseline := by decide
  have lost : lossyJournal.Reached (claimedWorld.keep "a" []) :=
    claimedWorld_reached.step (.lose "a" alertRecord [] rfl losable)
  exact (lost.step (.observe "a" _ admitted)).step (.write "a" _ [] reachEvent lost_pending rfl)

/-- What is read of it after the reach. -/
def reachedStream : StreamFold :=
  { claimedStream with confirmed := 3, lastOk := some (1793318760000, 6) }

theorem lost_found_out_claimed : reachedStream.inputs = some claimedInputs := by
  have found : (streamsOf lostWorld.entries).get? "a" = some reachedStream := rfl
  refine lost_found_out lostWorld_reached rfl rfl found (fun stream isStream => ?_) rfl
  cases isStream
  exact le_rfl

end Dagq.Alerts
