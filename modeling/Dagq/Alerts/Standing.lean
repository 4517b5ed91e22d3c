/-
This file proves what the fold of the judgments of now gives in every run of the
supervisors, however their records interleave and whatever of them is lost with its
supervisor starting over: no stream ever shows a record missing, one with nothing left
to write holds exactly the inputs its supervisor saw last, and while such a one was
observed within the grace, a stream stands for the queue.
-/

import Dagq.Alerts.ReadsBack

namespace Dagq.Alerts

open Dagq.Ledger Dagq.Lib Dagq.PreClaim

/-! ### A recorder and its fold -/

/-- The inputs an observation saw. -/
def Observation.inputs : Observation → Option LiveInputs
  | .seen inputs _ => some inputs
  | .failed _ => none

/-- The inputs seen last. -/
def lastSeen (observed : List (Int × Observation)) : Option LiveInputs :=
  (observed.filterMap fun observation => observation.2.inputs).getLast?

theorem lastSeen_seen (observed : List (Int × Observation)) (nowMs : Int) (inputs : LiveInputs)
    (alerts : Finset AlertKey) :
    lastSeen (observed ++ [(nowMs, .seen inputs alerts)]) = some inputs := by
  rw [lastSeen, List.filterMap_append, List.getLast?_append]
  rfl

theorem lastSeen_failed (observed : List (Int × Observation)) (nowMs : Int) (reason : String) :
    lastSeen (observed ++ [(nowMs, .failed reason)]) = lastSeen observed := by
  rw [lastSeen, List.filterMap_append]
  exact congrArg List.getLast? (List.append_nil _)

/-- A fold follows a recorder: it holds what the recorder's stream does, which is what was seen
last, and it fails where the recorder does. -/
structure FollowsRecorder (observed : List (Int × Observation)) (recorder : LiveRecorder)
    (reader : StreamFold) : Prop where
  failing : recorder.failing.isSome = true → reader.failing = true
  nothing : recorder.stream = none → lastSeen observed = none
  mirrors : ∀ stream, recorder.stream = some stream →
    Mirrors stream reader ∧ reader.failing = recorder.failing.isSome ∧
      ∃ inputs, lastSeen observed = some inputs ∧ inputs.Listed ∧ stream.Holds inputs

/-- A fold holds what a stream does, its observations failing or not. -/
def Tracks (stream : Stream) (failing : Bool) (reader : StreamFold) : Prop :=
  Mirrors stream reader ∧ reader.failing = failing

section Tells

variable {supervisor : String} {stream : Stream} {reader : StreamFold}

/-- The records of the changes are read to a fold of the stream after them. -/
theorem tells_changeAll {changes : List (Target × Value)}
    (recorded : ∀ target value, (target, value) ∈ changes → Recorded target value)
    (mirrors : Mirrors stream reader) (sound : Sound reader) :
    journal.Tells Sound (Tracks (stream.changeAll supervisor changes).2 reader.failing) supervisor
      (stream.changeAll supervisor changes).1 reader := by
  induction changes generalizing stream reader with
  | nil => exact ⟨mirrors, rfl⟩
  | cons change rest inductionHypothesis =>
    refine ⟨fun event carries => ?_, False.elim⟩
    obtain ⟨time, _, reads⟩ := read_of_carried carries
    have first := recorded change.1 change.2 List.mem_cons_self
    have nextSound := mirrors.sound_change sound first supervisor time event.id
    have later := inductionHypothesis
      (fun target value inside => recorded target value (List.mem_cons_of_mem _ inside))
      (mirrors.change first supervisor time event.id) nextSound
    rw [mirrors.failing_change] at later
    rw [reads reader]
    exact ⟨nextSound, later⟩

/-- The starts and the ends of alerts change nothing of the inputs. -/
theorem tells_alerts {kind : RecordKind} (isAlert : kind = .started ∨ kind = .ended)
    (alerts : List AlertKey) {failing : Bool} (tracks : Tracks stream failing reader)
    (sound : Sound reader) :
    journal.Tells Sound (Tracks stream failing) supervisor
      (alerts.map fun alert => (kind, keyPayload supervisor alert)) reader := by
  induction alerts generalizing reader with
  | nil => exact tracks
  | cons alert rest inductionHypothesis =>
    refine ⟨fun event carries => ?_, False.elim⟩
    obtain ⟨time, _, reads⟩ := read_of_carried carries
    rw [reads reader, StreamFold.record_alert isAlert tracks.1.baselined]
    have nextSound : Sound { reader with lastOk := some (time, event.id) } :=
      ⟨sound.noGap, sound.slots, sound.config, sound.runs⟩
    exact ⟨nextSound, inductionHypothesis
      ⟨tracks.1.same rfl rfl ⟨rfl, rfl, rfl, rfl, rfl, rfl⟩, tracks.2⟩ nextSound⟩

/-- What changed, and the alerts that ended and started, are read to a fold of what was seen. -/
theorem tells_seen (supervisor : String) (inputs : LiveInputs) (mirrors : Mirrors stream reader)
    (sound : Sound reader) (alerts : Finset AlertKey) :
    journal.Tells Sound
      (Tracks (stream.changeAll supervisor (stream.changes (targets inputs))).2 reader.failing)
      supervisor
      ((stream.changeAll supervisor (stream.changes (targets inputs))).1 ++
        ((stream.open_ \ alerts).sort.map fun alert =>
          (RecordKind.ended, keyPayload supervisor alert)) ++
        (alerts \ stream.open_).sort.map fun alert =>
          (RecordKind.started, keyPayload supervisor alert)) reader := by
  have ended : journal.Tells Sound
      (Tracks (stream.changeAll supervisor (stream.changes (targets inputs))).2 reader.failing)
      supervisor
      ((stream.changeAll supervisor (stream.changes (targets inputs))).1 ++
        (stream.open_ \ alerts).sort.map fun alert =>
          (RecordKind.ended, keyPayload supervisor alert)) reader :=
    (tells_changeAll (fun _ _ inside => changes_recorded inside) mirrors sound).append sound
      fun _ safe tracks => tells_alerts (.inr rfl) _ tracks safe
  exact ended.append sound fun _ safe tracks => tells_alerts (.inl rfl) _ tracks safe

/-- A reach confirms the version and ends a failure. -/
theorem tells_reach (mirrors : Mirrors stream reader) (sound : Sound reader) :
    journal.Tells Sound (Tracks stream false) supervisor
      [(.reached, reachPayload supervisor stream.version none)] reader := by
  refine ⟨fun event carries => ?_, False.elim⟩
  obtain ⟨time, _, reads⟩ := read_of_carried carries
  obtain ⟨whole, confirmed⟩ := StreamFold.gap_eq_false.mp sound.noGap
  rw [reads reader, StreamFold.record_reach mirrors.baselined]
  have within : max reader.confirmed stream.version ≤ reader.version := by
    rw [mirrors.version] at confirmed ⊢
    exact max_le confirmed le_rfl
  exact ⟨⟨StreamFold.gap_eq_false.mpr ⟨whole, within⟩, sound.slots, sound.config, sound.runs⟩,
    mirrors.same rfl rfl ⟨rfl, rfl, rfl, rfl, rfl, rfl⟩, rfl⟩

/-- A reach that failed tells of the failure alone. -/
theorem tells_failure {observed : List (Int × Observation)} {recorder : LiveRecorder}
    (follows : FollowsRecorder observed recorder reader) (sound : Sound reader) (version : Nat)
    (reason : String) (nowMs : Int) (lastReachMs : Option Int) :
    journal.Tells Sound
      (FollowsRecorder (observed ++ [(nowMs, .failed reason)])
        { recorder with failing := some reason, lastReachMs := lastReachMs }) supervisor
      [(.reached, reachPayload supervisor version (some reason))] reader := by
  refine ⟨fun event carries => ?_, False.elim⟩
  obtain ⟨time, _, reads⟩ := read_of_carried carries
  rw [reads reader, StreamFold.record_failure]
  refine ⟨⟨sound.noGap, sound.slots, sound.config, sound.runs⟩, fun _ => rfl, fun none_ => ?_,
    fun stream isStream => ?_⟩
  · rw [lastSeen_failed]
    exact follows.nothing none_
  · obtain ⟨mirrors, _, held⟩ := follows.mirrors stream isStream
    rw [lastSeen_failed]
    exact ⟨mirrors.same rfl rfl ⟨rfl, rfl, rfl, rfl, rfl, rfl⟩, rfl, held⟩

/-- A baseline sets the fold, whatever it was. -/
theorem tells_baseline {inputs : LiveInputs} (listed : inputs.Listed) (alerts : Finset AlertKey)
    (reader : StreamFold) :
    journal.Tells Sound (Tracks (Stream.ofBaseline inputs alerts) false) supervisor
      [(.baseline, baselinePayload supervisor inputs alerts)] reader := by
  refine ⟨fun event carries => ?_, False.elim⟩
  obtain ⟨time, _, reads⟩ := read_of_carried carries
  have mirrors := mirrors_baseline listed alerts supervisor time event.id reader
  rw [reads reader]
  rw [StreamFold.record_baseline] at mirrors ⊢
  refine ⟨⟨StreamFold.gap_eq_false.mpr ⟨rfl, le_rfl⟩, fun _ => ⟨_, rfl⟩, fun _ => ⟨_, rfl⟩,
    fun entry member => ?_⟩, mirrors, rfl⟩
  obtain ⟨run, _, rfl⟩ := List.mem_map.mp member
  exact ⟨run, inputs, rfl⟩

end Tells

/-- A fold that follows a recorder follows it again once it reads the records of what the
supervisor observes next. -/
theorem followsRecorder : journal.Follows FollowsRecorder Sound where
  start := ⟨rfl, nofun, nofun, nofun⟩
  fresh := fun _ _ => ⟨nofun, fun _ => rfl, nofun⟩
  observe := by
    rintro supervisor observed recorder reader ⟨nowMs, observation⟩ admitted sound follows
    cases observation with
    | failed reason =>
      change journal.Tells Sound (FollowsRecorder _ (recorder.observe supervisor nowMs _).2) _
        (recorder.observe supervisor nowMs _).1 reader
      rw [LiveRecorder.observe]
      split
      · exact tells_failure follows sound _ reason nowMs _
      · rename_i quiet
        -- the failure goes on, and its reason is recorded
        have same : recorder.failing = some reason := by
          by_contra different
          exact quiet (.inl different)
        refine ⟨fun _ => follows.failing (by rw [same]; rfl), fun none_ => ?_,
          fun stream isStream => ?_⟩
        · rw [lastSeen_failed]
          exact follows.nothing none_
        · rw [lastSeen_failed]
          obtain ⟨mirrors, failing, held⟩ := follows.mirrors stream isStream
          rw [same] at failing
          exact ⟨mirrors, failing, held⟩
    | seen inputs alerts =>
      have listed : inputs.Listed := admitted
      change journal.Tells Sound (FollowsRecorder _ (recorder.observe supervisor nowMs _).2) _
        (recorder.observe supervisor nowMs _).1 reader
      rw [LiveRecorder.observe]
      cases isStream : recorder.stream with
      | none =>
        dsimp only
        refine (tells_baseline listed alerts reader).mono fun next told => ?_
        refine ⟨nofun, nofun, fun stream same => ?_⟩
        cases same
        exact ⟨told.1, told.2, inputs, lastSeen_seen _ _ _ _, listed, holds_baseline listed alerts⟩
      | some stream =>
        obtain ⟨mirrors, failing, _⟩ := follows.mirrors stream isStream
        have holds := holds_changeAll listed supervisor stream
        have told := tells_seen supervisor inputs mirrors sound alerts
        -- the stream with the alerts now open has the same values
        have following : ∀ {lastReachMs : Option Int} {next : StreamFold},
            Mirrors (stream.changeAll supervisor (stream.changes (targets inputs))).2 next →
            next.failing = false → FollowsRecorder (observed ++ [(nowMs, .seen inputs alerts)])
              { stream := some
                  { (stream.changeAll supervisor (stream.changes (targets inputs))).2 with
                    open_ := alerts }
                failing := none
                lastReachMs := lastReachMs } next := fun nextMirrors nextFailing =>
          ⟨nofun, nofun, fun stream same => by
            cases same
            exact ⟨nextMirrors.same rfl rfl ⟨rfl, rfl, rfl, rfl, rfl, rfl⟩, nextFailing, inputs,
              lastSeen_seen _ _ _ _, listed, holds⟩⟩
        dsimp only
        split
        · refine told.append sound fun next safe nextTold => ?_
          exact (tells_reach nextTold.1 safe).mono fun _ reached => following reached.1 reached.2
        · rename_i quiet
          have noFailure : reader.failing = false := by
            rw [failing]
            simpa using fun isFailing => quiet (.inl isFailing)
          exact told.mono fun next nextTold => following nextTold.1 (nextTold.2.trans noFailure)

/-! ### What the fold gives in every run -/

/-- The supervisors, and the events of the queue. -/
abbrev World := Journal.World String (Int × Observation) Record RunEvent LiveRecorder

section Runs

variable {world : World}

/-- Every stream is sound at the end of every window. -/
theorem sound_before (reached : journal.Reached world) {events : List RunEvent}
    (isPrefix : events <+: world.entries) {supervisor : String} {stream : StreamFold}
    (found : (streamsOf events).get? supervisor = some stream) : Sound stream := by
  rw [streamsOf_get?] at found
  split at found
  · rw [← Option.some.inj found]
    exact followsRecorder.safe_before reached supervisor isPrefix
  · cases found

/-- With nothing left to write, the stream of a supervisor holds the inputs it saw last. -/
theorem reads_back (reached : journal.Reached world) {supervisor : String}
    (written : world.pending supervisor = []) {inputs : LiveInputs}
    (seen : lastSeen (world.observed supervisor) = some inputs) :
    ∃ stream, (streamsOf world.entries).get? supervisor = some stream ∧
      stream.baselined = true ∧ stream.inputs = some inputs ∧
      stream.failing = (world.recorder supervisor).failing.isSome := by
  have follows := followsRecorder.reads_back reached written
  obtain ⟨stream, isStream⟩ := Option.ne_none_iff_exists'.mp fun none_ => by
    rw [follows.nothing none_] at seen
    cases seen
  obtain ⟨mirrors, failing, last, isLast, listed, holds⟩ := follows.mirrors stream isStream
  obtain rfl := Option.some.inj (seen.symm.trans isLast)
  refine ⟨journal.reading supervisor world.entries, ?_, mirrors.baselined,
    mirrors.inputs listed holds, failing⟩
  rw [streamsOf_get?, if_pos]
  by_contra none_
  -- a reader of no record has read no baseline
  have nothing : world.entries.filter (journal.isOf supervisor) = [] :=
    List.filter_eq_nil_iff.mpr fun event member => by
      simpa using List.any_eq_false.mp (Bool.eq_false_of_not_eq_true none_) event member
  have baselined := mirrors.baselined
  rw [Journal.reading, nothing] at baselined
  cases baselined

theorem latestStream_spec {streams : List (String × StreamFold)} {entry : String × StreamFold}
    (isLatest : latestStream streams = some entry) :
    entry ∈ streams ∧ ∀ other ∈ streams, other.2.lastOkKey ≤ entry.2.lastOkKey := by
  obtain ⟨member, isLe⟩ := leastBy_spec isLatest
  exact ⟨List.mem_reverse.mp member, fun other inside => isLe other (List.mem_reverse.mpr inside)⟩

theorem latestStream_eq_none {streams : List (String × StreamFold)} :
    latestStream streams = none ↔ streams = [] := by
  rw [latestStream, leastBy_eq_none, List.reverse_eq_nil_iff]

theorem mem_standing {streams : Ordered String StreamFold} {endMs : Int}
    {entry : String × StreamFold} :
    entry ∈ standing streams endMs ↔ streams.get? entry.1 = some entry.2 ∧
      entry.2.baselined = true ∧ entry.2.gap = false ∧ entry.2.isWithin endMs = true := by
  rw [standing, List.mem_filter, Ordered.get?_eq_some_iff]
  simp [and_assoc]

/-- What is taken is a stream that stands for the queue, with its inputs. -/
theorem taken_spec {streams : Ordered String StreamFold} {endMs : Int} {supervisor : String}
    {stream : StreamFold} {inputs : LiveInputs}
    (isTaken : taken streams endMs = some (supervisor, stream, inputs)) :
    (supervisor, stream) ∈ standing streams endMs ∧ stream.inputs = some inputs ∧
      ∀ other ∈ standing streams endMs, other.2.lastOkKey ≤ stream.lastOkKey := by
  obtain ⟨⟨token, latest⟩, isLatest, isRead⟩ := Option.bind_eq_some_iff.mp isTaken
  obtain ⟨read, isInputs, same⟩ := Option.map_eq_some_iff.mp isRead
  obtain ⟨rfl, rfl, rfl⟩ : token = supervisor ∧ latest = stream ∧ read = inputs := by
    simpa using same
  exact ⟨(latestStream_spec isLatest).1, isInputs, (latestStream_spec isLatest).2⟩

/-- A stream is taken exactly where one stands for the queue. -/
theorem taken_isSome (reached : journal.Reached world) {events : List RunEvent}
    (isPrefix : events <+: world.entries) (endMs : Int) :
    (taken (streamsOf events) endMs).isSome = true ↔ standing (streamsOf events) endMs ≠ [] := by
  constructor
  · intro isSome
    obtain ⟨⟨supervisor, stream, inputs⟩, isTaken⟩ := Option.isSome_iff_exists.mp isSome
    exact List.ne_nil_of_mem (taken_spec isTaken).1
  · intro stands
    obtain ⟨entry, isLatest⟩ := Option.ne_none_iff_exists'.mp (mt latestStream_eq_none.mp stands)
    have member := mem_standing.mp (latestStream_spec isLatest).1
    obtain ⟨inputs, isInputs⟩ := (sound_before reached isPrefix member.1).inputs member.2.1
    rw [taken, isLatest, Option.bind_some, isInputs]
    rfl

end Runs

section Judged

variable {Judged : Type} {judge : List RunEvent → Int → LiveInputs → Judged} {world : World}

/-- With its records written, what the fold judges is what the supervisor it names saw last. -/
theorem judged_as_seen (reached : journal.Reached world) {within : RunEvent → Bool}
    (upto : ∀ event ∈ world.entries, within event = true) {windowEnd : Int}
    {supervisor : String} {version : Nat} {lastOkMs : Int}
    (observed : (foldWithin judge world.entries within windowEnd).state =
      .observed supervisor version lastOkMs)
    (written : world.pending supervisor = []) {inputs : LiveInputs}
    (seen : lastSeen (world.observed supervisor) = some inputs) :
    (foldWithin judge world.entries within windowEnd).value =
      some (judge world.entries windowEnd inputs) := by
  unfold foldWithin at observed ⊢
  rw [List.filter_eq_self.mpr upto] at observed ⊢
  dsimp only at observed ⊢
  cases isTaken : taken (streamsOf world.entries) (windowEnd * 1000) with
  | none =>
    rw [isTaken] at observed
    simp only [missing] at observed
    split at observed <;> cases observed
  | some found =>
    obtain ⟨token, stream, read⟩ := found
    rw [isTaken] at observed
    obtain rfl : token = supervisor := by
      injection observed
    obtain ⟨standing, isRead, _⟩ := taken_spec isTaken
    obtain ⟨own, isOwn, _, isInputs, _⟩ := reads_back reached written seen
    obtain rfl := Option.some.inj ((mem_standing.mp standing).1.symm.trans isOwn)
    obtain rfl := Option.some.inj (isRead.symm.trans isInputs)
    rfl

end Judged

/-! Two supervisors wrote the baseline of a queue with no run, the second after a first one of its
was refused; a run was claimed, and the first saw it, with an alert. -/

def freeInputs : LiveInputs where
  slots := ⟨1, 1, 1⟩
  config := ⟨{}, .default⟩
  runs := []
  outliers := fun _ => none
  positions := fun _ => none

def claimedRun : LiveRun where
  runId := ⟨"r", by decide⟩
  taskId := 1
  status := .running
  workspaceId := none
  idle := none
  receipt := none
  input := none
  backgroundSince := none
  backgroundAlive := none

def claimedInputs : LiveInputs where
  slots := ⟨0, 0, 0⟩
  config := ⟨{}, .default⟩
  runs := [claimedRun]
  outliers := fun _ => none
  positions := fun run => if run = claimedRun.runId then some 0 else none

theorem freeInputs_listed : freeInputs.Listed := ⟨.nil, fun _ _ => rfl, fun _ _ => rfl⟩

theorem claimedInputs_listed : claimedInputs.Listed where
  ascending := List.pairwise_singleton _ _
  outliersOf _ _ := rfl
  positionsOf _ outside := if_neg (mt List.mem_singleton.mpr outside)

def runningAlert : AlertKey := ⟨"running", "stalled", some "r", none⟩

/-- A record as it is written. -/
def recordEvent (id : Nat) (record : Record) (createdAt : String) : RunEvent where
  id := id
  kind := record.1.event
  payload := record.2
  createdAt := createdAt

def freeRecord (supervisor : String) : Record :=
  (.baseline, baselinePayload supervisor freeInputs ∅)

def slotsRecord : Record :=
  (.inputChanged, inputPayload "a" 2 .slots (slotsCodec.encode claimedInputs.slots))

def runRecord : Record :=
  (.inputChanged,
    inputPayload "a" 3 (.run "r") (runInputCodec.encode (.of claimedRun claimedInputs)))

def alertRecord : Record := (.started, keyPayload "a" runningAlert)

def freeEvent (id : Nat) (supervisor : String) : RunEvent :=
  recordEvent id (freeRecord supervisor) "2026-10-30T00:00:00.000Z"

def claimEvent : RunEvent where
  id := 2
  kind := .runClaimed
  createdAt := "2026-10-30T00:00:01.000Z"

def slotsEvent : RunEvent := recordEvent 4 slotsRecord "2026-10-30T00:01:00.000Z"

def runEvent : RunEvent := recordEvent 5 runRecord "2026-10-30T00:01:00.000Z"

def alertEvent : RunEvent := recordEvent 6 alertRecord "2026-10-30T00:01:00.000Z"

def claimWorld : World :=
  (((journal.record journal.empty "a" (0, .seen freeInputs ∅)).push (freeEvent 1 "a")).keep
    "a" []).push claimEvent

def restartedWorld : World :=
  let refused := journal.startOver
    ((journal.record claimWorld "b" (1000, .seen freeInputs ∅)).keep "b" []) "b"
  ((journal.record refused "b" (2000, .seen freeInputs ∅)).push (freeEvent 3 "b")).keep "b" []

/-- The world before the alert is written. -/
def claimedWorld : World :=
  let observed := journal.record restartedWorld "a" (60000, .seen claimedInputs {runningAlert})
  let written := (observed.push slotsEvent).keep "a" [runRecord, alertRecord]
  (written.push runEvent).keep "a" [alertRecord]

def startedWorld : World := (claimedWorld.push alertEvent).keep "a" []

theorem claimed_pending :
    (journal.record restartedWorld "a" (60000, .seen claimedInputs {runningAlert})).pending "a" =
      [slotsRecord, runRecord, alertRecord] := by
  let stream := Stream.ofBaseline freeInputs ∅
  have changed : (stream.changeAll "a" (stream.changes (targets claimedInputs))).1 =
      [slotsRecord, runRecord] := by rfl
  have isOpen : stream.open_ = ∅ := rfl
  change (LiveRecorder.observe { stream := some stream, lastReachMs := some 0 } "a" 60000 _).1 = _
  simp only [LiveRecorder.observe, isOpen, changed, Finset.sdiff_empty, Finset.empty_sdiff,
    Finset.sort_singleton, Finset.sort_empty]
  rfl

section Reached

variable {Losable : Record → Prop}

theorem restartedWorld_reached : (journalWith Losable).Reached restartedWorld := by
  have admitted : ∀ time, (journalWith Losable).Admits (time, .seen freeInputs ∅) :=
    fun _ => freeInputs_listed
  have observed : (journalWith Losable).Reached (journal.record journal.empty "a" _) :=
    .step .start (.observe "a" (0, .seen freeInputs ∅) (admitted 0))
  have claim : (journalWith Losable).Reached claimWorld :=
    (observed.step (.write "a" _ [] (freeEvent 1 "a") rfl rfl)).step (.other claimEvent rfl)
  have refused := (claim.step (.observe "b" (1000, .seen freeInputs ∅) (admitted 1000))).step
    (.refuse "b" [] _ rfl)
  exact (refused.step (.observe "b" (2000, .seen freeInputs ∅) (admitted 2000))).step
    (.write "b" _ [] (freeEvent 3 "b") rfl rfl)

theorem claimedWorld_reached : (journalWith Losable).Reached claimedWorld := by
  have admitted : (journalWith Losable).Admits (60000, .seen claimedInputs {runningAlert}) :=
    claimedInputs_listed
  have observed := restartedWorld_reached.step (.observe "a" _ admitted)
  have slots := observed.step
    (.write "a" slotsRecord [runRecord, alertRecord] slotsEvent claimed_pending rfl)
  exact slots.step (.write "a" runRecord [alertRecord] runEvent rfl rfl)

end Reached

theorem startedWorld_reached : journal.Reached startedWorld :=
  claimedWorld_reached.step (.write "a" _ [] alertEvent rfl rfl)

/-- What is read of the supervisor that saw the run. -/
def claimedStream : StreamFold where
  slots := some (slotsCodec.encode claimedInputs.slots)
  config := some (configValue claimedInputs.config)
  runs := [runEntry claimedInputs claimedRun]
  baselined := true
  version := 3
  confirmed := 1
  lastOk := some (1793318460000, 5)

theorem judged_as_seen_claimed :
    (foldWithin (fun _ _ inputs => inputs.runs.length) startedWorld.entries (fun _ => true)
      1793318460).value = some 1 := by
  have observed : (foldWithin (fun _ _ inputs => inputs.runs.length) startedWorld.entries
      (fun _ => true) 1793318460).state = .observed "a" 3 1793318460000 := rfl
  have seen : lastSeen (startedWorld.observed "a") = some claimedInputs := rfl
  exact judged_as_seen startedWorld_reached (fun _ _ => rfl) observed rfl seen

section Judged

variable {Judged : Type} {judge : List RunEvent → Int → LiveInputs → Judged} {world : World}

/-- At the end of every window the fold judges exactly where some supervisor recorded a baseline
and its last successful observation is within the grace. -/
theorem judged_iff (reached : journal.Reached world) {within : RunEvent → Bool}
    (isPrefix : world.entries.filter within <+: world.entries) (windowEnd : Int) :
    (foldWithin judge world.entries within windowEnd).value.isSome = true ↔
      ∃ supervisor stream,
        (streamsOf (world.entries.filter within)).get? supervisor = some stream ∧
          stream.baselined = true ∧ stream.isWithin (windowEnd * 1000) = true := by
  have isSome : (foldWithin judge world.entries within windowEnd).value.isSome =
      (taken (streamsOf (world.entries.filter within)) (windowEnd * 1000)).isSome := by
    unfold foldWithin
    dsimp only
    split
    · rename_i isTaken
      rw [isTaken]
      rfl
    · rename_i isTaken
      rw [isTaken]
      rfl
  rw [isSome, taken_isSome reached isPrefix]
  constructor
  · intro stands
    obtain ⟨entry, member⟩ := List.exists_mem_of_ne_nil _ stands
    obtain ⟨found, baselined, _, isWithin⟩ := mem_standing.mp member
    exact ⟨entry.1, entry.2, found, baselined, isWithin⟩
  · rintro ⟨supervisor, stream, found, baselined, isWithin⟩
    have stands : (supervisor, stream) ∈
        standing (streamsOf (world.entries.filter within)) (windowEnd * 1000) :=
      mem_standing.mpr ⟨found, baselined, (sound_before reached isPrefix found).noGap, isWithin⟩
    exact List.ne_nil_of_mem stands

theorem judged_iff_claimed :
    (foldWithin (fun _ _ inputs => inputs.runs.length) startedWorld.entries
      (fun event => event.id ≤ 5) 1793318460).value.isSome = true :=
  (judged_iff startedWorld_reached ⟨[alertEvent], rfl⟩ 1793318460).mpr
    ⟨"a", claimedStream, rfl, rfl, rfl⟩

/-- No window ever ends with a record missing. -/
theorem never_recordGap (reached : journal.Reached world) {within : RunEvent → Bool}
    (isPrefix : world.entries.filter within <+: world.entries) (windowEnd : Int)
    (version : Option Nat) (lastOkMs : Option Int) :
    (foldWithin judge world.entries within windowEnd).state ≠
      .missing .recordGap version lastOkMs := by
  unfold foldWithin
  dsimp only
  split
  · exact nofun
  · rw [missing]
    split
    · exact nofun
    · rename_i latest isLatest
      have inside := (latestStream_spec isLatest).1
      have found := Ordered.get?_eq_some_iff.mpr (List.mem_filter.mp inside).1
      have noGap := (sound_before reached isPrefix found).noGap
      dsimp only
      rw [if_neg (by rw [noGap]; exact nofun)]
      split
      · exact nofun
      · split <;> exact nofun

theorem never_recordGap_claimed :
    (foldWithin (fun _ _ inputs => inputs.runs.length) startedWorld.entries
      (fun event => event.id ≤ 5) 1793319500).state ≠
        .missing .recordGap (some 3) (some 1793318460000) :=
  never_recordGap startedWorld_reached ⟨[alertEvent], rfl⟩ 1793319500 _ _

end Judged

end Dagq.Alerts
