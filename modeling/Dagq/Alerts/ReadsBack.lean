/-
This file proves that the fold of the judgments of now reads back what the supervisors
recorded: however the records of several supervisors interleave, and whatever of them
is lost with its supervisor starting over, no stream ever shows a record missing, and
one with nothing left to write holds exactly the inputs its supervisor saw last.
-/

import Dagq.Alerts.Fold

namespace Dagq.Alerts

open Dagq.Ledger Dagq.Lib Dagq.PreClaim

/-! ### Payloads -/

section Payloads

variable (supervisor : String) (version : Nat) (target : Target) (value : Value)

@[simp] theorem inputPayload_version :
    (inputPayload supervisor version target value).get "version" = some (.int version) := by
  simp [inputPayload]

@[simp] theorem inputPayload_value :
    (inputPayload supervisor version target value).get "value" = some value := by
  simp [inputPayload]

@[simp] theorem inputPayload_slots :
    (inputPayload supervisor version .slots value).get "target" = some (.text "slots") := by
  simp [inputPayload]

@[simp] theorem inputPayload_config :
    (inputPayload supervisor version .config value).get "target" = some (.text "config") := by
  simp [inputPayload]

@[simp] theorem inputPayload_run (id : String) :
    (inputPayload supervisor version (.run id) value).get "target" = some (.text "run") ∧
      (inputPayload supervisor version (.run id) value).get "run_id" = some (.text id) := by
  simp [inputPayload]

end Payloads

/-! ### The runs of a stream -/

theorem mem_putRun {id : String} {value : Value} {runs : List (String × Value)}
    (distinct : (runs.map Prod.fst).Nodup) {other : String} {held : Value} :
    (other, held) ∈ putRun id value runs ↔
      (other = id ∧ held = value ∧ value ≠ .null) ∨ (other ≠ id ∧ (other, held) ∈ runs) := by
  induction runs with
  | nil =>
    rw [putRun]
    split <;> simp_all
  | cons entry rest inductionHypothesis =>
    rw [List.map_cons, List.nodup_cons] at distinct
    have inRest := inductionHypothesis distinct.2
    obtain ⟨first, firstValue⟩ := entry
    rw [putRun]
    by_cases same : first = id
    · subst same
      have absent : ∀ held, (first, held) ∉ rest := fun held inside =>
        distinct.1 (List.mem_map.mpr ⟨(first, held), inside, rfl⟩)
      have others : (other ≠ first ∧ (other, held) ∈ (first, firstValue) :: rest) ↔
          (other, held) ∈ rest :=
        ⟨fun ⟨different, inside⟩ => (List.mem_cons.mp inside).resolve_left fun equal =>
            different (Prod.mk.inj equal).1,
          fun inside => ⟨fun equal => absent held (equal ▸ inside), List.mem_cons_of_mem _ inside⟩⟩
      dsimp only
      rw [if_pos rfl, others]
      by_cases gone : value = .null
      · rw [if_pos gone]
        exact (or_iff_right fun ⟨_, _, present⟩ => present gone).symm
      · rw [if_neg gone, List.mem_cons, Prod.mk.injEq]
        exact or_congr_left (and_congr_right fun _ => (and_iff_left gone).symm)
    · have isOther : (other, held) = (first, firstValue) → other ≠ id := fun equal =>
        (Prod.mk.inj equal).1 ▸ same
      dsimp only
      rw [if_neg same, List.mem_cons, inRest, List.mem_cons, and_or_left,
        and_iff_right_of_imp isOther, or_left_comm]

theorem putRun_distinct (id : String) (value : Value) {runs : List (String × Value)}
    (distinct : (runs.map Prod.fst).Nodup) : ((putRun id value runs).map Prod.fst).Nodup := by
  induction runs with
  | nil =>
    rw [putRun]
    split <;> simp
  | cons entry rest inductionHypothesis =>
    have whole := distinct
    rw [List.map_cons, List.nodup_cons] at distinct
    rw [putRun]
    split
    · split
      · exact distinct.2
      · exact whole
    · rename_i different
      rw [List.map_cons, List.nodup_cons]
      refine ⟨fun inside => ?_, inductionHypothesis distinct.2⟩
      obtain ⟨⟨other, held⟩, member, same⟩ := List.mem_map.mp inside
      rcases (mem_putRun distinct.2).mp member with ⟨isNew, _, _⟩ | ⟨_, inRest⟩
      · exact different (same.symm.trans isNew)
      · exact distinct.1 (List.mem_map.mpr ⟨(other, held), inRest, same⟩)

/-! ### A stream and its fold -/

/-- The fold of a stream holds what its supervisor recorded in it. -/
structure Mirrors (stream : Stream) (reader : StreamFold) : Prop where
  baselined : reader.baselined = true
  whole : reader.broken = false
  version : reader.version = stream.version
  slots : reader.slots = stream.values.get? .slots
  config : reader.config = stream.values.get? .config
  runs : ∀ id value, (id, value) ∈ reader.runs ↔ stream.values.get? (.run id) = some value
  distinct : (reader.runs.map Prod.fst).Nodup

/-- What a fold holds of a stream is in these fields alone. -/
theorem Mirrors.same {stream other : Stream} {reader next : StreamFold}
    (mirrors : Mirrors stream reader) (version : other.version = stream.version)
    (values : other.values = stream.values)
    (fields : next.baselined = reader.baselined ∧ next.broken = reader.broken ∧
      next.version = reader.version ∧ next.slots = reader.slots ∧ next.config = reader.config ∧
      next.runs = reader.runs) : Mirrors other next := by
  obtain ⟨baselined, broken, nextVersion, slots, config, runs⟩ := fields
  refine ⟨?_, ?_, ?_, ?_, ?_, ?_, ?_⟩
  · rw [baselined, mirrors.baselined]
  · rw [broken, mirrors.whole]
  · rw [nextVersion, mirrors.version, version]
  · rw [slots, mirrors.slots, values]
  · rw [config, mirrors.config, values]
  · rw [runs, values]
    exact mirrors.runs
  · rw [runs]
    exact mirrors.distinct

/-- The stream's values are those of the inputs. -/
def Stream.Holds (stream : Stream) (inputs : LiveInputs) : Prop :=
  ∀ target value, stream.values.get? target = some value ↔ (target, value) ∈ targets inputs

/-- A value that is recorded of a target: a run that is gone is null. -/
def Recorded : Target → Value → Prop
  | .slots, value => ∃ slots, value = slotsCodec.encode slots
  | .config, value => ∃ report, value = configValue report
  | .run _, value => value = .null ∨ ∃ run inputs, value = runInputCodec.encode (.of run inputs)

theorem Recorded.gone {target : Target} {value : Value} (recorded : Recorded target value)
    (isNull : value = .null) : ∃ id, target = .run id := by
  cases target with
  | slots =>
    obtain ⟨slots, isSlots⟩ := recorded
    exact absurd (isSlots.symm.trans isNull) (slotsCodec.encode_ne_null slots)
  | config =>
    obtain ⟨report, isConfig⟩ := recorded
    exact absurd (isConfig.symm.trans isNull) (configValue_ne_null report)
  | run id => exact ⟨id, rfl⟩

/-- No record of a stream is missing, and what is read of its inputs was recorded of inputs. -/
structure Sound (reader : StreamFold) : Prop where
  noGap : reader.gap = false
  slots : reader.baselined = true → ∃ slots, reader.slots = some (slotsCodec.encode slots)
  config : reader.baselined = true → ∃ report, reader.config = some (configValue report)
  runs : ∀ entry ∈ reader.runs, ∃ run inputs, entry.2 = runInputCodec.encode (.of run inputs)

/-- An event that carries a record is read as that record. -/
theorem read_of_carried {Losable : Record → Prop} {event : RunEvent} {supervisor : String}
    {record : Record} (carries : (journalWith Losable).carried event = some (supervisor, record)) :
    ∃ time, event.millis = some time ∧ ∀ reader : StreamFold,
      (journalWith Losable).read reader event = reader.record record.1 record.2 time event.id := by
  change carried event = _ at carries
  unfold carried at carries
  split at carries
  · rename_i kind text time isKind _ isTime
    simp only [Option.some.injEq, Prod.mk.injEq] at carries
    obtain ⟨_, rfl⟩ := carries
    refine ⟨time, isTime, fun reader => ?_⟩
    change StreamFold.read reader event = _
    rw [StreamFold.read, isKind, isTime]
  · cases carries

theorem StreamFold.gap_eq_false {stream : StreamFold} :
    stream.gap = false ↔ stream.broken = false ∧ stream.confirmed ≤ stream.version := by
  rw [gap, Bool.or_eq_false_iff, decide_eq_false_iff_not, not_lt]

/-- A change recorded next is read in its place. -/
theorem Mirrors.record_change {stream : Stream} {reader : StreamFold}
    (mirrors : Mirrors stream reader) (supervisor : String) (target : Target) (value : Value)
    (time : Int) (id : Nat) :
    reader.record .inputChanged (inputPayload supervisor (stream.version + 1) target value) time id =
      { (match target with
          | .slots => { reader with slots := some value }
          | .config => { reader with config := some value }
          | .run run => { reader with runs := putRun run value reader.runs } : StreamFold) with
        version := reader.version + 1
        lastOk := some (time, id) } := by
  have next : (Option.some (Value.int ((stream.version + 1 : Nat) : Int))).bind Value.asU64 =
      some (reader.version + 1) := by
    rw [Option.bind_some, Value.asU64_natCast, mirrors.version]
  rw [StreamFold.record]
  dsimp only
  rw [inputPayload_version, next, if_pos mirrors.baselined, if_pos ⟨rfl, mirrors.whole⟩,
    inputPayload_value]
  cases target with
  | slots =>
    rw [inputPayload_slots]
    rfl
  | config =>
    rw [inputPayload_config]
    rfl
  | run run =>
    rw [(inputPayload_run _ _ _ run).1, (inputPayload_run _ _ _ run).2]
    rfl

/-- A fold of a stream is one of the stream after a change, once the change is read. -/
theorem Mirrors.change {stream : Stream} {reader : StreamFold} (mirrors : Mirrors stream reader)
    {target : Target} {value : Value} (recorded : Recorded target value) (supervisor : String)
    (time : Int) (id : Nat) :
    Mirrors (stream.change target value) (reader.record .inputChanged
      (inputPayload supervisor (stream.version + 1) target value) time id) := by
  rw [mirrors.record_change]
  have kept : ∀ other, other ≠ target →
      (stream.change target value).values.get? other = stream.values.get? other := by
    intro other different
    dsimp only [Stream.change]
    split
    · exact Ordered.get?_erase_of_ne _ different
    · exact Ordered.get?_insert_of_ne _ _ different
  have set : (stream.change target value).values.get? target =
      if value = .null then none else some value := by
    dsimp only [Stream.change]
    split
    · exact Ordered.get?_erase_self _ _
    · exact Ordered.get?_insert_self _ _ _
  have version : reader.version + 1 = (stream.change target value).version :=
    congrArg (· + 1) mirrors.version
  cases target with
  | slots =>
    obtain ⟨slots, rfl⟩ := recorded
    rw [if_neg (slotsCodec.encode_ne_null slots)] at set
    refine ⟨mirrors.baselined, mirrors.whole, version, set.symm, ?_, fun run held => ?_,
      mirrors.distinct⟩
    · rw [kept .config nofun]
      exact mirrors.config
    · rw [kept (.run run) nofun]
      exact mirrors.runs run held
  | config =>
    obtain ⟨report, rfl⟩ := recorded
    rw [if_neg (configValue_ne_null report)] at set
    refine ⟨mirrors.baselined, mirrors.whole, version, ?_, set.symm, fun run held => ?_,
      mirrors.distinct⟩
    · rw [kept .slots nofun]
      exact mirrors.slots
    · rw [kept (.run run) nofun]
      exact mirrors.runs run held
  | run changed =>
    refine ⟨mirrors.baselined, mirrors.whole, version, ?_, ?_, fun run held => ?_,
      putRun_distinct changed value mirrors.distinct⟩
    · rw [kept .slots nofun]
      exact mirrors.slots
    · rw [kept .config nofun]
      exact mirrors.config
    · refine (mem_putRun mirrors.distinct).trans ?_
      by_cases same : run = changed
      · subst same
        rw [set]
        by_cases gone : value = .null
        · simp [gone]
        · simp [gone, eq_comm]
      · rw [kept (.run run) fun equal => same (Target.run.inj equal), ← mirrors.runs run held]
        simp [same]

theorem Mirrors.failing_change {stream : Stream} {reader : StreamFold}
    (mirrors : Mirrors stream reader) (supervisor : String) (target : Target) (value : Value)
    (time : Int) (id : Nat) :
    (reader.record .inputChanged (inputPayload supervisor (stream.version + 1) target value) time
      id).failing = reader.failing := by
  rw [mirrors.record_change]
  cases target <;> rfl

/-- A sound fold is sound once a change is read. -/
theorem Mirrors.sound_change {stream : Stream} {reader : StreamFold}
    (mirrors : Mirrors stream reader) (sound : Sound reader) {target : Target} {value : Value}
    (recorded : Recorded target value) (supervisor : String) (time : Int) (id : Nat) :
    Sound (reader.record .inputChanged
      (inputPayload supervisor (stream.version + 1) target value) time id) := by
  obtain ⟨whole, confirmed⟩ := StreamFold.gap_eq_false.mp sound.noGap
  rw [mirrors.record_change]
  cases target with
  | slots =>
    obtain ⟨slots, rfl⟩ := recorded
    exact ⟨StreamFold.gap_eq_false.mpr ⟨whole, Nat.le_succ_of_le confirmed⟩, fun _ => ⟨slots, rfl⟩,
      sound.config, sound.runs⟩
  | config =>
    obtain ⟨report, rfl⟩ := recorded
    exact ⟨StreamFold.gap_eq_false.mpr ⟨whole, Nat.le_succ_of_le confirmed⟩, sound.slots,
      fun _ => ⟨report, rfl⟩, sound.runs⟩
  | run changed =>
    refine ⟨StreamFold.gap_eq_false.mpr ⟨whole, Nat.le_succ_of_le confirmed⟩, sound.slots,
      sound.config, fun entry member => ?_⟩
    rcases (mem_putRun mirrors.distinct).mp member with ⟨_, isValue, present⟩ | ⟨_, before⟩
    · rw [isValue]
      exact recorded.resolve_left present
    · exact sound.runs entry before

/-! ### What the other records are read as -/

section Records

variable {reader : StreamFold} {time : Int} {id : Nat}

theorem StreamFold.record_alert {kind : RecordKind} (isAlert : kind = .started ∨ kind = .ended)
    (baselined : reader.baselined = true) (payload : Value) :
    reader.record kind payload time id = { reader with lastOk := some (time, id) } := by
  rcases isAlert with rfl | rfl <;> simp only [record, baselined, if_true]

theorem StreamFold.record_reach (baselined : reader.baselined = true) (supervisor : String)
    (version : Nat) :
    reader.record .reached (reachPayload supervisor version none) time id =
      { reader with
        failing := false
        confirmed := max reader.confirmed version
        lastOk := some (time, id) } := by
  simp [record, reachPayload, Value.asBool, baselined]

theorem StreamFold.record_failure (supervisor : String) (version : Nat) (reason : String) :
    reader.record .reached (reachPayload supervisor version (some reason)) time id =
      { reader with failing := true } := by
  simp [record, reachPayload, Value.asBool]

end Records

/-! ### What the fold reads of the inputs -/

/-- A run's entry among the targets. -/
def runEntry (inputs : LiveInputs) (run : LiveRun) : String × Value :=
  (run.runId.text, runInputCodec.encode (.of run inputs))

theorem runEntry_injective (inputs : LiveInputs) : Function.Injective (runEntry inputs) := by
  intro first second same
  have decoded := congrArg (fun entry => (runInputCodec.decode entry.2).bind RunInput.live) same
  simp only [runEntry, Codec.decode_encode, Option.bind_some, RunInput.live_of,
    Option.some.injEq, Prod.mk.injEq] at decoded
  exact decoded.1

theorem StreamFold.record_baseline (reader : StreamFold) (supervisor : String) (inputs : LiveInputs)
    (alerts : Finset AlertKey) (time : Int) (id : Nat) :
    reader.record .baseline (baselinePayload supervisor inputs alerts) time id =
      { slots := some (slotsCodec.encode inputs.slots)
        config := some (configValue inputs.config)
        runs := inputs.runs.map (runEntry inputs)
        baselined := true
        version := 1
        broken := false
        confirmed := 1
        lastOk := some (time, id)
        failing := false } := by
  have entries : ∀ run ∈ inputs.runs, ((fun run : Value =>
      ((run.get "run_id").bind Value.asStr).map fun id => (id, run)) ∘
        fun run => runInputCodec.encode (.of run inputs)) run =
      (some ∘ runEntry inputs) run := fun run _ => by
    simp [runEntry, runInputCodec, RunInput.encode, RunInput.of, Value.asStr]
  simp only [record, baselinePayload, Value.get_cons, String.reduceEq, if_true,
    if_false, Option.bind_some, Value.asArray, Value.asU64, Option.getD_some, Int.toNat_one]
  rw [List.filterMap_map, ← List.filterMap_eq_map, List.filterMap_congr entries]
  rfl

theorem holds_baseline {inputs : LiveInputs} (listed : inputs.Listed) (alerts : Finset AlertKey) :
    (Stream.ofBaseline inputs alerts).Holds inputs := by
  intro target value
  rw [Stream.ofBaseline, Ordered.get?_eq_some_iff]
  refine Ordered.mem_foldl_insert fun first firstIn second secondIn same => ?_
  exact List.inj_on_of_nodup_map listed.targets_distinct firstIn secondIn same

/-- A fold is one of the stream of a baseline, once the baseline is read. -/
theorem mirrors_baseline {inputs : LiveInputs} (listed : inputs.Listed) (alerts : Finset AlertKey)
    (supervisor : String) (time : Int) (id : Nat) (reader : StreamFold) :
    Mirrors (.ofBaseline inputs alerts)
      (reader.record .baseline (baselinePayload supervisor inputs alerts) time id) := by
  have holds := holds_baseline listed alerts
  rw [StreamFold.record_baseline]
  refine ⟨rfl, rfl, rfl, ?_, ?_, fun run value => ?_, ?_⟩
  · exact ((holds _ _).mpr (by simp [targets])).symm
  · exact ((holds _ _).mpr (by simp [targets])).symm
  · rw [holds, mem_targets_run, List.mem_map]
    simp only [runEntry, Prod.mk.injEq]
  · have texts := listed.distinct.map RunId.text_injective
    rw [List.map_map] at texts ⊢
    exact texts

/-- What is read of runs recorded, one after another. -/
theorem foldlM_add (inputs : LiveInputs) (runs : List LiveRun) :
    ((runs.map (runEntry inputs)).map Prod.snd).foldlM RunsRead.add {} = some
      { runs
        outliers := fun run => if run ∈ runs.map LiveRun.runId then inputs.outliers run else none
        positions := fun run =>
          if run ∈ runs.map LiveRun.runId then inputs.positions run else none } := by
  induction runs using List.reverseRecOn with
  | nil => rfl
  | append_singleton runs last inductionHypothesis =>
    have overrides : ∀ {Item : Type} (values : RunId → Option Item),
        ((values last.runId).elim (fun run => if run ∈ runs.map LiveRun.runId then values run else none)
          fun item => Function.update
            (fun run => if run ∈ runs.map LiveRun.runId then values run else none) last.runId
            (some item)) =
          fun run => if run ∈ (runs ++ [last]).map LiveRun.runId then values run else none := by
      intro Item values
      funext run
      by_cases same : run = last.runId
      · subst same
        cases held : values last.runId <;> simp [held]
      · cases values last.runId <;> simp [same]
    rw [List.map_append, List.map_append, List.foldlM_append, inductionHypothesis, Option.bind_eq_bind,
      Option.bind_some, List.map_singleton, List.map_singleton, List.foldlM_cons, runEntry]
    simp only [RunsRead.add, Codec.decode_encode, RunInput.live_of, Option.bind_eq_bind,
      Option.bind_some, List.foldlM_nil, overrides]
    rfl

/-- The fold of a stream gives the inputs it holds. -/
theorem Mirrors.inputs {stream : Stream} {reader : StreamFold} (mirrors : Mirrors stream reader)
    {inputs : LiveInputs} (listed : inputs.Listed) (holds : stream.Holds inputs) :
    reader.inputs = some inputs := by
  have slots : reader.slots = some (slotsCodec.encode inputs.slots) := by
    rw [mirrors.slots]
    exact (holds _ _).mpr (by simp [targets])
  have config : reader.config = some (configValue inputs.config) := by
    rw [mirrors.config]
    exact (holds _ _).mpr (by simp [targets])
  have members : ∀ entry, entry ∈ reader.runs ↔ entry ∈ inputs.runs.map (runEntry inputs) := by
    rintro ⟨id, value⟩
    rw [mirrors.runs, holds, mem_targets_run, List.mem_map]
    simp only [runEntry, Prod.mk.injEq]
  -- the fold has the runs in the order they appeared
  obtain ⟨order, isOrder⟩ : ∃ order : List LiveRun,
      order.map (runEntry inputs) = reader.runs := by
    have among : reader.runs ∈ Set.range (List.map (runEntry inputs)) := by
      rw [Set.range_list_map]
      intro entry member
      obtain ⟨run, _, same⟩ := List.mem_map.mp ((members entry).mp member)
      exact ⟨run, same⟩
    exact among
  have permuted : order.Perm inputs.runs := by
    refine (List.map_perm_map_iff (runEntry_injective inputs)).mp ?_
    rw [isOrder]
    refine (List.perm_ext_iff_of_nodup mirrors.distinct.of_map ?_).mpr members
    exact (listed.distinct.of_map _).map (runEntry_injective inputs)
  have sameRuns : ∀ run, run ∈ order.map LiveRun.runId ↔ run ∈ inputs.runs.map LiveRun.runId :=
    fun run => (permuted.map LiveRun.runId).mem_iff
  have outliers : (fun run => if run ∈ order.map LiveRun.runId then inputs.outliers run
      else none) = inputs.outliers := by
    funext run
    split
    · rfl
    · rename_i outside
      exact (listed.outliersOf run (mt (sameRuns run).mpr outside)).symm
  have positions : (fun run => if run ∈ order.map LiveRun.runId then inputs.positions run
      else none) = inputs.positions := by
    funext run
    split
    · rfl
    · rename_i outside
      exact (listed.positionsOf run (mt (sameRuns run).mpr outside)).symm
  have sorted : (order.insertionSort fun first second =>
      placeOf inputs.positions first ≤ placeOf inputs.positions second) = inputs.runs := by
    have places : (inputs.runs.map (placeOf inputs.positions)).Nodup := by
      rw [List.Nodup, List.pairwise_map]
      exact listed.ascending.imp fun before => before.ne
    refine ((List.perm_insertionSort _ order).trans permuted).eq_of_pairwise
      (fun first second firstIn secondIn before after => ?_) (List.pairwise_insertionSort _ _)
      (listed.ascending.imp fun before => before.le)
    exact List.inj_on_of_nodup_map places
      (permuted.mem_iff.mp ((List.mem_insertionSort _).mp firstIn)) secondIn
      (le_antisymm before after)
  have read := foldlM_add inputs order
  rw [isOrder, outliers, positions] at read
  rw [StreamFold.inputs, slots, config, read]
  simp only [Option.bind_some, slotsCodec.decode_encode, Option.bind_eq_bind, configOf_configValue,
    sorted]

/-- The inputs of a sound stream can be read, whatever they are. -/
theorem Sound.inputs {reader : StreamFold} (sound : Sound reader)
    (baselined : reader.baselined = true) : ∃ inputs, reader.inputs = some inputs := by
  obtain ⟨slots, isSlots⟩ := sound.slots baselined
  obtain ⟨report, isConfig⟩ := sound.config baselined
  have reads : ∀ (entries : List (String × Value)) (read : RunsRead),
      (∀ entry ∈ entries, ∃ run inputs, entry.2 = runInputCodec.encode (.of run inputs)) →
      ∃ last, (entries.map Prod.snd).foldlM RunsRead.add read = some last := by
    intro entries
    induction entries with
    | nil => exact fun read _ => ⟨read, rfl⟩
    | cons entry rest inductionHypothesis =>
      intro read recorded
      obtain ⟨run, inputs, isRun⟩ := recorded entry List.mem_cons_self
      rw [List.map_cons, List.foldlM_cons, isRun]
      simp only [RunsRead.add, Codec.decode_encode, RunInput.live_of, Option.bind_eq_bind,
        Option.bind_some]
      exact inductionHypothesis _ fun other inside => recorded other (List.mem_cons_of_mem _ inside)
  obtain ⟨read, isRead⟩ := reads reader.runs {} sound.runs
  rw [StreamFold.inputs, isSlots, isConfig, isRead]
  simp

/-! ### What an observation records -/

/-- Each change reaches its own target alone. -/
theorem Stream.changeAll_get? (supervisor : String) {changes : List (Target × Value)}
    (distinct : (changes.map Prod.fst).Nodup) (stream : Stream) (target : Target) :
    (∀ value, (target, value) ∈ changes →
      (stream.changeAll supervisor changes).2.values.get? target =
        if value = .null then none else some value) ∧
    (target ∉ changes.map Prod.fst →
      (stream.changeAll supervisor changes).2.values.get? target = stream.values.get? target) := by
  induction changes generalizing stream with
  | nil => exact ⟨nofun, fun _ => rfl⟩
  | cons change rest inductionHypothesis =>
    obtain ⟨changed, value⟩ := change
    rw [List.map_cons, List.nodup_cons] at distinct
    obtain ⟨inRest, notInRest⟩ := inductionHypothesis distinct.2 (stream.change changed value)
    refine ⟨fun held member => ?_, fun outside => ?_⟩
    · rcases List.mem_cons.mp member with isFirst | later
      · obtain ⟨rfl, rfl⟩ := Prod.mk.inj isFirst
        refine (notInRest distinct.1).trans ?_
        dsimp only [Stream.change]
        split
        · exact Ordered.get?_erase_self _ _
        · exact Ordered.get?_insert_self _ _ _
      · exact inRest held later
    · rw [List.map_cons, List.mem_cons, not_or] at outside
      refine (notInRest outside.2).trans ?_
      dsimp only [Stream.change]
      split
      · exact Ordered.get?_erase_of_ne _ outside.1
      · exact Ordered.get?_insert_of_ne _ _ outside.1

section Changes

variable {stream : Stream} {inputs : LiveInputs}

theorem mem_changes {target : Target} {value : Value} {values : List (Target × Value)} :
    (target, value) ∈ stream.changes values ↔
      ((∃ held, stream.values.get? target = some held) ∧ target ∉ values.map Prod.fst ∧
          value = .null) ∨
        ((target, value) ∈ values ∧ stream.values.get? target ≠ some value) := by
  have held : target ∈ stream.values.entries.map Prod.fst ↔
      ∃ held, stream.values.get? target = some held := by
    simp [Ordered.get?_eq_some_iff]
  rw [Stream.changes, List.mem_append, ← held]
  simp only [List.mem_map, List.mem_filter, decide_eq_true_eq, Prod.mk.injEq, ne_eq]
  constructor
  · rintro (⟨other, ⟨isHeld, isGone⟩, rfl, rfl⟩ | isNew)
    · exact .inl ⟨isHeld, isGone, rfl⟩
    · exact .inr isNew
  · rintro (⟨isHeld, isGone, rfl⟩ | isNew)
    · exact .inl ⟨target, ⟨isHeld, isGone⟩, rfl, rfl⟩
    · exact .inr isNew

theorem targets_recorded {target : Target} {value : Value}
    (member : (target, value) ∈ targets inputs) : Recorded target value := by
  simp only [targets, List.cons_append, List.nil_append, List.mem_cons, Prod.mk.injEq,
    List.mem_map] at member
  rcases member with ⟨rfl, rfl⟩ | ⟨rfl, rfl⟩ | ⟨run, _, rfl, rfl⟩
  · exact ⟨_, rfl⟩
  · exact ⟨_, rfl⟩
  · exact .inr ⟨run, inputs, rfl⟩

/-- Only a run is ever gone. -/
theorem changes_recorded {target : Target} {value : Value}
    (member : (target, value) ∈ stream.changes (targets inputs)) : Recorded target value := by
  rcases mem_changes.mp member with ⟨_, isGone, rfl⟩ | ⟨isNew, _⟩
  · cases target with
    | run id => exact .inl rfl
    | slots => exact absurd (by simp [targets]) isGone
    | config => exact absurd (by simp [targets]) isGone
  · exact targets_recorded isNew

theorem changes_distinct (listed : inputs.Listed) (stream : Stream) :
    ((stream.changes (targets inputs)).map Prod.fst).Nodup := by
  have keys : (stream.values.entries.map Prod.fst).Nodup := by
    rw [List.Nodup, List.pairwise_map]
    exact stream.values.ascending.imp fun before => before.ne
  rw [Stream.changes, List.map_append, List.map_map]
  refine List.nodup_append.mpr ⟨?_, ?_, fun first isGone second isNew same => ?_⟩
  · exact ((keys.filter _).map Function.injective_id : _)
  · exact listed.targets_distinct.sublist (List.filter_sublist.map _)
  · obtain ⟨gone, inGone, rfl⟩ := List.mem_map.mp isGone
    obtain ⟨new, inNew, rfl⟩ := List.mem_map.mp isNew
    refine of_decide_eq_true (List.mem_filter.mp inGone).2 ?_
    have isSame : gone = new.1 := same
    rw [isSame]
    exact List.mem_map_of_mem (List.mem_filter.mp inNew).1

/-- Once its changes are recorded, the stream holds the inputs seen. -/
theorem holds_changeAll (listed : inputs.Listed) (supervisor : String) (stream : Stream) :
    (stream.changeAll supervisor (stream.changes (targets inputs))).2.Holds inputs := by
  intro target value
  obtain ⟨changed, unchanged⟩ :=
    Stream.changeAll_get? supervisor (changes_distinct listed stream) stream target
  have single : ∀ {first second : Value}, (target, first) ∈ targets inputs →
      (target, second) ∈ targets inputs → first = second := fun isFirst isSecond =>
    (Prod.mk.inj (List.inj_on_of_nodup_map listed.targets_distinct isFirst isSecond rfl)).2
  by_cases inTargets : target ∈ (targets inputs).map Prod.fst
  · obtain ⟨now, member⟩ : ∃ now, (target, now) ∈ targets inputs := by simpa using inTargets
    have isNow : (stream.changeAll supervisor (stream.changes (targets inputs))).2.values.get? target =
        some now := by
      by_cases same : stream.values.get? target = some now
      · refine (unchanged fun inChanges => ?_).trans same
        obtain ⟨other, inside⟩ : ∃ other, (target, other) ∈ stream.changes (targets inputs) := by
          simpa using inChanges
        rcases mem_changes.mp inside with ⟨_, isGone, _⟩ | ⟨isNew, different⟩
        · exact isGone inTargets
        · exact different (single member isNew ▸ same)
      · rw [changed now (mem_changes.mpr (.inr ⟨member, same⟩)), if_neg (targets_ne_null member)]
    rw [isNow, Option.some.injEq]
    exact ⟨fun same => same ▸ member, fun isValue => single member isValue⟩
  · have absent : (target, value) ∉ targets inputs := fun inside =>
      inTargets (List.mem_map_of_mem inside)
    refine iff_of_false (fun found => ?_) absent
    cases before : stream.values.get? target with
    | some held =>
      rw [changed .null (mem_changes.mpr (.inl ⟨⟨held, before⟩, inTargets, rfl⟩)), if_pos rfl] at found
      cases found
    | none =>
      have notChanged : target ∉ (stream.changes (targets inputs)).map Prod.fst := fun inside => by
        obtain ⟨other, isChange⟩ : ∃ other, (target, other) ∈ stream.changes (targets inputs) := by
          simpa using inside
        rcases mem_changes.mp isChange with ⟨⟨held, isHeld⟩, _⟩ | ⟨isNew, _⟩
        · rw [before] at isHeld
          cases isHeld
        · exact inTargets (List.mem_map_of_mem isNew)
      rw [unchanged notChanged, before] at found
      cases found

end Changes

end Dagq.Alerts
