/-
This file makes the guard of the control side's git: the overrides that keep it from
running a hook or a driver that tracked content could choose. For each driver that some
scope defines by any of its keys, every key git would run a program by is overridden.
An override is determined by its key, so the order and the repetition of the names count
for nothing, no key is overridden twice, and the check of the guard accepts it.
-/

import Dagq.Clone.GuardHolds
import Dagq.Lib.Text

namespace Dagq.Clone

open Dagq.Lib
open Ledger (splitOnce splitOnce_eq_some_iff)

/-- The driver keys whose program a tracked `.gitattributes` can choose by naming the driver. -/
def driverKeys : List (Text × Text) :=
  [("filter".toList, "clean".toList), ("filter".toList, "smudge".toList),
    ("filter".toList, "process".toList), ("diff".toList, "textconv".toList),
    ("diff".toList, "command".toList), ("merge".toList, "driver".toList)]

/-- A plain diff of the two files git hands an external diff. -/
def plainExternalDiff : Text :=
  "git diff --no-index --no-ext-diff --no-textconv -- \"$2\" \"$5\" || :".toList

/-- The directory of hooks where there are none. -/
def noHooks : Text := "/dev/null".toList

/-- The override that turns the hooks off. -/
def hooksOff : Text × Text := ("core.hooksPath".toList, noHooks)

/-- The text of a key with a subsection. -/
def dotted (section_ driver name : Text) : Text := section_ ++ '.' :: (driver ++ '.' :: name)

/-- The override is added where its key is not overridden yet. -/
def push (overrides : List (Text × Text)) (override : Text × Text) : List (Text × Text) :=
  if overrides.any fun other => other.1 = override.1 then overrides else overrides ++ [override]

/-- The overrides that make a driver of the section run no program of the repository. -/
def harmless (section_ driver : Text) : List (Text × Text) :=
  if section_ = "filter".toList then
    (["clean".toList, "smudge".toList, "process".toList].map fun key =>
      (dotted "filter".toList driver key, [])) ++
    [(dotted "filter".toList driver "required".toList, "false".toList)]
  else if section_ = "diff".toList then
    [(dotted "diff".toList driver "textconv".toList, "cat".toList),
      (dotted "diff".toList driver "command".toList, plainExternalDiff)]
  else [(dotted "merge".toList driver "driver".toList, "false".toList)]

/-- Whether no override can name the driver. -/
def unnameable (driver : Text) : Bool := driver.any fun char => char == '\n' || char == nul

/-- What one name of a key adds to the overrides. -/
def guardName (debug : Text → Text) (overrides : List (Text × Text)) (name : Text) :
    Except Text (List (Text × Text)) :=
  match splitOnce (· == '.') name with
  | none => .ok overrides
  | some (section_, rest) =>
    match rsplitOnce (· == '.') rest with
    | none => .ok overrides
    | some (driver, key) =>
      if (asciiLower section_, asciiLower key) ∉ driverKeys then .ok overrides
      else if unnameable driver then
        .error ("the ".toList ++ asciiLower section_ ++ " driver ".toList ++ debug driver ++
          " cannot be overridden".toList)
      else .ok ((harmless (asciiLower section_) driver).foldl push overrides)

/-- The names of a listing, without the white space around them. -/
def namesOf (names : Text) : List Text :=
  ((names.splitOn nul).map trimmed).filter (· ≠ [])

/-- The overrides for a configuration with these names of keys. -/
def guardOverrides (debug : Text → Text) (names : Text) : Except Text (List (Text × Text)) :=
  (namesOf names).foldlM (guardName debug) [hooksOff]

/-! ### What is overridden -/

def driverSections : List Text := ["filter".toList, "diff".toList, "merge".toList]

/-- The last parts of the keys overridden for a driver of a section. -/
def guardedNames (section_ : Text) : List Text :=
  if section_ = "filter".toList then
    ["clean".toList, "smudge".toList, "process".toList, "required".toList]
  else if section_ = "diff".toList then ["textconv".toList, "command".toList]
  else ["driver".toList]

/-- The value that a key of a driver is overridden with. -/
def harmlessValue (section_ name : Text) : Text :=
  if section_ = "filter".toList then if name = "required".toList then "false".toList else []
  else if section_ = "diff".toList then
    if name = "textconv".toList then "cat".toList else plainExternalDiff
  else "false".toList

theorem harmless_eq {section_ : Text} (isSection : section_ ∈ driverSections) (driver : Text) :
    harmless section_ driver = (guardedNames section_).map fun name =>
      (dotted section_ driver name, harmlessValue section_ name) := by
  simp only [driverSections, List.mem_cons, List.not_mem_nil, or_false] at isSection
  rcases isSection with rfl | rfl | rfl <;> rfl

theorem section_of_driverKeys {section_ name : Text} (isKey : (section_, name) ∈ driverKeys) :
    section_ ∈ driverSections ∧ name ∈ guardedNames section_ := by
  simp only [driverKeys, List.mem_cons, List.not_mem_nil, or_false, Prod.mk.injEq] at isKey
  rcases isKey with ⟨rfl, rfl⟩ | ⟨rfl, rfl⟩ | ⟨rfl, rfl⟩ | ⟨rfl, rfl⟩ | ⟨rfl, rfl⟩ | ⟨rfl, rfl⟩ <;>
    decide

/-- The texts of sections and last parts are in lower case, on one line and without a dot. -/
theorem plain_parts : ∀ section_ ∈ driverSections, ∀ name ∈ guardedNames section_,
    ('.' ∉ section_ ∧ asciiLower section_ = section_ ∧ '\n' ∉ section_ ∧ nul ∉ section_) ∧
      ('.' ∉ name ∧ asciiLower name = name ∧ '\n' ∉ name ∧ nul ∉ name) ∧
      nul ∉ harmlessValue section_ name := by
  decide +kernel

theorem split_dotted {section_ name : Text} (driver : Text) (sectionPlain : '.' ∉ section_)
    (namePlain : '.' ∉ name) :
    splitOnce (· == '.') (dotted section_ driver name) = some (section_, driver ++ '.' :: name) ∧
      rsplitOnce (· == '.') (driver ++ '.' :: name) = some (driver, name) := by
  have noDot : ∀ {text : Text}, '.' ∉ text → ∀ char ∈ text, (char == '.') = false := by
    intro text absent char member
    exact beq_false_of_ne fun same => absent (same ▸ member)
  exact ⟨splitOnce_eq_some_iff.mpr ⟨'.', beq_self_eq_true _, noDot sectionPlain, rfl⟩,
    rsplitOnce_eq_some_iff.mpr ⟨'.', beq_self_eq_true _, noDot namePlain, rfl⟩⟩

theorem configKey_dotted {section_ name : Text} (driver : Text)
    (isSection : section_ ∈ driverSections) (isName : name ∈ guardedNames section_) :
    configKey (dotted section_ driver name) = ⟨section_, some driver, some name⟩ ∧
      keyParts (dotted section_ driver name) = some (section_, driver, name) := by
  obtain ⟨⟨sectionPlain, sectionLower, _⟩, ⟨namePlain, nameLower, _⟩, _⟩ :=
    plain_parts section_ isSection name isName
  obtain ⟨first, last⟩ := split_dotted driver sectionPlain namePlain
  constructor
  · rw [configKey, first]
    show (match rsplitOnce (· == '.') (driver ++ '.' :: name) with
      | none => _
      | some (subsection, name) => _) = _
    rw [last]
    show (⟨asciiLower section_, some driver, some (asciiLower name)⟩ : ConfigKey) = _
    rw [sectionLower, nameLower]
  · rw [keyParts, first]
    show some (asciiLower section_, ((rsplitOnce (· == '.') (driver ++ '.' :: name)).getD _).1,
      asciiLower ((rsplitOnce (· == '.') (driver ++ '.' :: name)).getD _).2) = _
    rw [last, Option.getD_some, sectionLower, nameLower]

theorem asciiLower_dotted {section_ name : Text} (driver : Text)
    (isSection : section_ ∈ driverSections) (isName : name ∈ guardedNames section_) :
    asciiLower (dotted section_ driver name) = dotted section_ (asciiLower driver) name := by
  obtain ⟨⟨_, sectionLower, _⟩, ⟨_, nameLower, _⟩, _⟩ := plain_parts section_ isSection name isName
  have lower : asciiLower (dotted section_ driver name) =
      asciiLower section_ ++ '.' :: (asciiLower driver ++ '.' :: asciiLower name) := by
    simp only [asciiLower, dotted, List.map_append, List.map_cons]
    rfl
  rw [lower, sectionLower, nameLower]
  rfl

/-- An override of the guard. -/
def Override (override : Text × Text) : Prop :=
  override = hooksOff ∨ ∃ section_ ∈ driverSections, ∃ name ∈ guardedNames section_, ∃ driver,
    unnameable driver = false ∧ override = (dotted section_ driver name, harmlessValue section_ name)

theorem configKey_hooksOff : configKey hooksOff.1 = ⟨"core".toList, none, some "hookspath".toList⟩ := by
  decide +kernel

theorem keyParts_hooksOff : keyParts hooksOff.1 = some ("core".toList, [], "hookspath".toList) := by
  decide +kernel

/-- An override is determined by its key. -/
theorem Override.eq_of_configKey {first second : Text × Text} (isFirst : Override first)
    (isSecond : Override second) (same : configKey first.1 = configKey second.1) :
    first = second := by
  rcases isFirst with rfl | ⟨section_, isSection, name, isName, driver, _, rfl⟩
  · rcases isSecond with rfl | ⟨other, isOther, otherName, isOtherName, otherDriver, _, rfl⟩
    · rfl
    · rw [configKey_hooksOff, (configKey_dotted otherDriver isOther isOtherName).1] at same
      cases (ConfigKey.mk.inj same).2.1
  · rw [(configKey_dotted driver isSection isName).1] at same
    rcases isSecond with rfl | ⟨other, isOther, otherName, isOtherName, otherDriver, _, rfl⟩
    · rw [configKey_hooksOff] at same
      cases (ConfigKey.mk.inj same).2.1
    · rw [(configKey_dotted otherDriver isOther isOtherName).1] at same
      obtain ⟨rfl, sameDriver, sameName⟩ := ConfigKey.mk.inj same
      rw [Option.some.inj sameDriver, Option.some.inj sameName]

theorem alike_of_takesKey {key name : Text} (taken : takesKey key name = true) :
    asciiLower name = asciiLower key ∨ keyParts name = keyParts key := by
  rw [takesKey, Bool.or_eq_true, decide_eq_true_eq] at taken
  refine taken.imp_right fun same => ?_
  unfold sameKey at same
  split at same
  · cases same
  · rename_i parts isName
    exact isName.trans (of_decide_eq_true same).symm

/-- The check takes no key of a driver for the hooks' key. -/
theorem hooksOff_apart {section_ name : Text} (driver : Text) (isSection : section_ ∈ driverSections)
    (isName : name ∈ guardedNames section_) :
    asciiLower (dotted section_ driver name) ≠ asciiLower hooksOff.1 ∧
      keyParts (dotted section_ driver name) ≠ keyParts hooksOff.1 := by
  constructor
  · intro lower
    have key := congrArg configKey lower
    have hooks : configKey (asciiLower hooksOff.1) =
        ⟨"core".toList, none, some "hookspath".toList⟩ := by decide +kernel
    rw [asciiLower_dotted driver isSection isName,
      (configKey_dotted (asciiLower driver) isSection isName).1, hooks] at key
    cases (ConfigKey.mk.inj key).2.1
  · have notCore : ∀ section_ ∈ driverSections, section_ ≠ "core".toList := by decide
    intro parts
    rw [keyParts_hooksOff, (configKey_dotted driver isSection isName).2, Option.some.injEq,
      Prod.mk.injEq] at parts
    exact notCore section_ isSection parts.1

/-- Overrides that the check takes for one key have one value. -/
theorem Override.value_of_takesKey {first second : Text × Text} (isFirst : Override first)
    (isSecond : Override second) (taken : takesKey second.1 first.1 = true) :
    first.2 = second.2 := by
  have taken := alike_of_takesKey taken
  rcases isFirst with rfl | ⟨section_, isSection, name, isName, driver, _, rfl⟩
  · rcases isSecond with rfl | ⟨other, isOther, otherName, isOtherName, otherDriver, _, rfl⟩
    · rfl
    · obtain ⟨notLower, notParts⟩ := hooksOff_apart otherDriver isOther isOtherName
      exact absurd taken (not_or.mpr ⟨Ne.symm notLower, Ne.symm notParts⟩)
  · rcases isSecond with rfl | ⟨other, isOther, otherName, isOtherName, otherDriver, _, rfl⟩
    · obtain ⟨notLower, notParts⟩ := hooksOff_apart driver isSection isName
      exact absurd taken (not_or.mpr ⟨notLower, notParts⟩)
    · have alike : section_ = other ∧ name = otherName := by
        rcases taken with lower | parts
        · have key := congrArg configKey lower
          rw [asciiLower_dotted driver isSection isName,
            asciiLower_dotted otherDriver isOther isOtherName,
            (configKey_dotted (asciiLower driver) isSection isName).1,
            (configKey_dotted (asciiLower otherDriver) isOther isOtherName).1] at key
          obtain ⟨sameSection, _, sameName⟩ := ConfigKey.mk.inj key
          exact ⟨sameSection, Option.some.inj sameName⟩
        · rw [(configKey_dotted driver isSection isName).2,
            (configKey_dotted otherDriver isOther isOtherName).2, Option.some.injEq,
            Prod.mk.injEq, Prod.mk.injEq] at parts
          exact ⟨parts.1, parts.2.2⟩
      rw [alike.1, alike.2]

/-! ### One name of a key -/

/-- The name is of a key of this driver whose program git would run. -/
def NamesDriver (name section_ driver : Text) : Prop :=
  ∃ key, configKey name = ⟨section_, some driver, some key⟩ ∧ (section_, key) ∈ driverKeys

/-- What one name does: it names a driver, which cannot be overridden or is, or it adds nothing. -/
theorem guardName_cases (debug : Text → Text) (overrides : List (Text × Text)) (name : Text) :
    (∃ section_ driver, NamesDriver name section_ driver ∧
        ((unnameable driver = true ∧ ∃ why, guardName debug overrides name = .error why) ∨
          unnameable driver = false ∧
            guardName debug overrides name = .ok ((harmless section_ driver).foldl push overrides))) ∨
      (∀ section_ driver, ¬ NamesDriver name section_ driver) ∧
        guardName debug overrides name = .ok overrides := by
  rw [guardName]
  cases splits : splitOnce (· == '.') name with
  | none =>
    refine Or.inr ⟨?_, rfl⟩
    rintro section_ driver ⟨key, isKey, _⟩
    rw [configKey, splits] at isKey
    cases (ConfigKey.mk.inj isKey).2.1
  | some parts =>
    obtain ⟨section_, rest⟩ := parts
    cases again : rsplitOnce (· == '.') rest with
    | none =>
      refine Or.inr ⟨?_, by simp only [again]⟩
      rintro section_ driver ⟨key, isKey, _⟩
      rw [configKey, splits] at isKey
      simp only [again] at isKey
      cases (ConfigKey.mk.inj isKey).2.1
    | some both =>
      obtain ⟨driver, key⟩ := both
      have named : configKey name = ⟨asciiLower section_, some driver, some (asciiLower key)⟩ := by
        rw [configKey, splits]
        simp only [again]
      simp only [again]
      by_cases isKey : (asciiLower section_, asciiLower key) ∈ driverKeys
      · refine Or.inl ⟨asciiLower section_, driver, ⟨asciiLower key, named, isKey⟩, ?_⟩
        rw [if_neg (not_not_intro isKey)]
        cases bad : unnameable driver with
        | true => exact Or.inl ⟨rfl, _, if_pos rfl⟩
        | false => exact Or.inr ⟨rfl, if_neg Bool.false_ne_true⟩
      · refine Or.inr ⟨?_, if_pos isKey⟩
        rintro other otherDriver ⟨otherKey, otherNamed, isOther⟩
        rw [named] at otherNamed
        obtain ⟨rfl, _, sameKey⟩ := ConfigKey.mk.inj otherNamed
        exact isKey (Option.some.inj sameKey ▸ isOther)

/-- A name is of one driver. -/
theorem NamesDriver.unique {name section_ driver other otherDriver : Text}
    (first : NamesDriver name section_ driver) (second : NamesDriver name other otherDriver) :
    section_ = other ∧ driver = otherDriver := by
  obtain ⟨_, isFirst, _⟩ := first
  obtain ⟨_, isSecond, _⟩ := second
  rw [isFirst] at isSecond
  obtain ⟨sameSection, sameDriver, _⟩ := ConfigKey.mk.inj isSecond
  exact ⟨sameSection, Option.some.inj sameDriver⟩

/-- What is overridden for these names. -/
def Overridden (names : List Text) (override : Text × Text) : Prop :=
  override = hooksOff ∨ ∃ name ∈ names, ∃ section_ driver, NamesDriver name section_ driver ∧
    override ∈ harmless section_ driver

/-- What holds of the overrides once these names are gone through. -/
structure Guards (names : List Text) (overrides : List (Text × Text)) : Prop where
  distinct : overrides.Nodup
  known : ∀ override ∈ overrides, Override override
  exact_ : ∀ override, override ∈ overrides ↔ Overridden names override
  nameable : ∀ name ∈ names, ∀ section_ driver, NamesDriver name section_ driver →
    unnameable driver = false

theorem override_of_harmless {section_ driver : Text} (isSection : section_ ∈ driverSections)
    (nameable : unnameable driver = false) {override : Text × Text}
    (member : override ∈ harmless section_ driver) : Override override := by
  rw [harmless_eq isSection] at member
  obtain ⟨name, isName, same⟩ := List.mem_map.mp member
  exact Or.inr ⟨section_, isSection, name, isName, driver, nameable, same.symm⟩

/-- Overrides pushed join those there, each once. -/
theorem foldl_push {overrides more : List (Text × Text)} (distinct : overrides.Nodup)
    (known : ∀ override ∈ overrides, Override override)
    (moreKnown : ∀ override ∈ more, Override override) :
    (more.foldl push overrides).Nodup ∧
      ∀ override, override ∈ more.foldl push overrides ↔ override ∈ overrides ∨ override ∈ more := by
  induction more generalizing overrides with
  | nil => exact ⟨distinct, fun override => by simp⟩
  | cons first rest inductionHypothesis =>
    obtain ⟨firstKnown, restKnown⟩ := List.forall_mem_cons.mp moreKnown
    rw [List.foldl_cons]
    by_cases held : first ∈ overrides
    · have kept : push overrides first = overrides :=
        if_pos (List.any_eq_true.mpr ⟨first, held, by simp⟩)
      rw [kept]
      obtain ⟨after, members⟩ := inductionHypothesis distinct known restKnown
      refine ⟨after, fun override => (members override).trans ?_⟩
      rw [List.mem_cons]
      constructor
      · rintro (before | later)
        · exact Or.inl before
        · exact Or.inr (Or.inr later)
      · rintro (before | same | later)
        · exact Or.inl before
        · exact Or.inl (same ▸ held)
        · exact Or.inr later
    · have added : push overrides first = overrides ++ [first] := by
        refine if_neg fun found => held ?_
        obtain ⟨other, member, sameKey⟩ := List.any_eq_true.mp found
        have same := (known other member).eq_of_configKey firstKnown
          (congrArg configKey (of_decide_eq_true sameKey))
        exact same ▸ member
      rw [added]
      have appended : (overrides ++ [first]).Nodup :=
        List.nodup_append.mpr ⟨distinct, List.nodup_singleton first, fun one member other isFirst =>
          fun same => held (List.mem_singleton.mp isFirst ▸ same ▸ member)⟩
      have allKnown : ∀ override ∈ overrides ++ [first], Override override := by
        intro override member
        rcases List.mem_append.mp member with before | isFirst
        · exact known override before
        · exact List.mem_singleton.mp isFirst ▸ firstKnown
      obtain ⟨after, members⟩ := inductionHypothesis appended allKnown restKnown
      refine ⟨after, fun override => (members override).trans ?_⟩
      rw [List.mem_append, List.mem_singleton, List.mem_cons, or_assoc]

theorem guards_nil : Guards [] [hooksOff] where
  distinct := List.nodup_singleton _
  known := fun override member => Or.inl (List.mem_singleton.mp member)
  exact_ := fun override => by simp [Overridden]
  nameable := fun _ member => absurd member List.not_mem_nil

/-- One more name keeps what holds of the overrides. -/
theorem Guards.step {debug : Text → Text} {names : List Text} {overrides after : List (Text × Text)}
    (guards : Guards names overrides) {name : Text}
    (passes : guardName debug overrides name = .ok after) : Guards (names ++ [name]) after := by
  have overridden : ∀ override, Overridden (names ++ [name]) override ↔
      Overridden names override ∨ ∃ section_ driver, NamesDriver name section_ driver ∧
        override ∈ harmless section_ driver := by
    intro override
    simp only [Overridden, List.mem_append, List.mem_singleton, or_and_right, exists_or,
      exists_eq_left, or_assoc]
  rcases guardName_cases debug overrides name with
    ⟨section_, driver, named, ⟨_, why, fails⟩ | ⟨nameable, does⟩⟩ | ⟨unnamed, does⟩
  · rw [fails] at passes
    cases passes
  · rw [does] at passes
    cases passes
    obtain ⟨key, isKey, isDriverKey⟩ := named
    have isSection := (section_of_driverKeys isDriverKey).1
    have pushed : ∀ override ∈ harmless section_ driver, Override override :=
      fun override member => override_of_harmless isSection nameable member
    obtain ⟨distinct, members⟩ := foldl_push guards.distinct guards.known pushed
    refine ⟨distinct, fun override member => ?_, fun override => ?_, fun other member => ?_⟩
    · rcases (members override).mp member with before | isNew
      · exact guards.known override before
      · exact pushed override isNew
    · rw [members, guards.exact_, overridden]
      refine or_congr_right ⟨fun isNew => ⟨section_, driver, ⟨key, isKey, isDriverKey⟩, isNew⟩, ?_⟩
      rintro ⟨other, otherDriver, otherNamed, isNew⟩
      obtain ⟨rfl, rfl⟩ := NamesDriver.unique ⟨key, isKey, isDriverKey⟩ otherNamed
      exact isNew
    · intro otherSection otherDriver otherNamed
      rcases List.mem_append.mp member with before | isName
      · exact guards.nameable other before otherSection otherDriver otherNamed
      · rw [List.mem_singleton.mp isName] at otherNamed
        obtain ⟨_, rfl⟩ := NamesDriver.unique ⟨key, isKey, isDriverKey⟩ otherNamed
        exact nameable
  · rw [does] at passes
    cases passes
    refine ⟨guards.distinct, guards.known, fun override => ?_, fun other member => ?_⟩
    · rw [guards.exact_, overridden]
      refine ⟨Or.inl, ?_⟩
      rintro (before | ⟨section_, driver, named, _⟩)
      · exact before
      · exact absurd named (unnamed section_ driver)
    · intro section_ driver named
      rcases List.mem_append.mp member with before | isName
      · exact guards.nameable other before section_ driver named
      · exact absurd (List.mem_singleton.mp isName ▸ named) (unnamed section_ driver)

/-- The overrides of names: what they override, each once. -/
theorem guards_of_foldlM {debug : Text → Text} {names : List Text} {overrides : List (Text × Text)}
    (passes : names.foldlM (guardName debug) [hooksOff] = .ok overrides) :
    Guards names overrides := by
  induction names using List.reverseRecOn generalizing overrides with
  | nil =>
    cases passes
    exact guards_nil
  | append_singleton names name inductionHypothesis =>
    rw [List.foldlM_append] at passes
    cases before : names.foldlM (guardName debug) [hooksOff] with
    | error why =>
      rw [before] at passes
      cases passes
    | ok between =>
      rw [before] at passes
      have single : [name].foldlM (guardName debug) between = guardName debug between name := by
        rw [List.foldlM_cons]
        exact bind_pure _
      exact (inductionHypothesis before).step (single.symm.trans passes)

/-- Names without a driver that cannot be overridden have overrides. -/
theorem foldlM_ok_of_nameable {debug : Text → Text} {names : List Text}
    (nameable : ∀ name ∈ names, ∀ section_ driver, NamesDriver name section_ driver →
      unnameable driver = false) (overrides : List (Text × Text)) :
    ∃ after, names.foldlM (guardName debug) overrides = .ok after := by
  induction names generalizing overrides with
  | nil => exact ⟨overrides, rfl⟩
  | cons name rest inductionHypothesis =>
    obtain ⟨nameIs, restAre⟩ := List.forall_mem_cons.mp nameable
    have goesOn : ∃ next, guardName debug overrides name = .ok next := by
      rcases guardName_cases debug overrides name with
        ⟨section_, driver, named, ⟨bad, _⟩ | ⟨_, does⟩⟩ | ⟨_, does⟩
      · rw [nameIs section_ driver named] at bad
        cases bad
      · exact ⟨_, does⟩
      · exact ⟨_, does⟩
    obtain ⟨next, does⟩ := goesOn
    obtain ⟨after, rest⟩ := inductionHypothesis restAre next
    refine ⟨after, ?_⟩
    rw [List.foldlM_cons, does]
    exact rest

/-! ### The configuration with the overrides as its last scope -/

/-- The value that git reads of a key: that of its last entry. -/
def effectiveValue {Value : Type} (config : List (Text × Value)) (key : ConfigKey) : Option Value :=
  lastValue (fun name => configKey name = key) config

/-- The configuration with the overrides after all its scopes; an entry without a value is none. -/
def guarded (config : List (Text × Option Text)) (overrides : List (Text × Text)) :
    List (Text × Option Text) :=
  config ++ overrides.map fun override => (override.1, some override.2)

/-- An entry as git lists it. -/
def entryText (entry : Text × Option Text) : Text :=
  (entry.1 ++ entry.2.elim [] ('\n' :: ·)) ++ [nul]

/-- A configuration as git lists it. -/
def listing (config : List (Text × Option Text)) : Text := config.flatMap entryText

/-- An override is what git reads of its key. -/
theorem effectiveValue_guarded {names : List Text} {overrides : List (Text × Text)}
    (guards : Guards names overrides) (config : List (Text × Option Text)) {override : Text × Text}
    (member : override ∈ overrides) :
    effectiveValue (guarded config overrides) (configKey override.1) = some (some override.2) := by
  rw [effectiveValue, lastValue, guarded, lastMatch_append]
  cases found : lastMatch (fun entry : Text × Option Text =>
      decide (configKey entry.1 = configKey override.1))
      (overrides.map fun override => (override.1, some override.2)) with
  | none =>
    have taken := lastMatch_eq_none_iff.mp found (override.1, some override.2)
      (List.mem_map.mpr ⟨override, member, rfl⟩)
    simp at taken
  | some entry =>
    obtain ⟨before, after, isCut, taken, _⟩ := lastMatch_eq_some_iff.mp found
    have inside : entry ∈ overrides.map fun override => (override.1, some override.2) :=
      isCut ▸ List.mem_append_right _ List.mem_cons_self
    obtain ⟨other, otherMember, rfl⟩ := List.mem_map.mp inside
    have same := (guards.known other otherMember).eq_of_configKey (guards.known override member)
      (of_decide_eq_true taken)
    rw [same]
    rfl

/-- What git reads of a key that no override has is what the scopes give it. -/
theorem effectiveValue_of_not_overridden {overrides : List (Text × Text)}
    (config : List (Text × Option Text)) {key : ConfigKey}
    (absent : ∀ override ∈ overrides, configKey override.1 ≠ key) :
    effectiveValue (guarded config overrides) key = effectiveValue config key := by
  have none_ : lastMatch (fun entry : Text × Option Text => decide (configKey entry.1 = key))
      (overrides.map fun override => (override.1, some override.2)) = none := by
    refine lastMatch_eq_none_iff.mpr fun entry inside => ?_
    obtain ⟨override, member, rfl⟩ := List.mem_map.mp inside
    exact decide_eq_false (absent override member)
  rw [effectiveValue, lastValue, guarded, lastMatch_append, none_]
  rfl

/-- The name of a driver's key has no white space around it. -/
theorem trimmed_of_namesDriver {name section_ driver : Text}
    (named : NamesDriver name section_ driver) : trimmed name = name ∧ name ≠ [] := by
  obtain ⟨key, isKey, isDriverKey⟩ := named
  obtain ⟨isSection, isName⟩ := section_of_driverKeys isDriverKey
  -- the ends of the parts are letters, whatever their case
  have ends : ∀ section_ ∈ driverSections, ∀ name ∈ guardedNames section_,
      (section_ ≠ [] ∧ (section_.head?.all fun char => !isWhiteSpace char) = true) ∧
        name ≠ [] ∧ (name.getLast?.all fun char => !isWhiteSpace char) = true := by decide +kernel
  obtain ⟨⟨sectionSome, sectionVisible⟩, nameSome, nameVisible⟩ := ends section_ isSection key isName
  have visible : ∀ {char : Option Char}, ((char.map Char.toLower).all fun char =>
      !isWhiteSpace char) = true → (char.all fun char => !isWhiteSpace char) = true := by
    intro char lower
    cases char with
    | none => rfl
    | some char =>
      by_contra blank
      have isBlank : isWhiteSpace char = true := by simpa using blank
      simp [isWhiteSpace_toLower isBlank] at lower
  rw [configKey] at isKey
  cases splits : splitOnce (· == '.') name with
  | none =>
    rw [splits] at isKey
    cases (ConfigKey.mk.inj isKey).2.1
  | some parts =>
    obtain ⟨first, rest⟩ := parts
    rw [splits] at isKey
    cases again : rsplitOnce (· == '.') rest with
    | none =>
      simp only [again] at isKey
      cases (ConfigKey.mk.inj isKey).2.1
    | some both =>
      obtain ⟨middle, last⟩ := both
      simp only [again] at isKey
      obtain ⟨sameSection, _, sameName⟩ := ConfigKey.mk.inj isKey
      obtain ⟨firstDot, _, _, isName⟩ := splitOnce_eq_some_iff.mp splits
      obtain ⟨lastDot, _, _, isRest⟩ := rsplitOnce_eq_some_iff.mp again
      have firstSome : first ≠ [] := by
        rintro rfl
        exact sectionSome sameSection.symm
      have lastSome : last ≠ [] := by
        rintro rfl
        exact nameSome (Option.some.inj sameName).symm
      obtain ⟨head, tail, rfl⟩ := List.exists_cons_of_ne_nil firstSome
      refine ⟨trimmed_of_visible ?_ ?_, by rw [isName]; exact List.cons_ne_nil _ _⟩
      · rw [isName]
        refine visible ?_
        rw [← sameSection, asciiLower, List.head?_map] at sectionVisible
        exact sectionVisible
      · have ending : name = (head :: tail ++ firstDot :: (middle ++ [lastDot])) ++ last := by
          rw [isName, isRest]
          simp
        rw [ending, List.getLast?_append_of_ne_nil _ lastSome]
        refine visible ?_
        rw [← Option.some.inj sameName, asciiLower, List.getLast?_map] at nameVisible
        exact nameVisible

/-- A driver that some listed key names is among the names gone through. -/
theorem mem_namesOf {names name section_ driver : Text} (listed : name ∈ names.splitOn nul)
    (named : NamesDriver name section_ driver) : name ∈ namesOf names := by
  obtain ⟨same, isSome⟩ := trimmed_of_namesDriver named
  refine List.mem_filter.mpr ⟨List.mem_map.mpr ⟨name, listed, same⟩, ?_⟩
  simpa using isSome

/-! ### The check accepts the guard -/

theorem override_text {override : Text × Text} (isOverride : Override override) :
    '\n' ∉ override.1 ∧ nul ∉ override.1 ∧ nul ∉ override.2 ∧ override.1 ≠ [] := by
  rcases isOverride with rfl | ⟨section_, isSection, name, isName, driver, nameable, rfl⟩
  · decide
  · obtain ⟨⟨_, _, sectionLine, sectionNul⟩, ⟨_, _, nameLine, nameNul⟩, valueNul⟩ :=
      plain_parts section_ isSection name isName
    have driverLine : ∀ char ∈ driver, char ≠ '\n' ∧ char ≠ nul := by
      simpa [unnameable] using nameable
    have dot : '.' ≠ '\n' ∧ '.' ≠ nul := by decide
    simp only [dotted, List.mem_append, List.mem_cons, not_or]
    refine ⟨⟨sectionLine, Ne.symm dot.1, fun member => (driverLine _ member).1 rfl, Ne.symm dot.1,
      nameLine⟩, ⟨sectionNul, Ne.symm dot.2, fun member => (driverLine _ member).2 rfl,
      Ne.symm dot.2, nameNul⟩, valueNul, ?_⟩
    exact fun isNil => by simp at isNil

theorem splitOn_listing (config : List (Text × Option Text)) (rest : Text) :
    ∃ before, (listing config ++ rest).splitOn nul = before ++ rest.splitOn nul := by
  induction config with
  | nil => exact ⟨[], rfl⟩
  | cons entry config inductionHypothesis =>
    obtain ⟨before, splits⟩ := inductionHypothesis
    refine ⟨(entry.1 ++ entry.2.elim [] ('\n' :: ·)).splitOn nul ++ before, ?_⟩
    have unfolds : listing (entry :: config) ++ rest =
        (entry.1 ++ entry.2.elim [] ('\n' :: ·)) ++ nul :: (listing config ++ rest) := by
      simp [listing, entryText]
    rw [unfolds, List.splitOn_append_cons_self, splits, List.append_assoc]

/-- The overrides, listed, read back as they are. -/
theorem entries_overrides {overrides : List (Text × Text)}
    (known : ∀ override ∈ overrides, Override override) :
    entries (listing (overrides.map fun override => (override.1, some override.2))) =
      overrides ++ [([], [])] := by
  induction overrides with
  | nil => rfl
  | cons override rest inductionHypothesis =>
    obtain ⟨isKnown, restKnown⟩ := List.forall_mem_cons.mp known
    obtain ⟨oneLine, keyNul, valueNul, _⟩ := override_text isKnown
    have unfolds : listing ((override :: rest).map fun override => (override.1, some override.2)) =
        (override.1 ++ '\n' :: override.2) ++
          nul :: listing (rest.map fun override => (override.1, some override.2)) := by
      simp [listing, entryText]
    have noNul : nul ∉ override.1 ++ '\n' :: override.2 := by
      simp only [List.mem_append, List.mem_cons, not_or]
      exact ⟨keyNul, by decide, valueNul⟩
    have parsed : splitOnce (· == '\n') (override.1 ++ '\n' :: override.2) = some override :=
      splitOnce_eq_some_iff.mpr ⟨'\n', beq_self_eq_true _, fun char member =>
        beq_false_of_ne fun same => oneLine (same ▸ member), rfl⟩
    rw [entries, unfolds, List.splitOn_append_cons_self_of_not_mem noNul, List.map_cons, parsed]
    exact congrArg (override :: ·) (inductionHypothesis restKnown)

/-- A listing of scopes and overrides has the overrides as its last entries. -/
theorem entries_guarded {overrides : List (Text × Text)}
    (known : ∀ override ∈ overrides, Override override) (config : List (Text × Option Text)) :
    ∃ before, entries (listing (guarded config overrides)) = before ++ overrides ++ [([], [])] := by
  have whole : listing (guarded config overrides) = listing config ++
      listing (overrides.map fun override => (override.1, some override.2)) := by
    simp [listing, guarded]
  obtain ⟨before, splits⟩ := splitOn_listing config
    (listing (overrides.map fun override => (override.1, some override.2)))
  refine ⟨before.map fun entry => (splitOnce (· == '\n') entry).getD (entry, []), ?_⟩
  rw [List.append_assoc, ← entries_overrides known, entries, whole, splits, List.map_append]
  rfl

/-- Read with the overrides in place, every override is the last value the check takes for it. -/
theorem guardHolds_guarded {names : List Text} {overrides : List (Text × Text)}
    (guards : Guards names overrides) (debug : Text → Text) (config : List (Text × Option Text)) :
    guardHolds debug (listing (guarded config overrides)) overrides = .ok () := by
  rw [guardHolds_eq_ok_iff]
  intro override member
  obtain ⟨before, isListed⟩ := entries_guarded guards.known config
  have lastEmpty : lastMatch (fun entry : Text × Text => takesKey override.1 entry.1)
      [([], [])] = none := by
    obtain ⟨_, _, _, isSome⟩ := override_text (guards.known override member)
    refine lastMatch_eq_none_iff.mpr fun entry isEntry => ?_
    rw [List.mem_singleton.mp isEntry, takesKey, Bool.or_eq_false_iff]
    refine ⟨decide_eq_false fun same => isSome ?_, rfl⟩
    exact List.map_eq_nil_iff.mp same.symm
  rw [lastValue, isListed, List.append_assoc, lastMatch_append, lastMatch_append, lastEmpty]
  cases found : lastMatch (fun entry : Text × Text => takesKey override.1 entry.1) overrides with
  | none =>
    have self := lastMatch_eq_none_iff.mp found override member
    rw [takesKey_of_configKey rfl] at self
    cases self
  | some entry =>
    obtain ⟨front, back, isCut, taken, _⟩ := lastMatch_eq_some_iff.mp found
    have inside : entry ∈ overrides := isCut ▸ List.mem_append_right _ List.mem_cons_self
    have same := (guards.known entry inside).value_of_takesKey (guards.known override member) taken
    rw [← same]
    rfl

/-! ### The guard -/

/-- The overrides made for a configuration, as its last scope: each driver that some scope defines
by any of its keys has every key of its overridden with a value of the guard's, a filter is not
required, and there are no hooks; no key is overridden twice; names in another order, or repeated,
make the same overrides and the same configuration; and the check of the guard accepts it. -/
theorem guardOverrides_harmless (debug : Text → Text) (names : Text)
    (overrides : List (Text × Text)) (passes : guardOverrides debug names = .ok overrides)
    (config : List (Text × Option Text))
    (listed : ∀ entry ∈ config, entry.1 ∈ names.splitOn nul) :
    (∀ entry ∈ config, ∀ section_ driver, NamesDriver entry.1 section_ driver →
      (∀ name ∈ guardedNames section_,
        effectiveValue (guarded config overrides) ⟨section_, some driver, some name⟩ =
          some (some (harmlessValue section_ name))) ∧
      effectiveValue (guarded config overrides) (configKey entry.1) ∈
        (guardedNames section_).map fun name => some (some (harmlessValue section_ name))) ∧
    effectiveValue (guarded config overrides) (configKey "core.hooksPath".toList) =
      some (some noHooks) ∧
    (overrides.map fun override => configKey override.1).Nodup ∧
    (∀ otherNames : Text,
      (∀ name, name ∈ otherNames.splitOn nul ↔ name ∈ names.splitOn nul) →
      ∃ others, guardOverrides debug otherNames = .ok others ∧ others.Perm overrides ∧
        ∀ key, effectiveValue (guarded config others) key =
          effectiveValue (guarded config overrides) key) ∧
    guardHolds debug (listing (guarded config overrides)) overrides = .ok () := by
  have guards := guards_of_foldlM passes
  refine ⟨?_, ?_, ?_, ?_, guardHolds_guarded guards debug config⟩
  · intro entry member section_ driver named
    have isGoneThrough := mem_namesOf (listed entry member) named
    obtain ⟨key, isKey, isDriverKey⟩ := named
    obtain ⟨isSection, isName⟩ := section_of_driverKeys isDriverKey
    have each : ∀ name ∈ guardedNames section_,
        effectiveValue (guarded config overrides) ⟨section_, some driver, some name⟩ =
          some (some (harmlessValue section_ name)) := by
      intro name isGuarded
      have overridden : (dotted section_ driver name, harmlessValue section_ name) ∈ overrides := by
        refine (guards.exact_ _).mpr (Or.inr ⟨entry.1, isGoneThrough, section_, driver,
          ⟨key, isKey, isDriverKey⟩, ?_⟩)
        rw [harmless_eq isSection]
        exact List.mem_map.mpr ⟨name, isGuarded, rfl⟩
      have reads := effectiveValue_guarded guards config overridden
      rwa [(configKey_dotted driver isSection isGuarded).1] at reads
    refine ⟨each, List.mem_map.mpr ⟨key, isName, ?_⟩⟩
    rw [isKey]
    exact (each key isName).symm
  · have isOff : hooksOff ∈ overrides := (guards.exact_ _).mpr (Or.inl rfl)
    exact effectiveValue_guarded guards config isOff
  · refine (List.nodup_map_iff_inj_on guards.distinct).mpr fun first isFirst second isSecond same => ?_
    exact (guards.known first isFirst).eq_of_configKey (guards.known second isSecond) same
  · intro otherNames sameNames
    have sameMembers : ∀ name, name ∈ namesOf otherNames ↔ name ∈ namesOf names := by
      intro name
      simp only [namesOf, List.mem_filter, List.mem_map, sameNames]
    obtain ⟨others, otherPasses⟩ := foldlM_ok_of_nameable
      (fun name member => guards.nameable name ((sameMembers name).mp member)) [hooksOff]
    have otherGuards : Guards (namesOf otherNames) others :=
      guards_of_foldlM otherPasses
    have sameOverrides : ∀ override, override ∈ others ↔ override ∈ overrides := by
      intro override
      rw [guards.exact_, otherGuards.exact_]
      simp only [Overridden, sameMembers]
    have permuted : others.Perm overrides :=
      (List.perm_ext_iff_of_nodup otherGuards.distinct guards.distinct).mpr sameOverrides
    refine ⟨others, otherPasses, permuted, fun key => ?_⟩
    by_cases held : ∃ override ∈ overrides, configKey override.1 = key
    · obtain ⟨override, member, rfl⟩ := held
      rw [effectiveValue_guarded guards config member,
        effectiveValue_guarded otherGuards config ((sameOverrides override).mpr member)]
    · have absent : ∀ override ∈ overrides, configKey override.1 ≠ key :=
        fun override member same => held ⟨override, member, same⟩
      rw [effectiveValue_of_not_overridden config absent, effectiveValue_of_not_overridden config
        fun override member => absent override ((sameOverrides override).mp member)]

/-- The guard of a configuration whose filter and diff are named by one key each, in any case. -/
theorem guardOverrides_harmless_mixed :
    effectiveValue (guarded [("filter.lfs.process".toList, some "git-lfs".toList),
        ("Diff.Mixed.Case.Command".toList, none)] [hooksOff,
          ("filter.lfs.clean".toList, []), ("filter.lfs.smudge".toList, []),
          ("filter.lfs.process".toList, []), ("filter.lfs.required".toList, "false".toList),
          ("diff.Mixed.Case.textconv".toList, "cat".toList),
          ("diff.Mixed.Case.command".toList, plainExternalDiff)])
      (configKey "core.hooksPath".toList) = some (some noHooks) := by
  refine (guardOverrides_harmless id
    "filter.lfs.process\x00Diff.Mixed.Case.Command\x00".toList _ (by decide +kernel) _ ?_).2.1
  decide +kernel

end Dagq.Clone
