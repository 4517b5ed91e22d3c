/-
This file checks that the guard of the control side's git holds: each override is the
last value of its key in the configuration git reads with the overrides in place. A key
of git is its section and its last part without case, and its subsection as it is. The
check takes more for a key: a text that is the same without case has a subsection that
may differ in case, and an empty subsection is taken for none. So an entry of another
key that comes last masks the key's own.
-/

import Dagq.Ledger.Time
import Dagq.Lib.Last

namespace Dagq.Clone

open Dagq.Lib
open Ledger (splitOnce splitOnce_eq_some_iff)

/-- A text as the list of its characters. -/
abbrev Text := List Char

def nul : Char := '\x00'

/-! ### Texts split at a character -/

/-- The text before and after the last of a separator. -/
def rsplitOnce (separator : Char → Bool) (text : Text) : Option (Text × Text) :=
  (splitOnce separator text.reverse).map fun parts => (parts.2.reverse, parts.1.reverse)

def asciiLower (text : Text) : Text := text.map Char.toLower

theorem rsplitOnce_eq_some_iff {separator : Char → Bool} {text first second : Text} :
    rsplitOnce separator text = some (first, second) ↔
      ∃ char, separator char = true ∧ (∀ other ∈ second, separator other = false) ∧
        text = first ++ char :: second := by
  rw [rsplitOnce, Option.map_eq_some_iff]
  constructor
  · rintro ⟨⟨after, before⟩, found, same⟩
    obtain ⟨rfl, rfl⟩ := Prod.mk.inj same
    obtain ⟨char, isSeparator, none_, isCut⟩ := splitOnce_eq_some_iff.mp found
    refine ⟨char, isSeparator, fun other member => none_ other (List.mem_reverse.mp member), ?_⟩
    simpa using congrArg List.reverse isCut
  · rintro ⟨char, isSeparator, none_, rfl⟩
    refine ⟨(second.reverse, first.reverse), splitOnce_eq_some_iff.mpr ⟨char, isSeparator,
      fun other member => none_ other (List.mem_reverse.mp member), by simp⟩, by simp⟩

/-! ### Keys -/

/-- A key as git compares it. -/
structure ConfigKey where
  section_ : Text
  subsection : Option Text
  name : Option Text
deriving DecidableEq

/-- The key that a text names: the section and the last part without case, the subsection between
them as it is. -/
def configKey (text : Text) : ConfigKey :=
  match splitOnce (· == '.') text with
  | none => ⟨asciiLower text, none, none⟩
  | some (section_, rest) =>
    match rsplitOnce (· == '.') rest with
    | none => ⟨asciiLower section_, none, some (asciiLower rest)⟩
    | some (subsection, name) => ⟨asciiLower section_, some subsection, some (asciiLower name)⟩

/-- The three parts of a key that are compared, for a text with a dot. -/
def keyParts (key : Text) : Option (Text × Text × Text) :=
  (splitOnce (· == '.') key).map fun (section_, rest) =>
    let (sub, name) := (rsplitOnce (· == '.') rest).getD ([], rest)
    (asciiLower section_, sub, asciiLower name)

/-- Whether two config keys name the same key. -/
def sameKey (first second : Text) : Bool :=
  match keyParts first with
  | none => false
  | some parts => keyParts second = some parts

/-- What the check takes for an entry of the key. -/
def takesKey (key name : Text) : Bool :=
  asciiLower name = asciiLower key || sameKey name key

/-- The check takes every entry of the key for one. -/
theorem takesKey_of_configKey {key name : Text} (same : configKey name = configKey key) :
    takesKey key name = true := by
  have compares : ∀ text, (splitOnce (· == '.') text = none ∧
        configKey text = ⟨asciiLower text, none, none⟩) ∨
      ∃ section_ sub named subsection, keyParts text = some (section_, sub, named) ∧
        configKey text = ⟨section_, subsection, some named⟩ ∧ subsection.getD [] = sub := by
    intro text
    rw [configKey, keyParts]
    cases splits : splitOnce (· == '.') text with
    | none => exact Or.inl ⟨rfl, rfl⟩
    | some parts =>
      obtain ⟨section_, rest⟩ := parts
      refine Or.inr ?_
      cases again : rsplitOnce (· == '.') rest with
      | none =>
        exact ⟨asciiLower section_, [], asciiLower rest, none, by simp [again], by simp [again], rfl⟩
      | some both =>
        exact ⟨asciiLower section_, both.1, asciiLower both.2, some both.1, by simp [again],
          by simp [again], rfl⟩
  rw [takesKey, Bool.or_eq_true, decide_eq_true_eq]
  rcases compares name with ⟨_, nameKey⟩ | ⟨section_, sub, named, subsection, parts, nameKey, isSub⟩
  · rcases compares key with ⟨_, keyKey⟩ | ⟨_, _, _, _, _, keyKey, _⟩
    · rw [nameKey, keyKey] at same
      exact Or.inl (ConfigKey.mk.inj same).1
    · rw [nameKey, keyKey] at same
      cases (ConfigKey.mk.inj same).2.2
  · rcases compares key with ⟨_, keyKey⟩ | ⟨_, _, _, _, otherParts, keyKey, isOther⟩
    · rw [nameKey, keyKey] at same
      cases (ConfigKey.mk.inj same).2.2
    · rw [nameKey, keyKey] at same
      obtain ⟨sameSection, sameSub, sameName⟩ := ConfigKey.mk.inj same
      refine Or.inr ?_
      rw [sameKey, parts, otherParts, ← isSub, ← isOther, sameSection, sameSub,
        Option.some.inj sameName]
      exact decide_eq_true rfl

/-! ### The check -/

/-- The entries of a listing, each its key and its value. -/
def entries (effective : Text) : List (Text × Text) :=
  (effective.splitOn nul).map fun entry => (splitOnce (· == '\n') entry).getD (entry, [])

/-- The value of the last entry that a test takes by its key. -/
def lastValue {Value : Type} (takes : Text → Bool) (listed : List (Text × Value)) : Option Value :=
  (lastMatch (fun entry => takes entry.1) listed).map Prod.snd

/-- Whether every override is the last value of its key, or the key that is not. -/
def guardHolds (debug : Text → Text) (effective : Text) :
    List (Text × Text) → Except Text Unit
  | [] => .ok ()
  | (key, value) :: overrides =>
    let last := lastValue (takesKey key) (entries effective)
    if last ≠ some value then
      .error (key ++ " is ".toList ++ last.elim "unset".toList debug ++
        " with the guard in place, not ".toList ++ debug value)
    else guardHolds debug effective overrides

theorem guardHolds_eq_ok_iff (debug : Text → Text) (effective : Text)
    (overrides : List (Text × Text)) :
    guardHolds debug effective overrides = .ok () ↔ ∀ override ∈ overrides,
      lastValue (takesKey override.1) (entries effective) = some override.2 := by
  induction overrides with
  | nil => simp [guardHolds]
  | cons override rest inductionHypothesis =>
    rw [guardHolds, List.forall_mem_cons]
    by_cases holds : lastValue (takesKey override.1) (entries effective) = some override.2
    · simp only [holds, ne_eq, not_true_eq_false, if_false, true_and]
      exact inductionHypothesis
    · simp [holds]

/-- The override is in force: the last entry of its key has its value. -/
def InForce (effective : Text) (override : Text × Text) : Prop :=
  lastValue (fun name => configKey name = configKey override.1) (entries effective) =
    some override.2

/-- An entry of another key, with this value, that the check takes for the override's comes after
all it takes for it. -/
def MaskedBy (effective : Text) (override : Text × Text) (value : Text) : Prop :=
  ∃ before name after, entries effective = before ++ (name, value) :: after ∧
    takesKey override.1 name = true ∧ configKey name ≠ configKey override.1 ∧
    ∀ entry ∈ after, takesKey override.1 entry.1 = false

/-- What the check reads of a key is what git reads, unless the key is masked. -/
theorem lastValue_takesKey (effective : Text) (override : Text × Text) :
    (lastValue (takesKey override.1) (entries effective) =
        lastValue (fun name => configKey name = configKey override.1) (entries effective) ∧
      ∀ value, ¬ MaskedBy effective override value) ∨
    ∃ value, MaskedBy effective override value ∧
      lastValue (takesKey override.1) (entries effective) = some value := by
  have implies : ∀ entry : Text × Text,
      decide (configKey entry.1 = configKey override.1) = true →
        takesKey override.1 entry.1 = true :=
    fun entry same => takesKey_of_configKey (of_decide_eq_true same)
  have shown : ∀ {value}, MaskedBy effective override value →
      lastValue (takesKey override.1) (entries effective) = some value := by
    rintro value ⟨before, name, after, isCut, taken, _, none_⟩
    rw [lastValue, lastMatch_eq_some_iff.mpr ⟨before, after, isCut, taken, none_⟩]
    rfl
  by_cases masked : ∃ value, MaskedBy effective override value
  · obtain ⟨value, isMasked⟩ := masked
    exact Or.inr ⟨value, isMasked, shown isMasked⟩
  · refine Or.inl ⟨?_, fun value isMasked => masked ⟨value, isMasked⟩⟩
    rcases lastMatch_eq_or implies (entries effective) with same | ⟨⟨name, value⟩, found, other⟩
    · rw [lastValue, lastValue, same]
    · obtain ⟨before, after, isCut, taken, none_⟩ := lastMatch_eq_some_iff.mp found
      exact absurd ⟨value, before, name, after, isCut, taken, of_decide_eq_false other, none_⟩ masked

/-- The check accepts an override that is not in force. -/
def FalselyAccepted (effective : Text) (override : Text × Text) : Prop :=
  ¬ InForce effective override ∧ MaskedBy effective override override.2

/-- The check refuses an override that is in force. -/
def FalselyRefused (effective : Text) (override : Text × Text) : Prop :=
  InForce effective override ∧ ∃ value, value ≠ override.2 ∧ MaskedBy effective override value

/-- The override is not in force, and no entry of another key makes it seem so. -/
def RightlyRefused (effective : Text) (override : Text × Text) : Prop :=
  ¬ InForce effective override ∧ ¬ MaskedBy effective override override.2

/-- The check reads an override's value where it is in force and not masked by another value, or is
masked by its own. -/
theorem shows_iff (effective : Text) (override : Text × Text) :
    lastValue (takesKey override.1) (entries effective) = some override.2 ↔
      (InForce effective override ∧ ¬ FalselyRefused effective override) ∨
        FalselyAccepted effective override := by
  rcases lastValue_takesKey effective override with ⟨same, unmasked⟩ | ⟨value, masked, shown⟩
  · rw [same]
    constructor
    · exact fun inForce => Or.inl ⟨inForce, fun refused => refused.2.elim fun value both =>
        unmasked value both.2⟩
    · rintro (⟨inForce, _⟩ | accepted)
      · exact inForce
      · exact absurd accepted.2 (unmasked _)
  · rw [shown, Option.some.injEq]
    have only : ∀ {other}, MaskedBy effective override other → other = value := by
      rintro other ⟨before, name, after, isCut, taken, _, none_⟩
      rw [lastValue, lastMatch_eq_some_iff.mpr ⟨before, after, isCut, taken, none_⟩] at shown
      exact Option.some.inj shown
    constructor
    · intro isValue
      by_cases inForce : InForce effective override
      · refine Or.inl ⟨inForce, fun refused => ?_⟩
        obtain ⟨other, different, isMasked⟩ := refused.2
        exact different ((only isMasked).trans isValue)
      · exact Or.inr ⟨inForce, isValue ▸ masked⟩
    · rintro (⟨inForce, notRefused⟩ | accepted)
      · by_contra different
        exact notRefused ⟨inForce, value, different, masked⟩
      · exact (only accepted.2).symm

/-- The check says of every list of overrides whether all of them are in force exactly where no
override is falsely accepted or refused, or one is rightly refused anyway, or one is falsely
accepted and one falsely refused, so that the list is refused either way. -/
theorem guardHolds_exact_iff (debug : Text → Text) (effective : Text)
    (overrides : List (Text × Text)) :
    (guardHolds debug effective overrides = .ok () ↔
        ∀ override ∈ overrides, InForce effective override) ↔
      (∀ override ∈ overrides, ¬ FalselyAccepted effective override ∧
          ¬ FalselyRefused effective override) ∨
        (∃ override ∈ overrides, RightlyRefused effective override) ∨
        (∃ override ∈ overrides, FalselyAccepted effective override) ∧
          ∃ override ∈ overrides, FalselyRefused effective override := by
  rw [guardHolds_eq_ok_iff]
  simp only [shows_iff]
  constructor
  · intro agrees
    by_cases rightly : ∃ override ∈ overrides, RightlyRefused effective override
    · exact Or.inr (Or.inl rightly)
    by_cases accepted : ∃ override ∈ overrides, FalselyAccepted effective override
    · by_cases refused : ∃ override ∈ overrides, FalselyRefused effective override
      · exact Or.inr (Or.inr ⟨accepted, refused⟩)
      · -- then the check passes, though the one accepted is not in force
        have all := agrees.mp fun override member => by
          by_cases inForce : InForce effective override
          · exact Or.inl ⟨inForce, fun isRefused => refused ⟨override, member, isRefused⟩⟩
          · refine Or.inr ⟨inForce, ?_⟩
            by_contra unmasked
            exact rightly ⟨override, member, inForce, unmasked⟩
        obtain ⟨override, member, isAccepted⟩ := accepted
        exact absurd (all override member) isAccepted.1
    · by_cases refused : ∃ override ∈ overrides, FalselyRefused effective override
      · -- then all are in force, though the check refuses one
        have all : ∀ override ∈ overrides, InForce effective override := by
          intro override member
          by_contra notInForce
          by_cases masked : MaskedBy effective override override.2
          · exact accepted ⟨override, member, notInForce, masked⟩
          · exact rightly ⟨override, member, notInForce, masked⟩
        obtain ⟨override, member, isRefused⟩ := refused
        rcases agrees.mpr all override member with ⟨_, notRefused⟩ | isAccepted
        · exact absurd isRefused notRefused
        · exact absurd isRefused.1 isAccepted.1
      · exact Or.inl fun override member => ⟨fun isAccepted => accepted ⟨override, member, isAccepted⟩,
          fun isRefused => refused ⟨override, member, isRefused⟩⟩
  · rintro (neither | ⟨override, member, rightly⟩ | ⟨⟨accepted, acceptedIn, isAccepted⟩,
      refused, refusedIn, isRefused⟩)
    · constructor
      · intro shown override member
        rcases shown override member with ⟨inForce, _⟩ | isAccepted
        · exact inForce
        · exact absurd isAccepted (neither override member).1
      · exact fun all override member => Or.inl ⟨all override member, (neither override member).2⟩
    · refine iff_of_false (fun shown => ?_) fun all => rightly.1 (all override member)
      rcases shown override member with ⟨inForce, _⟩ | isAccepted
      · exact rightly.1 inForce
      · exact rightly.2 isAccepted.2
    · refine iff_of_false (fun shown => ?_) fun all => isAccepted.1 (all accepted acceptedIn)
      rcases shown refused refusedIn with ⟨_, notRefused⟩ | alsoAccepted
      · exact notRefused isRefused
      · exact alsoAccepted.1 isRefused.1

/-! ### Two drivers whose names differ in case -/

/-- The guard of a configuration that defines the filters `a` and `A`. -/
def twoFilters : List (Text × Text) :=
  [("core.hooksPath".toList, "/dev/null".toList),
    ("filter.a.clean".toList, []), ("filter.a.smudge".toList, []),
    ("filter.a.process".toList, []), ("filter.a.required".toList, "false".toList),
    ("filter.A.clean".toList, []), ("filter.A.smudge".toList, []),
    ("filter.A.process".toList, []), ("filter.A.required".toList, "false".toList)]

/-- A listing in which the filter `a` still runs a program, and the filter `A` does not. -/
def filterRuns : Text :=
  ("core.hookspath\n/dev/null\x00filter.a.clean\n\x00filter.a.smudge\n\x00filter.a.process\ncat\x00" ++
    "filter.a.required\nfalse\x00filter.A.clean\n\x00filter.A.smudge\n\x00filter.A.process\n\x00" ++
    "filter.A.required\nfalse\x00").toList

/-- The check accepts the guard though the last value of the process of the filter `a` is `cat`. -/
theorem guardHolds_other_case :
    guardHolds id filterRuns twoFilters = .ok () ∧
      lastValue (fun name => configKey name = configKey "filter.a.process".toList)
        (entries filterRuns) = some "cat".toList ∧
      ¬ ∀ override ∈ twoFilters, InForce filterRuns override := by
  have runs : lastValue (fun name => configKey name = configKey "filter.a.process".toList)
      (entries filterRuns) = some "cat".toList := by decide +kernel
  refine ⟨by decide +kernel, runs, fun all => ?_⟩
  have inForce : lastValue (fun name => configKey name = configKey "filter.a.process".toList)
      (entries filterRuns) = some [] := all ("filter.a.process".toList, []) (by decide)
  rw [runs] at inForce
  exact absurd inForce (by decide)

end Dagq.Clone
