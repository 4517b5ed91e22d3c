/-
This file packs the work of a clone in one file and reads it back: the header as one
line of JSON, then the bytes of each part that the header names. The lengths are the
header's, written by the worker's side, so the reader takes each part off what is left,
compares its hash and refuses what is over. What it accepts is the line and the parts
and nothing more; so no other bytes under the same header are read back at all.
-/

import Dagq.Clone.Work
import Mathlib.Data.List.Forall2

namespace Dagq.Clone

abbrev Bytes := List UInt8

def newline : UInt8 := 10

def PartKind.asStr : PartKind → String
  | index => "index"
  | worktree => "worktree"
  | untracked => "untracked"
  | bundle => "bundle"

/-- A part with its size. -/
structure SizedPart extends Part where
  bytes : Nat
  deriving DecidableEq, Repr

/-- The record of `contents` as a part of `kind`. -/
def SizedPart.of (sha256 : Bytes → String) (kind : PartKind) (path : Option String)
    (executable : Bool) (contents : Bytes) : SizedPart where
  kind := kind
  path := path
  executable := executable
  bytes := contents.length
  sha256 := sha256 contents

/-- A header of a packed file: what names its parts, and how it is written and read. -/
structure Packed (Header : Type) where
  parts : Header → List SizedPart
  toVec : Header → Bytes
  fromSlice : Bytes → Except String Header

section Pack

variable {Header : Type} (packed : Packed Header) (sha256 : Bytes → String)

/-- A packed file: the header as one line, then the bytes of each part, one after another. -/
def pack (header : Header) (contents : List Bytes) : Bytes :=
  contents.foldl (· ++ ·) (packed.toVec header ++ [newline])

/-- The contents that the parts name, and the bytes left after them. -/
def takeParts : List SizedPart → Bytes → Except String (List Bytes × Bytes)
  | [], rest => .ok ([], rest)
  | part :: parts, rest =>
    -- a size of 64 bits fits the machine's sizes
    if rest.length < part.bytes then .error ("a " ++ part.kind.asStr ++ " part is cut short")
    else if sha256 (rest.take part.bytes) ≠ part.sha256 then
      .error ("a " ++ part.kind.asStr ++ " part does not read back as written")
    else
      match takeParts parts (rest.drop part.bytes) with
      | .error why => .error why
      | .ok (contents, left) => .ok (rest.take part.bytes :: contents, left)

/-- The header and the parts of a packed file, or why it does not read back as packed. -/
def unpack (bytes : Bytes) : Except String (Header × List Bytes) :=
  match bytes.findIdx? (· = newline) with
  | none => .error "it holds no header"
  | some stop =>
    match packed.fromSlice (bytes.take stop) with
    | .error error => .error ("its header is not valid: " ++ error)
    | .ok header =>
      match takeParts sha256 (packed.parts header) (bytes.drop (stop + 1)) with
      | .error why => .error why
      | .ok (contents, rest) =>
        if rest ≠ [] then .error "it holds more than its header names"
        else .ok (header, contents)

/-! ### The line of the header -/

theorem pack_eq (header : Header) (contents : List Bytes) :
    pack packed header contents = packed.toVec header ++ newline :: contents.flatten := by
  have appends : ∀ start : Bytes, contents.foldl (· ++ ·) start = start ++ contents.flatten := by
    induction contents with
    | nil => exact fun start => (List.append_nil start).symm
    | cons content rest inductionHypothesis =>
      intro start
      rw [List.foldl_cons, inductionHypothesis, List.flatten_cons, List.append_assoc]
  rw [pack, appends, List.append_assoc]
  rfl

/-- The first newline ends the line it follows. -/
theorem findIdx?_line {line : Bytes} (oneLine : newline ∉ line) (rest : Bytes) :
    (line ++ newline :: rest).findIdx? (· = newline) = some line.length := by
  induction line with
  | nil => rfl
  | cons byte line inductionHypothesis =>
    rw [List.mem_cons, not_or] at oneLine
    have different : ¬ byte = newline := fun same => oneLine.1 same.symm
    rw [List.cons_append, List.findIdx?_cons, if_neg (by simpa using different),
      inductionHypothesis oneLine.2]
    rfl

/-- Where there is a newline, the bytes are the line before the first, it, and the rest. -/
theorem line_of_findIdx? {bytes : Bytes} {stop : Nat}
    (found : bytes.findIdx? (· = newline) = some stop) :
    newline ∉ bytes.take stop ∧ bytes = bytes.take stop ++ newline :: bytes.drop (stop + 1) := by
  obtain ⟨inside, isNewline, before⟩ := List.findIdx?_eq_some_iff_getElem.mp found
  constructor
  · intro member
    obtain ⟨position, bound, same⟩ := List.getElem_of_mem member
    rw [List.length_take] at bound
    rw [List.getElem_take] at same
    exact before position (by omega) (by simpa using same)
  · have here : bytes[stop] = newline := by simpa using isNewline
    rw [← here, ← List.drop_eq_getElem_cons inside, List.take_append_drop]

/-- What is before the end of a line and what follows it holds no newline, or goes past the line. -/
theorem cut_at_line {line after shorter rest : Bytes} (oneLine : newline ∉ line)
    (whole : shorter ++ rest = line ++ newline :: after) :
    newline ∉ shorter ∨ ∃ changed, shorter = line ++ newline :: changed := by
  rcases List.append_eq_append_iff.mp whole with ⟨further, isLine, _⟩ | ⟨past, isShorter, isAfter⟩
  · exact Or.inl fun member => oneLine (isLine ▸ List.mem_append_left _ member)
  · cases past with
    | nil => exact Or.inl (by rwa [isShorter, List.append_nil])
    | cons byte changed =>
      obtain ⟨isNewline, _⟩ := List.cons.inj isAfter
      exact Or.inr ⟨changed, by rw [isShorter, isNewline]⟩

/-! ### The parts -/

/-- A content of the size and the hash that the part names. -/
def Matches (part : SizedPart) (content : Bytes) : Prop :=
  content.length = part.bytes ∧ sha256 content = part.sha256

/-- The contents that the parts name are taken off the bytes, which go on after them. -/
theorem takeParts_flatten {parts : List SizedPart} {contents : List Bytes}
    (named : List.Forall₂ (Matches sha256) parts contents) (rest : Bytes) :
    takeParts sha256 parts (contents.flatten ++ rest) = .ok (contents, rest) := by
  induction named with
  | nil => rfl
  | @cons part content parts contents isNamed _ inductionHypothesis =>
    obtain ⟨size, hash⟩ := isNamed
    have taken : (content ++ (contents.flatten ++ rest)).take part.bytes = content := by
      rw [← size, List.take_left]
    have dropped : (content ++ (contents.flatten ++ rest)).drop part.bytes =
        contents.flatten ++ rest := by
      rw [← size, List.drop_left]
    have long : ¬ (content ++ (contents.flatten ++ rest)).length < part.bytes := by
      rw [List.length_append]
      omega
    rw [List.flatten_cons, List.append_assoc, takeParts, if_neg long, taken, dropped,
      if_neg (not_not_intro hash), inductionHypothesis]

/-- What is taken is one content for each part, as it names it, and the bytes are those contents
and the rest. -/
theorem takeParts_ok {parts : List SizedPart} {bytes rest : Bytes} {contents : List Bytes}
    (taken : takeParts sha256 parts bytes = .ok (contents, rest)) :
    List.Forall₂ (Matches sha256) parts contents ∧ bytes = contents.flatten ++ rest := by
  induction parts generalizing bytes contents with
  | nil =>
    cases taken
    exact ⟨.nil, rfl⟩
  | cons part parts inductionHypothesis =>
    rw [takeParts] at taken
    split at taken
    · cases taken
    · next long =>
      split at taken
      · cases taken
      · next same =>
        split at taken
        · cases taken
        · next others left further =>
          cases taken
          obtain ⟨named, isRest⟩ := inductionHypothesis further
          refine ⟨.cons ⟨?_, not_not.mp same⟩ named, ?_⟩
          · rw [List.length_take]
            omega
          · rw [List.flatten_cons, List.append_assoc, ← isRest, List.take_append_drop]

/-- Contents that the same parts name are the same, where no two have one hash. -/
theorem eq_of_matches {sha256 : Bytes → String} (collisionFree : Function.Injective sha256)
    {parts : List SizedPart} {first second : List Bytes}
    (firstNamed : List.Forall₂ (Matches sha256) parts first)
    (secondNamed : List.Forall₂ (Matches sha256) parts second) : first = second := by
  induction firstNamed generalizing second with
  | nil =>
    cases secondNamed
    rfl
  | cons isNamed _ inductionHypothesis =>
    cases secondNamed with
    | cons isOther others =>
      rw [collisionFree (isNamed.2.trans isOther.2.symm), inductionHypothesis others]

/-! ### What is read back -/

/-- What is accepted is a line that reads as the header, and the contents it names, no more. -/
theorem unpack_ok {bytes : Bytes} {header : Header} {contents : List Bytes}
    (reads : unpack packed sha256 bytes = .ok (header, contents)) :
    List.Forall₂ (Matches sha256) (packed.parts header) contents ∧
      ∃ line, newline ∉ line ∧ packed.fromSlice line = .ok header ∧
        bytes = line ++ newline :: contents.flatten := by
  rw [unpack] at reads
  split at reads
  · cases reads
  · next stop found =>
    obtain ⟨oneLine, isCut⟩ := line_of_findIdx? found
    split at reads
    · cases reads
    · next read isHeader =>
      split at reads
      · cases reads
      · next taken rest takes =>
        split at reads
        · cases reads
        · next nothing =>
          cases reads
          obtain ⟨named, isRest⟩ := takeParts_ok sha256 takes
          rw [not_not.mp nothing, List.append_nil] at isRest
          exact ⟨named, bytes.take stop, oneLine, isHeader, by rw [← isRest]; exact isCut⟩

theorem unpack_without_line {bytes : Bytes} (noLine : newline ∉ bytes) :
    unpack packed sha256 bytes = .error "it holds no header" := by
  have absent : bytes.findIdx? (· = newline) = none := by
    rw [List.findIdx?_eq_none_iff]
    intro byte member
    exact decide_eq_false fun same => noLine (same ▸ member)
  rw [unpack, absent]

/-- Under one line, only the contents that its header names are read back. -/
theorem contents_of_unpack {packed : Packed Header} {sha256 : Bytes → String}
    (collisionFree : Function.Injective sha256) {line rest : Bytes} {header : Header}
    {contents : List Bytes} (oneLine : newline ∉ line) (isHeader : packed.fromSlice line = .ok header)
    (named : List.Forall₂ (Matches sha256) (packed.parts header) contents)
    {read : Header × List Bytes} (reads : unpack packed sha256 (line ++ newline :: rest) = .ok read) :
    rest = contents.flatten := by
  obtain ⟨readHeader, readContents⟩ := read
  obtain ⟨readNamed, readLine, readOneLine, readIsHeader, same⟩ := unpack_ok packed sha256 reads
  have found := findIdx?_line oneLine rest
  rw [same, findIdx?_line readOneLine] at found
  obtain ⟨sameLine, sameRest⟩ := List.append_inj same (Option.some.inj found).symm
  have sameHeader : header = readHeader := by
    rw [sameLine, readIsHeader] at isHeader
    exact (Except.ok.inj isHeader).symm
  rw [(List.cons.inj sameRest).2, eq_of_matches collisionFree named (sameHeader ▸ readNamed)]

/-- An encoder that reads back what it wrote, on one line, and a hash without collisions: what is
packed reads back, and neither a shorter file, nor a longer one, nor one with other bytes under the
header does; and what is read back is one content for each part, of the size and the hash it names,
behind a line that reads as the header and before nothing else. -/
theorem unpack_exact (readsBack : ∀ header, packed.fromSlice (packed.toVec header) = .ok header)
    (oneLine : ∀ header, newline ∉ packed.toVec header)
    (collisionFree : Function.Injective sha256) :
    (∀ header contents,
      List.Forall₂ (fun part content => ∃ kind path executable,
        part = SizedPart.of sha256 kind path executable content) (packed.parts header) contents →
      unpack packed sha256 (pack packed header contents) = .ok (header, contents) ∧
      (∀ shorter, shorter <+: pack packed header contents → shorter ≠ pack packed header contents →
        ∃ why, unpack packed sha256 shorter = .error why) ∧
      (∀ more, more ≠ [] →
        ∃ why, unpack packed sha256 (pack packed header contents ++ more) = .error why) ∧
      ∀ changed, changed ≠ contents.flatten →
        ∃ why, unpack packed sha256 (packed.toVec header ++ newline :: changed) = .error why) ∧
    ∀ bytes header contents, unpack packed sha256 bytes = .ok (header, contents) →
      List.Forall₂ (Matches sha256) (packed.parts header) contents ∧
        ∃ line, newline ∉ line ∧ packed.fromSlice line = .ok header ∧
          bytes = line ++ newline :: contents.flatten := by
  refine ⟨fun header contents recorded => ?_, fun bytes header contents reads =>
    unpack_ok packed sha256 reads⟩
  have named : List.Forall₂ (Matches sha256) (packed.parts header) contents := by
    refine recorded.imp ?_
    rintro part content ⟨kind, path, executable, rfl⟩
    exact ⟨rfl, rfl⟩
  have refused : ∀ changed, changed ≠ contents.flatten →
      ∃ why, unpack packed sha256 (packed.toVec header ++ newline :: changed) = .error why := by
    intro changed different
    cases reads : unpack packed sha256 (packed.toVec header ++ newline :: changed) with
    | error why => exact ⟨why, rfl⟩
    | ok read =>
      exact absurd (contents_of_unpack collisionFree (oneLine header) (readsBack header) named
        reads) different
  refine ⟨?_, ?_, ?_, refused⟩
  · have taken := takeParts_flatten sha256 named []
    rw [List.append_nil] at taken
    rw [pack_eq, unpack, findIdx?_line (oneLine header)]
    simp only [List.take_left, readsBack, List.drop_length_add_append, List.drop_one, List.tail_cons,
      taken]
    rfl
  · intro shorter isBefore strict
    obtain ⟨rest, whole⟩ := isBefore
    rw [pack_eq] at whole strict
    rcases cut_at_line (oneLine header) whole with noLine | ⟨changed, isShorter⟩
    · exact ⟨_, unpack_without_line packed sha256 noLine⟩
    · rw [isShorter] at strict ⊢
      exact refused changed fun same => strict (by rw [same])
  · intro more some
    rw [pack_eq, List.append_assoc, List.cons_append]
    refine refused _ fun same => some ?_
    exact List.append_right_eq_self.mp same

end Pack

/-! ### One staged diff -/

/-- The bytes of a text of one byte a character. -/
def asciiBytes (text : String) : Bytes := text.toList.map fun char => char.toNat.toUInt8

def staged : Bytes := asciiBytes "hi"

/-- The character whose number is the byte. -/
def byteChar (byte : UInt8) : Char :=
  ⟨byte.toUInt32, Or.inl (lt_trans byte.toNat_lt (by decide))⟩

/-- The SHA-256 of the staged diff, and apart from it a text of its own for any other bytes. -/
def stagedSha (contents : Bytes) : String :=
  if contents = staged then "8f434346648f6b96df89dda901c5176b10a6d83961dd3c1ac88b59b2dc327aa4"
  else String.ofList ('_' :: contents.map byteChar)

theorem stagedSha_injective : Function.Injective stagedSha := by
  have apart : ∀ contents : Bytes,
      "8f434346648f6b96df89dda901c5176b10a6d83961dd3c1ac88b59b2dc327aa4" ≠
        String.ofList ('_' :: contents.map byteChar) := by
    intro contents same
    have starts := congrArg (fun text => text.toList.head?) same
    simp only [String.toList_ofList, List.head?_cons] at starts
    exact absurd starts (by decide)
  have char : Function.Injective byteChar := fun first second same =>
    UInt8.toUInt32_inj.mp (congrArg Char.val same)
  intro first second same
  unfold stagedSha at same
  split at same
  · next isFirst =>
    split at same
    · next isSecond => exact isFirst.trans isSecond.symm
    · exact absurd same (apart second)
  · split at same
    · exact absurd same.symm (apart first)
    · have chars := String.ofList_injective same
      exact char.list_map (List.cons.inj chars).2

/-- The line of a first turn's work with the staged diff. -/
def stagedLine : Bytes :=
  asciiBytes ("\x7b\"generation\":1,\"head\":\"h\",\"parts\":[\x7b\"kind\":\"index\",\"bytes\":2," ++
    "\"sha256\":\"8f434346648f6b96df89dda901c5176b10a6d83961dd3c1ac88b59b2dc327aa4\"\x7d]\x7d")

/-- The header of that work, the one there is, on this line. -/
def stagedHeader (line : Bytes) : Packed Unit where
  parts := fun _ => [SizedPart.of stagedSha .index none false staged]
  toVec := fun _ => line
  fromSlice := fun read => if read = line then .ok () else .error "expected value"

theorem stagedHeader_readsBack (line : Bytes) (header : Unit) :
    (stagedHeader line).fromSlice ((stagedHeader line).toVec header) = .ok header :=
  if_pos rfl

/-- The packed work of a staged diff reads back, and with a byte changed it does not. -/
theorem unpack_exact_staged :
    unpack (stagedHeader stagedLine) stagedSha
        (pack (stagedHeader stagedLine) () [staged]) = .ok ((), [staged]) ∧
      ∃ why, unpack (stagedHeader stagedLine) stagedSha
        (stagedLine ++ newline :: asciiBytes "ho") = .error why := by
  -- whatever the line is, so that it is not evaluated
  have onLine : ∀ line, newline ∉ line →
      unpack (stagedHeader line) stagedSha (pack (stagedHeader line) () [staged]) =
        .ok ((), [staged]) ∧
      ∃ why, unpack (stagedHeader line) stagedSha (line ++ newline :: asciiBytes "ho") =
        .error why := by
    intro line oneLine
    obtain ⟨reads, _, _, refused⟩ := (unpack_exact (stagedHeader line) stagedSha
      (stagedHeader_readsBack line) (fun _ => oneLine) stagedSha_injective).1 () [staged]
      (.cons ⟨.index, none, false, rfl⟩ .nil)
    exact ⟨reads, refused _ (by decide +kernel)⟩
  exact onLine stagedLine (by decide +kernel)

end Dagq.Clone
