/-
This file pairs the writing of a value as JSON with its reading. A codec carries
that what it writes it reads again, and that it never writes null, so an optional
field is null exactly where it holds nothing. Values of JSON are compared as the
recorders of what changed compare them.
-/

import Dagq.Ledger.Event

namespace Dagq.Ledger

/-! ### Equal values -/

namespace Value

mutual

/-- Whether two values are the same. -/
def same : Value → Value → Bool
  | null, null => true
  | bool first, bool second => first == second
  | int first, int second => first == second
  | real first, real second => first == second
  | text first, text second => first == second
  | list first, list second => sameItems first second
  | object first, object second => sameFields first second
  | _, _ => false

def sameItems : List Value → List Value → Bool
  | [], [] => true
  | first :: firsts, second :: seconds => same first second && sameItems firsts seconds
  | _, _ => false

def sameFields : List (String × Value) → List (String × Value) → Bool
  | [], [] => true
  | (key, first) :: firsts, (other, second) :: seconds =>
    key == other && same first second && sameFields firsts seconds
  | _, _ => false

end

mutual

theorem same_iff : ∀ first second : Value, same first second = true ↔ first = second
  | null, second => by cases second <;> simp [same]
  | bool _, second => by cases second <;> simp [same]
  | int _, second => by cases second <;> simp [same]
  | real _, second => by cases second <;> simp [same]
  | text _, second => by cases second <;> simp [same]
  | list first, second => by cases second <;> simp [same, sameItems_iff first]
  | object first, second => by cases second <;> simp [same, sameFields_iff first]

theorem sameItems_iff : ∀ first second : List Value, sameItems first second = true ↔ first = second
  | [], second => by cases second <;> simp [sameItems]
  | first :: firsts, second => by
    cases second <;> simp [sameItems, same_iff first, sameItems_iff firsts]

theorem sameFields_iff : ∀ first second : List (String × Value),
    sameFields first second = true ↔ first = second
  | [], second => by cases second <;> simp [sameFields]
  | (_, first) :: firsts, second => by
    cases second <;> simp [sameFields, same_iff first, sameFields_iff firsts, Prod.ext_iff]

end

instance : DecidableEq Value := fun first second =>
  decidable_of_iff (same first second = true) (same_iff first second)

@[simp] theorem get_cons (name key : String) (value : Value) (fields : List (String × Value)) :
    (object ((name, value) :: fields)).get key =
      if name = key then some value else (object fields).get key := by
  by_cases same : name = key
  · simp [get, same]
  · simp [get, same]

theorem object_ne_null (fields : List (String × Value)) : object fields ≠ null := nofun

/-- A number that is not negative. -/
def asU64 : Value → Option Nat
  | int value => if 0 ≤ value then some value.toNat else none
  | _ => none

@[simp] theorem asU64_natCast (number : Nat) : asU64 (int number) = some number := by
  simp [asU64]

end Value

/-! ### Codecs -/

/-- How a type is written as JSON and read again. -/
structure Codec (Item : Type) where
  encode : Item → Value
  decode : Value → Option Item
  decode_encode : ∀ item, decode (encode item) = some item
  encode_ne_null : ∀ item, encode item ≠ .null

namespace Codec

variable {Item Other : Type}

attribute [simp] decode_encode encode_ne_null

def text : Codec String := ⟨.text, Value.asStr, fun _ => rfl, nofun⟩

def bool : Codec Bool := ⟨.bool, Value.asBool, fun _ => rfl, nofun⟩

def i64 : Codec Int64 where
  encode number := .int number.toInt
  decode value := value.asI64.map Int64.ofInt
  decode_encode number := by
    have low := number.le_toInt
    have high := number.toInt_lt
    have fits : checked number.toInt = some number.toInt := by
      rw [checked, if_pos]
      unfold i64Min i64Max
      omega
    rw [Value.asI64, fits, Option.map_some, Int64.ofInt_toInt]
  encode_ne_null := nofun

/-- The sizes and the positions of this program, of 64 bits. -/
def usize : Codec UInt64 where
  encode number := .int number.toNat
  decode value := value.asU64.bind fun number =>
    if number < 2 ^ 64 then some (UInt64.ofNat number) else none
  decode_encode number := by
    rw [Value.asU64_natCast, Option.bind_some, if_pos number.toNat_lt, UInt64.ofNat_toNat]
  encode_ne_null := nofun

def pair (first : Codec Item) (second : Codec Other) : Codec (Item × Other) where
  encode item := .list [first.encode item.1, second.encode item.2]
  decode
    | .list [one, two] => do some (← first.decode one, ← second.decode two)
    | _ => none
  decode_encode item := by simp
  encode_ne_null := nofun

def list (codec : Codec Item) : Codec (List Item) where
  encode items := .list (items.map codec.encode)
  decode value := value.asArray.bind fun values => values.mapM codec.decode
  decode_encode items := by
    rw [Value.asArray, Option.bind_some]
    induction items with
    | nil => rfl
    | cons item rest inductionHypothesis => simp [inductionHypothesis]
  encode_ne_null := nofun

/-- An optional field as it is written. -/
def encodeOption (codec : Codec Item) (item : Option Item) : Value :=
  item.elim .null codec.encode

/-- An optional field as it is read: null and a field not there hold nothing. -/
def decodeOption (codec : Codec Item) : Option Value → Option (Option Item)
  | none => some none
  | some .null => some none
  | some value => (codec.decode value).map some

theorem decodeOption_some (codec : Codec Item) {value : Value} (notNull : value ≠ .null) :
    codec.decodeOption (some value) = (codec.decode value).map some := by
  cases value with
  | null => exact absurd rfl notNull
  | _ => rfl

@[simp] theorem decodeOption_encodeOption (codec : Codec Item) (item : Option Item) :
    codec.decodeOption (some (codec.encodeOption item)) = some item := by
  cases item with
  | none => rfl
  | some item =>
    rw [encodeOption, Option.elim_some, codec.decodeOption_some (codec.encode_ne_null item),
      codec.decode_encode, Option.map_some]

/-- A field of an object that is there, read. -/
def field (codec : Codec Item) (value : Value) (key : String) : Option Item :=
  (value.get key).bind codec.decode

/-- A field of an object that may be missing, read. -/
def optional (codec : Codec Item) (value : Value) (key : String) : Option (Option Item) :=
  codec.decodeOption (value.get key)

end Codec

end Dagq.Ledger
