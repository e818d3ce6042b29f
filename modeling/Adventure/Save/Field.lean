import Adventure.Save.MessagePack
/-! Typed views of MessagePack values. A record is a map from the names of its fields; it is also read
from maps that name fields by number, and from arrays. Where an array is read, binary data stands for the
array of its bytes. -/
namespace Adventure.MessagePack.Value

def ofText (s : String) : Value :=
  .text (Text.encode s)

def ofNat (n : Nat) : Value :=
  .unsigned n.toUInt64

def ofOption {α : Type} (f : α → Value) : Option α → Value
  | none => .nil
  | some a => f a

def ofList {α : Type} (f : α → Value) (as : List α) : Value :=
  .array (as.map f)

def record (fields : List (String × Value)) : Value :=
  .map (fields.map fun (name, v) => (ofText name, v))

/-- An integer of either class from 0 to `max`. -/
def toNat? (max : Nat) : Value → Option Nat
  | .unsigned n => if n.toNat ≤ max then some n.toNat else none
  | .signed n => if 0 ≤ n.toInt ∧ n.toInt ≤ max then some n.toInt.toNat else none
  | _ => none

def toUInt8? (v : Value) : Option UInt8 :=
  (v.toNat? (UInt8.size - 1)).map Nat.toUInt8

def toUInt16? (v : Value) : Option UInt16 :=
  (v.toNat? (UInt16.size - 1)).map Nat.toUInt16

def toUInt32? (v : Value) : Option UInt32 :=
  (v.toNat? (UInt32.size - 1)).map Nat.toUInt32

def toUInt64? (v : Value) : Option UInt64 :=
  (v.toNat? (UInt64.size - 1)).map Nat.toUInt64

def toBool? : Value → Option Bool
  | .bool b => some b
  | _ => none

def toText? : Value → Option String
  | .text bytes => Text.decode? bytes
  | .binary bytes => Text.decode? bytes
  | _ => none

def toOption? {α : Type} (f : Value → Option α) : Value → Option (Option α)
  | .nil => some none
  | v => (f v).map some

/-- The bytes of binary data as values. -/
def ofBytes (bytes : Bytes) : List Value :=
  bytes.map fun b => .unsigned b.toUInt64

/-- The items of a list. -/
def items? : Value → Option (List Value)
  | .array items => some items
  | .binary bytes => some (ofBytes bytes)
  | _ => none

/-- A row of `count` values. An array has just that many; binary data may go on after them. -/
def row? (count : Nat) : Value → Option (List Value)
  | .array items => if items.length = count then some items else none
  | .binary bytes => if count ≤ bytes.length then some (ofBytes (bytes.take count)) else none
  | _ => none

def toList? {α : Type} (f : Value → Option α) (v : Value) : Option (List α) := do
  (← v.items?).mapM f

def toPair? {α β : Type} (f : Value → Option α) (g : Value → Option β) (v : Value) :
    Option (α × β) := do
  match ← v.row? 2 with
  | [a, b] => return (← f a, ← g b)
  | _ => none

/-- What a key of a map means to a record. -/
inductive Key where
  | field (index : Nat)
  | unknown
  | malformed

def key (names : List String) : Value → Key
  | .text bytes => named bytes
  | .binary bytes => named bytes
  | .unsigned n => if n.toNat < names.length then .field n.toNat else .unknown
  | _ => .malformed
where
  named (bytes : Bytes) : Key :=
    match names.findIdx? fun name => Text.encode name == bytes with
    | some index => .field index
    | none => .unknown

/-- Puts the entries of a map in the places of the fields. A field may come once. -/
def placeEntries (names : List String) :
    List (Option Value) → List (Value × Value) → Option (List (Option Value))
  | fields, [] => some fields
  | fields, (k, v) :: entries =>
    match key names k with
    | .malformed => none
    | .unknown => placeEntries names fields entries
    | .field index =>
      match fields[index]? with
      | some none => placeEntries names (fields.set index (some v)) entries
      | _ => none

/-- The fields of a record in the order of the names. -/
def fields? (names : List String) : Value → Option (List (Option Value))
  | .map entries => placeEntries names (names.map fun _ => none) entries
  | v => (v.row? names.length).map fun items => items.map some

end Adventure.MessagePack.Value
