import Adventure.Text.Utf8
/-! MessagePack values and their bytes. Everything is written in its shortest form; every form is
read. -/
namespace Adventure.MessagePack

abbrev Bytes := List UInt8

/-- Texts are kept as bytes, for a record may hold one that is not UTF-8. Integers keep the class they
were written in. -/
inductive Value where
  | nil
  | bool (b : Bool)
  | unsigned (n : UInt64)
  | signed (n : Int64)
  | float32 (bits : UInt32)
  | float64 (bits : UInt64)
  | text (bytes : Bytes)
  | binary (bytes : Bytes)
  | array (items : List Value)
  | map (entries : List (Value × Value))
  | extension (tag : UInt8) (data : Bytes)
  deriving Repr

/-- How many numbers `width` bytes can hold. -/
def span : Nat → Nat
  | 0 => 1
  | width + 1 => 256 * span width

/-- A number in `width` bytes, the greatest one first. -/
def bigEndian : Nat → Nat → Bytes
  | 0, _ => []
  | width + 1, n => (n / span width % 256).toUInt8 :: bigEndian width n

def ofBigEndian (bytes : Bytes) : Nat :=
  bytes.foldl (fun n b => n * 256 + b.toNat) 0

/-! ### Writing -/

def encodeUnsigned (n : Nat) : Bytes :=
  if n < 0x80 then [n.toUInt8]
  else if n < 0x100 then 0xCC :: bigEndian 1 n
  else if n < 0x10000 then 0xCD :: bigEndian 2 n
  else if n < 0x100000000 then 0xCE :: bigEndian 4 n
  else 0xCF :: bigEndian 8 n

def twosComplement (width : Nat) (n : Int) : Nat :=
  (n % (span width : Int)).toNat

def encodeSigned (n : Int) : Bytes :=
  if -32 ≤ n ∧ n < 0 then bigEndian 1 (twosComplement 1 n)
  else if -0x80 ≤ n ∧ n < 0x80 then 0xD0 :: bigEndian 1 (twosComplement 1 n)
  else if -0x8000 ≤ n ∧ n < 0x8000 then 0xD1 :: bigEndian 2 (twosComplement 2 n)
  else if -0x80000000 ≤ n ∧ n < 0x80000000 then 0xD2 :: bigEndian 4 (twosComplement 4 n)
  else 0xD3 :: bigEndian 8 (twosComplement 8 n)

def textHead (length : Nat) : Bytes :=
  if length < 32 then [(0xA0 + length).toUInt8]
  else if length < 0x100 then 0xD9 :: bigEndian 1 length
  else if length < 0x10000 then 0xDA :: bigEndian 2 length
  else 0xDB :: bigEndian 4 length

def binaryHead (length : Nat) : Bytes :=
  if length < 0x100 then 0xC4 :: bigEndian 1 length
  else if length < 0x10000 then 0xC5 :: bigEndian 2 length
  else 0xC6 :: bigEndian 4 length

def arrayHead (length : Nat) : Bytes :=
  if length < 16 then [(0x90 + length).toUInt8]
  else if length < 0x10000 then 0xDC :: bigEndian 2 length
  else 0xDD :: bigEndian 4 length

def mapHead (length : Nat) : Bytes :=
  if length < 16 then [(0x80 + length).toUInt8]
  else if length < 0x10000 then 0xDE :: bigEndian 2 length
  else 0xDF :: bigEndian 4 length

def extensionHead (length : Nat) : Bytes :=
  if length = 1 then [0xD4]
  else if length = 2 then [0xD5]
  else if length = 4 then [0xD6]
  else if length = 8 then [0xD7]
  else if length = 16 then [0xD8]
  else if length < 0x100 then 0xC7 :: bigEndian 1 length
  else if length < 0x10000 then 0xC8 :: bigEndian 2 length
  else 0xC9 :: bigEndian 4 length

mutual

def Value.encode : Value → Bytes
  | .nil => [0xC0]
  | .bool false => [0xC2]
  | .bool true => [0xC3]
  | .unsigned n => encodeUnsigned n.toNat
  | .signed n => encodeSigned n.toInt
  | .float32 bits => 0xCA :: bigEndian 4 bits.toNat
  | .float64 bits => 0xCB :: bigEndian 8 bits.toNat
  | .text bytes => textHead bytes.length ++ bytes
  | .binary bytes => binaryHead bytes.length ++ bytes
  | .array items => arrayHead items.length ++ encodeItems items
  | .map entries => mapHead entries.length ++ encodeEntries entries
  | .extension tag data => extensionHead data.length ++ tag :: data

def encodeItems : List Value → Bytes
  | [] => []
  | v :: vs => v.encode ++ encodeItems vs

def encodeEntries : List (Value × Value) → Bytes
  | [] => []
  | (k, v) :: es => k.encode ++ v.encode ++ encodeEntries es

end

/-! ### Reading -/

def takeBytes? : Nat → Bytes → Option (Bytes × Bytes)
  | 0, bs => some ([], bs)
  | _ + 1, [] => none
  | n + 1, b :: bs => (takeBytes? n bs).map fun (taken, rest) => (b :: taken, rest)

def takeNumber? (width : Nat) (bs : Bytes) : Option (Nat × Bytes) :=
  (takeBytes? width bs).map fun (taken, rest) => (ofBigEndian taken, rest)

def ofTwosComplement (width n : Nat) : Int :=
  if 2 * n < span width then n else n - span width

/-- What the first bytes of a value announce. -/
inductive Head where
  | whole (v : Value)
  | text (length : Nat)
  | binary (length : Nat)
  | array (length : Nat)
  | map (length : Nat)
  | extension (length : Nat)

/-- A head whose number takes `width` bytes. -/
def numbered (width : Nat) (bs : Bytes) (head : Nat → Head) : Option (Head × Bytes) :=
  (takeNumber? width bs).map fun (n, rest) => (head n, rest)

def signedHead (width n : Nat) : Head :=
  .whole (.signed (Int64.ofInt (ofTwosComplement width n)))

def readHead : Bytes → Option (Head × Bytes)
  | [] => none
  | b :: bs =>
    let n := b.toNat
    if n < 0x80 then some (.whole (.unsigned n.toUInt64), bs)
    else if n < 0x90 then some (.map (n - 0x80), bs)
    else if n < 0xA0 then some (.array (n - 0x90), bs)
    else if n < 0xC0 then some (.text (n - 0xA0), bs)
    else if 0xE0 ≤ n then some (signedHead 1 n, bs)
    else match n with
      | 0xC0 => some (.whole .nil, bs)
      | 0xC2 => some (.whole (.bool false), bs)
      | 0xC3 => some (.whole (.bool true), bs)
      | 0xC4 => numbered 1 bs .binary
      | 0xC5 => numbered 2 bs .binary
      | 0xC6 => numbered 4 bs .binary
      | 0xC7 => numbered 1 bs .extension
      | 0xC8 => numbered 2 bs .extension
      | 0xC9 => numbered 4 bs .extension
      | 0xCA => numbered 4 bs fun n => .whole (.float32 n.toUInt32)
      | 0xCB => numbered 8 bs fun n => .whole (.float64 n.toUInt64)
      | 0xCC => numbered 1 bs fun n => .whole (.unsigned n.toUInt64)
      | 0xCD => numbered 2 bs fun n => .whole (.unsigned n.toUInt64)
      | 0xCE => numbered 4 bs fun n => .whole (.unsigned n.toUInt64)
      | 0xCF => numbered 8 bs fun n => .whole (.unsigned n.toUInt64)
      | 0xD0 => numbered 1 bs (signedHead 1)
      | 0xD1 => numbered 2 bs (signedHead 2)
      | 0xD2 => numbered 4 bs (signedHead 4)
      | 0xD3 => numbered 8 bs (signedHead 8)
      | 0xD4 => some (.extension 1, bs)
      | 0xD5 => some (.extension 2, bs)
      | 0xD6 => some (.extension 4, bs)
      | 0xD7 => some (.extension 8, bs)
      | 0xD8 => some (.extension 16, bs)
      | 0xD9 => numbered 1 bs .text
      | 0xDA => numbered 2 bs .text
      | 0xDB => numbered 4 bs .text
      | 0xDC => numbered 2 bs .array
      | 0xDD => numbered 4 bs .array
      | 0xDE => numbered 2 bs .map
      | 0xDF => numbered 4 bs .map
      | _ => none

abbrev ValueReader := Bytes → Option (Value × Bytes)

def readItems (read : ValueReader) : Nat → Bytes → Option (List Value × Bytes)
  | 0, bs => some ([], bs)
  | n + 1, bs => do
    let (v, bs) ← read bs
    let (vs, bs) ← readItems read n bs
    return (v :: vs, bs)

def readEntries (read : ValueReader) : Nat → Bytes → Option (List (Value × Value) × Bytes)
  | 0, bs => some ([], bs)
  | n + 1, bs => do
    let (k, bs) ← read bs
    let (v, bs) ← read bs
    let (es, bs) ← readEntries read n bs
    return ((k, v) :: es, bs)

def readExtension (length : Nat) (bs : Bytes) : Option (Value × Bytes) := do
  let (tag, bs) ← takeNumber? 1 bs
  let (data, bs) ← takeBytes? length bs
  return (.extension tag.toUInt8 data, bs)

/-- Reads a value whose parts lie less than `depth` levels deep. -/
def readValue : Nat → ValueReader
  | 0, _ => none
  | depth + 1, bs => do
    let (head, bs) ← readHead bs
    match head with
    | .whole v => return (v, bs)
    | .text length => do
      let (bytes, bs) ← takeBytes? length bs
      return (.text bytes, bs)
    | .binary length => do
      let (bytes, bs) ← takeBytes? length bs
      return (.binary bytes, bs)
    | .array length =>
      if depth = 0 then none
      else do
        let (items, bs) ← readItems (readValue depth) length bs
        return (.array items, bs)
    | .map length =>
      if depth = 0 then none
      else do
        let (entries, bs) ← readEntries (readValue depth) length bs
        return (.map entries, bs)
    | .extension length => if depth = 0 then none else readExtension length bs

def maxDepth : Nat := 1024

/-- Reads the first value of some bytes. What comes after it is ignored. -/
def decode? (bytes : Bytes) : Option Value :=
  (readValue maxDepth bytes).map Prod.fst

end Adventure.MessagePack
