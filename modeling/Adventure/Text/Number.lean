/-! Reading decimal integers of bounded size. The digits are taken one by one, so a number that has
already grown too large is refused before a later bad digit is seen. -/
namespace Adventure.Text

inductive NumberError where
  | empty
  | invalidDigit
  | tooLarge
  | tooSmall
  deriving DecidableEq, Repr

def NumberError.message : NumberError → String
  | .empty => "cannot parse integer from empty string"
  | .invalidDigit => "invalid digit found in string"
  | .tooLarge => "number too large to fit in target type"
  | .tooSmall => "number too small to fit in target type"

/-- The value of an ASCII digit. -/
def digit? (c : Char) : Option Nat :=
  if c.isDigit then some (c.toNat - '0'.toNat) else none

/-- Continues the number `value` with digits, up to `limit`; `overflow` is the complaint beyond it. -/
def readDigits (limit : Nat) (overflow : NumberError) : Nat → List Char → Except NumberError Nat
  | value, [] => .ok value
  | value, c :: cs =>
    match digit? c with
    | none => .error .invalidDigit
    | some d =>
      if value * 10 + d ≤ limit then readDigits limit overflow (value * 10 + d) cs
      else .error overflow

/-- A nonempty run of digits. -/
def readMagnitude (limit : Nat) (overflow : NumberError) : List Char → Except NumberError Nat
  | [] => .error .invalidDigit
  | cs => readDigits limit overflow 0 cs

/-- A natural number up to `limit`, with an optional `+`. -/
def readNat (limit : Nat) (s : String) : Except NumberError Nat :=
  match s.toList with
  | [] => .error .empty
  | '+' :: cs => readMagnitude limit .tooLarge cs
  | cs => readMagnitude limit .tooLarge cs

/-- An integer from `-half` to `half - 1`, with an optional sign. -/
def readInt (half : Nat) (s : String) : Except NumberError Int :=
  match s.toList with
  | [] => .error .empty
  | '+' :: cs => (readMagnitude (half - 1) .tooLarge cs).map Int.ofNat
  | '-' :: cs => (readMagnitude half .tooSmall cs).map fun n => -Int.ofNat n
  | cs => (readMagnitude (half - 1) .tooLarge cs).map Int.ofNat

def readUInt8 (s : String) : Except NumberError UInt8 :=
  (readNat (UInt8.size - 1) s).map Nat.toUInt8

def readUInt16 (s : String) : Except NumberError UInt16 :=
  (readNat (UInt16.size - 1) s).map Nat.toUInt16

def readUInt32 (s : String) : Except NumberError UInt32 :=
  (readNat (UInt32.size - 1) s).map Nat.toUInt32

def readUInt64 (s : String) : Except NumberError UInt64 :=
  (readNat (UInt64.size - 1) s).map Nat.toUInt64

def readInt32 (s : String) : Except NumberError Int32 :=
  (readInt 0x80000000 s).map Int32.ofInt

/-- An integer that 64 bits can hold. -/
def readWide (s : String) : Except NumberError Int :=
  readInt 0x8000000000000000 s

end Adventure.Text
