import Adventure.Random.Stream
/-! Fair rolls of a die. A word is accepted if it lies in the part of the range that the die divides
evenly, so that every face has the same number of words. -/
namespace Adventure.Random

/-- The words of a stream before its counter comes round. -/
def period : Nat := 16 * UInt64.size

/-- The greatest low half of a product that still counts. -/
def zone (faces : UInt8) : Nat :=
  UInt32.size - 1 - (UInt32.size - faces.toNat) % faces.toNat

/-- Draws until a word is accepted, at most `tries` times. -/
def rollWithin (faces : UInt8) : Nat → Stream → UInt8 × Stream
  | 0, s => (1, s)
  | tries + 1, s =>
    let (word, s) := s.next
    let product := word.toNat * faces.toNat
    if product % UInt32.size ≤ zone faces then ((1 + product / UInt32.size).toUInt8, s)
    else rollWithin faces tries s

/-- A value from 1 to `faces`. -/
def roll (faces : UInt8) (s : Stream) : UInt8 × Stream :=
  rollWithin faces period s

end Adventure.Random
