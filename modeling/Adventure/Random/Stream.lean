/-! The stream of random words: ChaCha with twelve rounds, a 64-bit block counter that starts at 0 and a
nonce of zero. A stream is its key and the place of the next word. -/
namespace Adventure.Random

structure Stream where
  /-- Eight words. -/
  key : Array UInt32
  /-- How many words were taken. -/
  taken : Nat
  deriving DecidableEq, Repr

def rotateLeft (x n : UInt32) : UInt32 :=
  (x <<< n) ||| (x >>> (32 - n))

/-- Mixes the words at four places of the block. -/
def quarterRound (s : Array UInt32) (a b c d : Nat) : Array UInt32 :=
  let wa := s.getD a 0
  let wb := s.getD b 0
  let wc := s.getD c 0
  let wd := s.getD d 0
  let wa := wa + wb
  let wd := rotateLeft (wd ^^^ wa) 16
  let wc := wc + wd
  let wb := rotateLeft (wb ^^^ wc) 12
  let wa := wa + wb
  let wd := rotateLeft (wd ^^^ wa) 8
  let wc := wc + wd
  let wb := rotateLeft (wb ^^^ wc) 7
  (((s.setIfInBounds a wa).setIfInBounds b wb).setIfInBounds c wc).setIfInBounds d wd

/-- A round down the columns of the block, then one along its diagonals. -/
def doubleRound (s : Array UInt32) : Array UInt32 :=
  let s := quarterRound s 0 4 8 12
  let s := quarterRound s 1 5 9 13
  let s := quarterRound s 2 6 10 14
  let s := quarterRound s 3 7 11 15
  let s := quarterRound s 0 5 10 15
  let s := quarterRound s 1 6 11 12
  let s := quarterRound s 2 7 8 13
  quarterRound s 3 4 9 14

def initialBlock (key : Array UInt32) (counter : UInt64) : Array UInt32 :=
  (#[0x61707865, 0x3320646e, 0x79622d32, 0x6b206574] : Array UInt32) ++ key ++
    #[counter.toUInt32, (counter >>> 32).toUInt32, 0, 0]

/-- The sixteen words of one block. -/
def block (key : Array UInt32) (counter : UInt64) : Array UInt32 :=
  let start := initialBlock key counter
  start.zipWith (· + ·) (Nat.repeat doubleRound 6 start)

def Stream.word (s : Stream) : UInt32 :=
  (block s.key (s.taken / 16).toUInt64).getD (s.taken % 16) 0

def Stream.next (s : Stream) : UInt32 × Stream :=
  (s.word, { s with taken := s.taken + 1 })

/-- One step of the congruential generator that stretches a seed into a key. -/
def stretch (state : UInt64) : UInt64 :=
  state * 6364136223846793005 + 11634580027462260723

/-- The key word that a stretched state stands for. -/
def keyWord (state : UInt64) : UInt32 :=
  let x := (((state >>> 18) ^^^ state) >>> 27).toUInt32
  let turn := (state >>> 59).toUInt32
  (x >>> turn) ||| (x <<< ((32 - turn) &&& 31))

def keyWords : Nat → UInt64 → List UInt32
  | 0, _ => []
  | n + 1, state => keyWord (stretch state) :: keyWords n (stretch state)

def Stream.ofSeed (seed : UInt64) : Stream :=
  { key := (keyWords 8 seed).toArray, taken := 0 }

end Adventure.Random
