/-! Reading bytes as UTF-8 text. Bytes that are not part of a character are replaced: each maximal
part of a broken character becomes one U+FFFD. -/
namespace Adventure.Text

def replacement : Char := Char.ofNat 0xFFFD

/-- A character begun but not finished: its bits so far, how many bytes are owed, and the range of
the next one. -/
structure Pending where
  bits : Nat
  owed : Nat
  least : UInt8
  greatest : UInt8
  deriving DecidableEq, Repr

/-- What a byte between characters means. -/
inductive Lead where
  | whole (c : Char)
  | start (p : Pending)
  | broken

def lead (b : UInt8) : Lead :=
  if b < 0x80 then .whole (Char.ofNat b.toNat)
  else if b < 0xC2 then .broken
  else if b < 0xE0 then .start ⟨b.toNat - 0xC0, 1, 0x80, 0xBF⟩
  else if b < 0xF0 then
    .start ⟨b.toNat - 0xE0, 2, if b == 0xE0 then 0xA0 else 0x80, if b == 0xED then 0x9F else 0xBF⟩
  else if b < 0xF5 then
    .start ⟨b.toNat - 0xF0, 3, if b == 0xF0 then 0x90 else 0x80, if b == 0xF4 then 0x8F else 0xBF⟩
  else .broken

/-- Takes a byte between characters. -/
def beginChar (b : UInt8) : List Char × Option Pending :=
  match lead b with
  | .whole c => ([c], none)
  | .start p => ([], some p)
  | .broken => ([replacement], none)

/-- Takes a byte; a byte that does not continue the pending character breaks it and stands anew. -/
def feed : Option Pending → UInt8 → List Char × Option Pending
  | none, b => beginChar b
  | some p, b =>
    if p.least ≤ b && b ≤ p.greatest then
      let bits := p.bits * 64 + (b.toNat - 0x80)
      if p.owed ≤ 1 then ([Char.ofNat bits], none) else ([], some ⟨bits, p.owed - 1, 0x80, 0xBF⟩)
    else
      let (cs, next) := beginChar b
      (replacement :: cs, next)

def decodeFrom : Option Pending → List UInt8 → List Char
  | none, [] => []
  | some _, [] => [replacement]
  | state, b :: bs =>
    let (cs, next) := feed state b
    cs ++ decodeFrom next bs

def decodeLossy (bytes : List UInt8) : String :=
  String.ofList (decodeFrom none bytes)

/-- Bytes that are well formed throughout. -/
def decode? (bytes : List UInt8) : Option String :=
  String.fromUTF8? ⟨bytes.toArray⟩

def encode (s : String) : List UInt8 :=
  s.toUTF8.data.toList

end Adventure.Text
