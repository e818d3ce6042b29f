import Adventure.Save.MessagePack
/-! Frames of save records: a header of twelve bytes, then a payload of the length that it declares. -/
namespace Adventure.Save

open MessagePack (Bytes bigEndian ofBigEndian)

inductive RecordKind where
  | session
  | interpreter
  deriving DecidableEq, Repr

namespace RecordKind

def code : RecordKind → UInt16
  | .session => 1
  | .interpreter => 2

def ofCode? (code : UInt16) : Option RecordKind :=
  if code == 1 then some .session
  else if code == 2 then some .interpreter
  else none

def name : RecordKind → String
  | .session => "Session"
  | .interpreter => "Interpreter"

end RecordKind

structure Header where
  version : UInt16
  kind : RecordKind
  /-- The number of bytes in the payload. -/
  length : UInt32
  deriving DecidableEq, Repr

inductive Error where
  | truncatedHeader
  | badMagic
  | unsupportedVersion (version : UInt16)
  | unknownRecordKind (code : UInt16)
  | wrongRecordKind (expected actual : RecordKind)
  | lengthMismatch (expected : UInt32) (actual : Nat)
  /-- The payload is not a record of the kind. -/
  | malformedPayload
  deriving DecidableEq, Repr

def headerLength : Nat := 12

def magic : Bytes := [0x47, 0x4C, 0x55, 0x45]

def currentVersion : UInt16 := 1

/-- Four hexadecimal digits after `0x`. -/
def hexWord (n : UInt16) : String :=
  let digits := Nat.toDigits 16 n.toNat
  "0x" ++ String.ofList (List.replicate (4 - digits.length) '0' ++ digits)

def Error.message : Error → String
  | .truncatedHeader => s!"header smaller than {headerLength} bytes"
  | .badMagic => "header magic mismatch"
  | .unsupportedVersion version => s!"save version {hexWord version} is not supported"
  | .unknownRecordKind code => s!"record kind {hexWord code} is unknown"
  | .wrongRecordKind expected actual =>
    s!"expected a {expected.name} record, found {actual.name}"
  | .lengthMismatch expected actual =>
    s!"payload length mismatch: header declared {expected} bytes but read {actual}"
  | .malformedPayload => "payload decode error"

def Header.encode (h : Header) : Bytes :=
  magic ++ bigEndian 2 h.version.toNat ++ bigEndian 2 h.kind.code.toNat ++
    bigEndian 4 h.length.toNat

def Header.decode (bytes : Bytes) : Except Error Header :=
  if bytes.length < headerLength then .error .truncatedHeader
  else if bytes.take 4 ≠ magic then .error .badMagic
  else
    let found := (ofBigEndian ((bytes.drop 4).take 2)).toUInt16
    if found ≠ currentVersion then .error (.unsupportedVersion found)
    else
      let code := (ofBigEndian ((bytes.drop 6).take 2)).toUInt16
      match RecordKind.ofCode? code with
      | none => .error (.unknownRecordKind code)
      | some kind =>
        .ok { version := found, kind, length := (ofBigEndian ((bytes.drop 8).take 4)).toUInt32 }

/-- Parts a record into its header and its payload. -/
def decodeEnvelope (bytes : Bytes) : Except Error (Header × Bytes) := do
  let header ← Header.decode bytes
  let payload := bytes.drop headerLength
  if payload.length ≠ header.length.toNat then
    throw (.lengthMismatch header.length payload.length)
  return (header, payload)

def encodeEnvelope (kind : RecordKind) (payload : Bytes) : Except Error Bytes :=
  if payload.length < UInt32.size then
    .ok (Header.encode { version := currentVersion, kind, length := payload.length.toUInt32 } ++ payload)
  else .error (.lengthMismatch 0xFFFFFFFF payload.length)

def encodeRecord (kind : RecordKind) (v : MessagePack.Value) : Except Error Bytes :=
  encodeEnvelope kind v.encode

def decodeRecord {α : Type} (kind : RecordKind) (read : MessagePack.Value → Option α)
    (bytes : Bytes) : Except Error α := do
  let (header, payload) ← decodeEnvelope bytes
  if header.kind ≠ kind then throw (.wrongRecordKind kind header.kind)
  match (MessagePack.decode? payload).bind read with
  | some value => return value
  | none => throw .malformedPayload

end Adventure.Save
