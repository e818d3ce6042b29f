import Adventure.Conversation.Basic
import Adventure.Save.Field
import Adventure.Save.Frame
import Adventure.Script.Interpreter
/-! Saved games: what is kept of a session, and its form as a record. -/
namespace Adventure

open MessagePack (Value)

/-- Names with numbers, as they stand in records. -/
def lineValue (entry : String × UInt32) : Value :=
  .array [.ofText entry.1, .ofNat entry.2.toNat]

def toLine? (v : Value) : Option (String × UInt32) :=
  v.toPair? Value.toText? Value.toUInt32?

namespace Script

def RoomTransition.toValue (t : RoomTransition) : Value :=
  .record [("current", .ofNat t.current.toNat), ("previous", .ofNat t.previous.toNat)]

def RoomTransition.ofValue? (v : Value) : Option RoomTransition := do
  match ← v.fields? ["current", "previous"] with
  | [some current, some previous] =>
    return { current := ← current.toUInt16?, previous := ← previous.toUInt16? }
  | _ => none

def WaitTag.code : WaitTag → Nat
  | .none => 0
  | .conversation => 1
  | .movie => 2
  | .delay => 3

def WaitTag.ofCode? : Nat → Option WaitTag
  | 0 => some .none
  | 1 => some .conversation
  | 2 => some .movie
  | 3 => some .delay
  | _ => Option.none

def SavedScript.toValue (s : SavedScript) : Value :=
  .record [
    ("signature", .ofText s.signature), ("wait", .ofNat s.wait.code),
    ("delay_remaining_ms", .ofNat s.delayRemaining.toNat)]

def SavedScript.ofValue? (v : Value) : Option SavedScript := do
  match ← v.fields? ["signature", "wait", "delay_remaining_ms"] with
  | [some signature, some wait, some delayRemaining] => return {
      signature := ← signature.toText?
      wait := ← WaitTag.ofCode? (← wait.toUInt8?).toNat
      delayRemaining := ← delayRemaining.toUInt64? }
  | _ => none

def SoundBinding.toValue (b : SoundBinding) : Value :=
  .record [("id", .ofNat b.id.toNat), ("variable", .ofText b.name)]

def SoundBinding.ofValue? (v : Value) : Option SoundBinding := do
  match ← v.fields? ["id", "variable"] with
  | [some id, some name] => return { id := ← id.toUInt32?, name := ← name.toText? }
  | _ => none

def InterpreterState.toValue (s : InterpreterState) : Value :=
  .record [
    ("queue", .ofList SavedScript.toValue s.queue),
    ("sound_bindings", .ofList SoundBinding.toValue s.bindings)]

def InterpreterState.ofValue? (v : Value) : Option InterpreterState := do
  match ← v.fields? ["queue", "sound_bindings"] with
  | [some queue, some bindings] => return {
      queue := ← queue.toList? SavedScript.ofValue?
      bindings := ← bindings.toList? SoundBinding.ofValue? }
  | _ => none

end Script

def RandomVariable.toValue (r : RandomVariable) : Value :=
  .record [("name", .ofText r.name), ("max", .ofNat r.max.toNat)]

def RandomVariable.ofValue? (v : Value) : Option RandomVariable := do
  match ← v.fields? ["name", "max"] with
  | [some name, some max] => return { name := ← name.toText?, max := ← max.toUInt8? }
  | _ => none

namespace VariableSnapshot

def entryValue (entry : String × UInt8) : Value :=
  .array [.ofText entry.1, .ofNat entry.2.toNat]

def toEntry? (v : Value) : Option (String × UInt8) :=
  v.toPair? Value.toText? Value.toUInt8?

def toValue (s : VariableSnapshot) : Value :=
  .record [
    ("globals", .ofList entryValue s.globals), ("locals", .ofList entryValue s.locals),
    ("local_names", .ofList .ofText s.localNames),
    ("randoms", .ofList RandomVariable.toValue s.randoms),
    ("last_changed", .ofNat s.lastChanged.toNat)]

def ofValue? (v : Value) : Option VariableSnapshot := do
  match ← v.fields? ["globals", "locals", "local_names", "randoms", "last_changed"] with
  | [some globals, some locals, some localNames, some randoms, some lastChanged] => return {
      globals := ← globals.toList? toEntry?
      locals := ← locals.toList? toEntry?
      localNames := ← localNames.toList? Value.toText?
      randoms := ← randoms.toList? RandomVariable.ofValue?
      lastChanged := ← lastChanged.toUInt32? }
  | _ => none

end VariableSnapshot

namespace ConversationSnapshot

def toValue (s : ConversationSnapshot) : Value :=
  .record [
    ("name", .ofText s.name), ("current", .ofOption (fun n => .ofNat n.toNat) s.current),
    ("visible", .ofList .bool s.visible), ("destroyed", .ofList .bool s.destroyed)]

def ofValue? (v : Value) : Option ConversationSnapshot := do
  match ← v.fields? ["name", "current", "visible", "destroyed"] with
  | [some name, current, some visible, some destroyed] => return {
      name := ← name.toText?
      current := ← (current.getD .nil).toOption? Value.toUInt32?
      visible := ← visible.toList? Value.toBool?
      destroyed := ← destroyed.toList? Value.toBool? }
  | _ => none

end ConversationSnapshot

structure SaveState where
  rooms : Script.RoomTransition
  vars : VariableSnapshot
  /-- How far each script has come. -/
  scriptLines : List (String × UInt32)
  interpreter : Script.InterpreterState
  conversation : Option ConversationSnapshot
  deriving DecidableEq, Repr

namespace SaveState

def toValue (s : SaveState) : Value :=
  .record [
    ("rooms", s.rooms.toValue), ("variables", s.vars.toValue),
    ("script_lines", .ofList lineValue s.scriptLines), ("interpreter", s.interpreter.toValue),
    ("conversation", .ofOption ConversationSnapshot.toValue s.conversation)]

def ofValue? (v : Value) : Option SaveState := do
  match ← v.fields? ["rooms", "variables", "script_lines", "interpreter", "conversation"] with
  | [some rooms, some vars, some scriptLines, some interpreter, conversation] => return {
      rooms := ← Script.RoomTransition.ofValue? rooms
      vars := ← VariableSnapshot.ofValue? vars
      scriptLines := ← scriptLines.toList? toLine?
      interpreter := ← Script.InterpreterState.ofValue? interpreter
      conversation := ← (conversation.getD .nil).toOption? ConversationSnapshot.ofValue? }
  | _ => none

def toBytes (s : SaveState) : Except Save.Error MessagePack.Bytes :=
  Save.encodeRecord .session s.toValue

def ofBytes (bytes : MessagePack.Bytes) : Except Save.Error SaveState :=
  Save.decodeRecord .session ofValue? bytes

end SaveState

/-- The record of a run that is saved without its session: the queue, and how far each script has
come. -/
structure InterpreterRecord where
  state : Script.InterpreterState
  lines : List (String × UInt32)
  deriving DecidableEq, Repr

namespace InterpreterRecord

def toValue (r : InterpreterRecord) : Value :=
  .array [r.state.toValue, .ofList lineValue r.lines]

def ofValue? (v : Value) : Option InterpreterRecord :=
  (v.toPair? Script.InterpreterState.ofValue? (Value.toList? toLine?)).map fun (state, lines) =>
    ⟨state, lines⟩

def toBytes (r : InterpreterRecord) : Except Save.Error MessagePack.Bytes :=
  Save.encodeRecord .interpreter r.toValue

def ofBytes (bytes : MessagePack.Bytes) : Except Save.Error InterpreterRecord :=
  Save.decodeRecord .interpreter ofValue? bytes

end InterpreterRecord
end Adventure
