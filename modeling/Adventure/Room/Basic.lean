import Adventure.Room.Object
import Adventure.Text.Padding
/-! Rooms: their own variables, walk map, objects, and the chunks that run on entering. -/
namespace Adventure

open Script (Chunk ChunkId Library)
open Text (Reader)

/-- A room as its text defines it. -/
structure RoomDef where
  locals : List String
  randoms : List (String × UInt8)
  walkMap : Option String
  objects : List ObjectDef
  enter : List Chunk
  deriving DecidableEq, Repr

namespace RoomDef

def empty : RoomDef :=
  { locals := [], randoms := [], walkMap := none, objects := [], enter := [] }

/-- The name and the greatest value of a random variable. -/
def readRandom (file : String) (l : Text.Line) : Except ParseError (String × UInt8) :=
  match l.arguments with
  | [name, max] => do return (name, ← l.readNumber file Text.readUInt8 max)
  | args => .error (l.argumentCount file 2 args.length)

def readWalkMap (file : String) (l : Text.Line) : Except ParseError String :=
  match l.arguments with
  | [name] => .ok name
  | args => .error (l.argumentCount file 1 args.length)

/-- Reads the sections of a room up to the end of the text. -/
def readSections (d : RoomDef) (r : Reader) : Except ParseError RoomDef :=
  match _ : r.next? with
  | none => .ok d
  | some (l, r') =>
    if l.is "Local" then readSections { d with locals := d.locals ++ l.arguments } r'
    else if l.is "Random" then
      match readRandom r.file l with
      | .error e => .error e
      | .ok random => readSections { d with randoms := d.randoms ++ [random] } r'
    else if l.is "WalkMap" then
      match readWalkMap r.file l with
      | .error e => .error e
      | .ok name => readSections { d with walkMap := some name } r'
    else if l.is "Objects" then
      match _ : ObjectDef.readContainer r with
      | .error e => .error e
      | .ok (objects, r'') => readSections { d with objects := d.objects ++ objects } r''
    else if l.is "Enter" then
      match _ : Script.readChunks r' with
      | .error e => .error e
      | .ok (chunks, r'') => readSections { d with enter := d.enter ++ chunks } r''
    else .error (l.unknownSection r.file)
termination_by r.after.length
decreasing_by
  · exact Reader.length_after_of_next? (by assumption)
  · exact Reader.length_after_of_next? (by assumption)
  · exact Reader.length_after_of_next? (by assumption)
  · exact ObjectDef.length_after_of_readContainer (by assumption)
  · exact Nat.lt_of_le_of_lt (Script.length_after_of_readChunks (by assumption))
      (Reader.length_after_of_next? (by assumption))

end RoomDef

structure Room where
  id : UInt16
  locals : List String
  randoms : List (String × UInt8)
  walkMap : Option String
  objects : Container
  enter : List ChunkId
  deriving DecidableEq, Repr

namespace Room

/-- The resource that defines a room: its number with at least four digits. -/
def resourceName (id : UInt16) : String :=
  Text.padLeft '0' 4 (toString id.toNat) ++ ".rom"

def install (id : UInt16) (d : RoomDef) (library : Library) : Room × Library :=
  let (objects, library) := Container.install d.objects library
  let (enter, library) := library.adoptAll d.enter
  ({ id, locals := d.locals, randoms := d.randoms, walkMap := d.walkMap, objects, enter }, library)

/-- Reads a whole room. Nothing is installed if the text is malformed. -/
def parse (id : UInt16) (r : Reader) (library : Library) : Except ParseError (Room × Library) := do
  return install id (← RoomDef.empty.readSections r) library

def chunkIds (room : Room) : List ChunkId :=
  room.objects.chunkIds ++ room.enter

def destroy (room : Room) (library : Library) : Library :=
  (room.objects.destroy library).releaseAll room.enter

/-- Declares the room's own names and its random variables. -/
def declareVariables (room : Room) (vars : Variables) : Variables :=
  room.randoms.foldl (fun vars (name, max) => (vars.declareLocal name).declareRandom name max)
    (room.locals.foldl Variables.declareLocal vars)

end Room
end Adventure
