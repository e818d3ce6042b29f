import Adventure.Random.Die
import Adventure.Table
import Adventure.Text.Letter
import Adventure.Variables.Token
/-! The game's variables: small numbers under names that ignore case and outer blanks. A room may
declare names as its own; they hide the global ones until the room is left. -/
namespace Adventure

/-- A variable that gets a new value from 1 to `max` whenever scripts are about to be chosen. -/
structure RandomVariable where
  name : String
  max : UInt8
  deriving DecidableEq, Repr

/-- Gives the first variable with the key a new range, or adds one at the end. -/
def RandomVariable.declare (key : String) (max : UInt8) :
    List RandomVariable → List RandomVariable
  | [] => [⟨key, max⟩]
  | r :: rest => if r.name == key then { r with max } :: rest else r :: declare key max rest

structure Variables where
  globals : Table UInt8
  locals : Table UInt8
  localNames : NameSet
  randoms : List RandomVariable
  /-- Counts the writes, modulo 2^32. What was derived at one count is valid at that count. -/
  lastChanged : UInt32
  deriving DecidableEq, Repr

structure VariableSnapshot where
  globals : List (String × UInt8)
  locals : List (String × UInt8)
  localNames : List String
  randoms : List RandomVariable
  lastChanged : UInt32
  deriving DecidableEq, Repr

/-- The form of a name under which its variable is kept. -/
def variableKey (name : String) : String :=
  Text.upper (Text.trim name)

namespace Variables

def empty : Variables :=
  { globals := ∅, locals := ∅, localNames := ∅, randoms := [], lastChanged := 0 }

instance : Inhabited Variables := ⟨empty⟩

def isLocal (v : Variables) (name : String) : Bool :=
  v.localNames.contains (variableKey name)

/-- A name that was never written reads as 0. -/
def get (v : Variables) (name : String) : UInt8 :=
  let table := if v.isLocal name then v.locals else v.globals
  (table.get? (variableKey name)).getD 0

/-- Writes to an empty name are ignored. -/
def set (v : Variables) (name : String) (value : UInt8) : Variables :=
  let key := variableKey name
  if key.isEmpty then v
  else if v.isLocal name then
    { v with locals := v.locals.insert key value, lastChanged := v.lastChanged + 1 }
  else
    { v with globals := v.globals.insert key value, lastChanged := v.lastChanged + 1 }

def setAll (v : Variables) (writes : List (String × UInt8)) : Variables :=
  writes.foldl (fun v (name, value) => v.set name value) v

def declareLocal (v : Variables) (name : String) : Variables :=
  let key := variableKey name
  if key.isEmpty then v else { v with localNames := v.localNames.insert key () }

/-- Forgets the room's own names, their values and its random variables. -/
def clearLocals (v : Variables) : Variables :=
  { v with locals := ∅, localNames := ∅, randoms := [], lastChanged := v.lastChanged + 1 }

def declareRandom (v : Variables) (name : String) (max : UInt8) : Variables :=
  { v with randoms := RandomVariable.declare (variableKey name) max v.randoms }

/-- Rolls for each of the given variables in turn; one without a range is passed over. -/
def rollAll : List RandomVariable → Variables → Random.Stream → Variables × Random.Stream
  | [], v, s => (v, s)
  | r :: rest, v, s =>
    if r.max == 0 then rollAll rest v s
    else
      let (value, s) := Random.roll r.max s
      rollAll rest (v.set r.name value) s

def reroll (v : Variables) (s : Random.Stream) : Variables × Random.Stream :=
  rollAll v.randoms v s

def meets (v : Variables) (condition : String) : Bool :=
  (Token.ofText condition).all (Token.holds v.get)

/-- Whether one of the alternatives holds; no alternatives ask for nothing. -/
def meetsAny (v : Variables) (alternatives : List String) : Bool :=
  alternatives.isEmpty || alternatives.any v.meets

/-- Makes the writes that a change asks for, from left to right. -/
def change (v : Variables) (text : String) : Variables :=
  v.setAll ((Token.ofText text).filterMap Token.write?)

def snapshot (v : Variables) : VariableSnapshot where
  globals := v.globals.toList
  locals := v.locals.toList
  localNames := v.localNames.keys
  randoms := v.randoms
  lastChanged := v.lastChanged

/-- The variables of a snapshot. The count moves on, for nothing derived before is valid now. -/
def ofSnapshot (s : VariableSnapshot) : Variables where
  globals := Table.ofList s.globals
  locals := Table.ofList s.locals
  localNames := NameSet.ofList s.localNames
  randoms := s.randoms
  lastChanged := s.lastChanged + 1

end Variables
end Adventure
