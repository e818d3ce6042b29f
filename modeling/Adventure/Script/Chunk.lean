import Adventure.ParseError
import Adventure.Script.Action
import Adventure.Variables.Basic
/-! Chunks: lists of actions with the conditions under which they run. In a text a chunk opens with a
`Cond` line; `Cond2` adds an alternative condition, `From` the room to come from, and `Once` says that
the chunk is retired after its run. Every other line is an action. -/
namespace Adventure

def blockKeywords : List String :=
  ["Object", "Objects", "End", "Go", "Look", "Use", "Enter", "Local", "Random", "WalkMap"]

def Text.Line.isBlockKeyword (l : Line) : Bool :=
  blockKeywords.any l.is

namespace Script

structure Chunk where
  /-- The file and line of the opening `Cond`. -/
  signature : String
  conditions : List String
  actions : List Action
  /-- How many actions are done. -/
  position : Nat
  /-- 0 stands for any room. -/
  fromRoom : UInt16
  once : Bool
  retired : Bool
  deriving DecidableEq, Repr

namespace Chunk

def ofParts (signature : String) (conditions : List String) (actions : List Action) : Chunk :=
  { signature, conditions, actions, position := 0, fromRoom := 0, once := false, retired := false }

def conditionsMet (c : Chunk) (vars : Variables) : Bool :=
  vars.meetsAny c.conditions

def isFinished (c : Chunk) : Bool :=
  c.actions.length ≤ c.position

def currentAction? (c : Chunk) : Option Action :=
  c.actions[c.position]?

/-- Moves past the current action. A finished chunk stays where it is. -/
def advance (c : Chunk) : Chunk :=
  if c.isFinished then c else { c with position := c.position + 1 }

def rewind (c : Chunk) : Chunk :=
  { c with position := 0 }

def skipToEnd (c : Chunk) : Chunk :=
  { c with position := c.actions.length }

def retire (c : Chunk) : Chunk :=
  { c with retired := true, position := c.actions.length }

/-- Moves to an action, or to the end if there are fewer. -/
def seek (c : Chunk) (target : Nat) : Chunk :=
  { c with position := min target c.actions.length }

/-- Whether an actor who comes from `previousRoom` may run the chunk now. -/
def isCandidate (c : Chunk) (vars : Variables) (previousRoom : UInt16) : Bool :=
  !c.retired && !c.actions.isEmpty && (c.fromRoom == 0 || c.fromRoom == previousRoom) &&
    c.conditionsMet vars

def opening (file : String) (l : Text.Line) : Chunk :=
  ofParts (Location.text ⟨file, l.number⟩) [l.args] []

def addLine (file : String) (c : Chunk) (l : Text.Line) : Except ParseError Chunk :=
  if l.is "Cond2" then .ok { c with conditions := c.conditions ++ [l.args] }
  else if l.is "From" then
    match l.arguments with
    | [room] => do return { c with fromRoom := ← l.readNumber file Text.readUInt16 room }
    | args => .error (l.argumentCount file 1 args.length)
  else if l.is "Once" then .ok { c with once := true }
  else .ok { c with actions := c.actions ++ [.ofKeyword l.command l.args] }

/-- Adds a line to the latest of the chunks read so far, or opens the next one. -/
def collect (file : String) (chunks : List Chunk) (l : Text.Line) :
    Except ParseError (List Chunk) :=
  if l.is "Cond" then .ok (opening file l :: chunks)
  else
    match chunks with
    | [] => .error (.missingCondition ⟨file, l.number⟩ l.command)
    | c :: rest => do return (← c.addLine file l) :: rest

def ofLines (file : String) (lines : List Text.Line) : Except ParseError (List Chunk) := do
  return (← lines.foldlM (collect file) []).reverse

end Chunk

/-- Reads chunks up to a block keyword or the end of the text. -/
def readChunks (r : Text.Reader) : Except ParseError (List Chunk × Text.Reader) := do
  let (lines, r) := r.takeWhile (!·.isBlockKeyword)
  return (← Chunk.ofLines r.file lines, r)

end Script
end Adventure
