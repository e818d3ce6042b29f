import Adventure.Text.Quoted
import Adventure.Text.Reader
/-! Malformed definition texts. Every error names a place in the file. -/
namespace Adventure

structure Location where
  file : String
  line : Nat
  deriving DecidableEq, Repr

def Location.text (l : Location) : String :=
  s!"{l.file}:{l.line}"

namespace Text.Reader

def locationOf (r : Reader) (l : Line) : Location :=
  ⟨r.file, l.number⟩

/-- The place of the latest line. -/
def here (r : Reader) : Location :=
  ⟨r.file, r.lineNumber⟩

end Text.Reader

/-- What a text can break off in. -/
inductive Unfinished where
  | object
  | container
  | conversation
  deriving DecidableEq, Repr

def Unfinished.text : Unfinished → String
  | .object => "object"
  | .container => "object container"
  | .conversation => "conversation node"

/-- Lines that have to come before others. -/
inductive Heading where
  | object
  | objects
  | node
  | entry
  deriving DecidableEq, Repr

def Heading.text : Heading → String
  | .object => "Object NAME"
  | .objects => "Objects COUNT"
  | .node => "Node NAME"
  | .entry => "Entry NAME"

inductive ParseError where
  | unexpectedEnd (place : Location) (within : Unfinished)
  | missingCondition (place : Location) (action : String)
  | argumentCount (place : Location) (command : String) (expected found : Nat)
  | unknownSection (place : Location) (marker : String)
  | badNumber (place : Location) (command value : String)
  | unexpected (place : Location) (expected : Heading) (found : String)
  | shortContainer (place : Location) (declared parsed : Nat)
  deriving DecidableEq, Repr

namespace ParseError

def place : ParseError → Location
  | .unexpectedEnd place _ => place
  | .missingCondition place _ => place
  | .argumentCount place _ _ _ => place
  | .unknownSection place _ => place
  | .badNumber place _ _ => place
  | .unexpected place _ _ => place
  | .shortContainer place _ _ => place

def complaint : ParseError → String
  | .unexpectedEnd _ within => s!"unexpected end of input while reading {within.text}"
  | .missingCondition _ action => s!"action {action} is not preceded by a Cond line"
  | .argumentCount _ command expected found =>
    s!"{command} expects {expected} argument(s), found {found}"
  | .unknownSection _ marker => s!"unknown section marker {marker}"
  | .badNumber _ command value => s!"{command} has an invalid number {Text.quote value}"
  | .unexpected _ expected found => s!"expected {expected.text}, found {found}"
  | .shortContainer _ declared parsed =>
    s!"container declares {declared} objects but only {parsed} are present"

def message (e : ParseError) : String :=
  s!"{e.place.text}: {e.complaint}"

end ParseError

namespace Text.Line

/-- The line in a file where another heading should stand. -/
def unexpected (l : Line) (file : String) (expected : Heading) : ParseError :=
  .unexpected ⟨file, l.number⟩ expected (trim s!"{l.command} {l.args}")

def argumentCount (l : Line) (file : String) (expected found : Nat) : ParseError :=
  .argumentCount ⟨file, l.number⟩ l.command expected found

def unknownSection (l : Line) (file : String) : ParseError :=
  .unknownSection ⟨file, l.number⟩ l.command

/-- A number among the arguments of a line. -/
def readNumber {α : Type} (l : Line) (file : String) (read : String → Except NumberError α)
    (value : String) : Except ParseError α :=
  (read (trim value)).mapError fun _ => .badNumber ⟨file, l.number⟩ l.command value

end Text.Line
end Adventure
