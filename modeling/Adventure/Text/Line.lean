import Adventure.Text.Arguments
import Adventure.Text.Letter
import Adventure.Text.Utf8
/-! Lines of a definition text: a command and its arguments. A `;` opens a comment that ends with the
line, and a line without a command is skipped. -/
namespace Adventure.Text

structure Line where
  /-- Counted from 1 in the file. -/
  number : Nat
  command : String
  args : String
  deriving DecidableEq, Repr

/-- A line's integers do not read. -/
structure Line.NumbersError where
  line : Line
  cause : Text.NumbersError
  deriving DecidableEq, Repr

def Line.NumbersError.message (e : Line.NumbersError) : String :=
  s!"line {e.line.number}: {e.line.command} {e.line.args}: {e.cause.message}"

namespace Line

def is (l : Line) (keyword : String) : Bool :=
  same l.command keyword

def arguments (l : Line) : List String :=
  Text.arguments l.args

def numbers (l : Line) : Except Line.NumbersError (List Int32) :=
  (Text.numbers l.arguments).mapError (⟨l, ·⟩)

/-- The line with the given number, unless nothing is left of it without its comment. -/
def ofPhysical? (number : Nat) (raw : List Char) : Option Line :=
  let code := Chars.trim (raw.takeWhile (· != ';'))
  if code.isEmpty then none
  else
    let inCommand := fun c => c != ' ' && c != '\t'
    some {
      number
      command := String.ofList (code.takeWhile inCommand)
      args := String.ofList (Chars.trim (code.dropWhile inCommand)) }

end Line

/-- The lines of a text. Lines end with a line feed; a carriage return before it is blank and goes
with the other blanks. -/
def lines (text : String) : List Line :=
  ((text.toList.splitOnP (· == '\n')).zipIdx 1).filterMap fun (raw, n) => Line.ofPhysical? n raw

end Adventure.Text
