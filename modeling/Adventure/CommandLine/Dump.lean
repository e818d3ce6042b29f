import Adventure.CommandLine.Usage
import Adventure.FileTree
import Adventure.Json
import Adventure.Text.Line
import Adventure.Text.Padding
import Adventure.Walk.Map
/-! Tools that print a definition text line by line, and a walk map cell by cell. -/
namespace Adventure.CommandLine

structure DumpOptions where
  path : Option String := none
  json : Bool := false

def dumpCommand : Command DumpOptions where
  options := [("json", .flag fun o => { o with json := true })]
  bare := fun arg o =>
    if o.path.isSome then .error .unknownArgument
    else if arg.isEmpty then .error .invalidValue
    else .ok { o with path := some arg }

inductive DumpError where
  | usage (cause : UsageError)
  | reading (path : String) (cause : FileTree.Error)
  | decoding (path : String) (cause : WalkMap.Error)
  deriving DecidableEq, Repr

def DumpError.message : DumpError → String
  | .usage _ => "usage"
  | .reading path cause => s!"reading {path}: {cause.message}"
  | .decoding path cause => s!"decoding walk map {path}: {cause.message}"

/-- The file that the arguments name, its content, and whether JSON is asked for. -/
def readDumped (tree : FileTree) (args : List String) :
    Except DumpError (String × List UInt8 × Bool) := do
  let o ← (dumpCommand.read {} args).mapError .usage
  match o.path with
  | none => throw (.usage .missingRequiredArgument)
  | some path => return (path, ← (tree.read path).mapError (.reading path), o.json)

def lineToJson (l : Text.Line) : Json :=
  .object [("line", .number l.number), ("cmd", .text l.command), ("args", .text l.args)]

/-- A line with its number, its command and the list of its arguments. -/
def lineToText (l : Text.Line) : String :=
  let number := Text.padLeft ' ' 5 (toString l.number)
  let args := ", ".intercalate (l.arguments.map Text.quote)
  s!"{number}  {Text.padRight 12 l.command} [{args}]\n"

def dumpScript (tree : FileTree) (args : List String) : Except DumpError String := do
  let (_, bytes, json) ← readDumped tree args
  let lines := Text.lines (Text.decodeLossy bytes)
  if json then return Json.render (.array (lines.map lineToJson)) ++ "\n"
  return String.join (lines.map lineToText)

def mapToJson (m : WalkMap) : Json :=
  .object [
    ("width", .number m.width.toNat), ("height", .number m.height.toNat),
    ("cells", .array (m.cells.toList.map fun value => .number value.toNat))]

def dumpWalkMap (tree : FileTree) (args : List String) : Except DumpError String := do
  let (path, bytes, json) ← readDumped tree args
  let m ← (WalkMap.parse bytes).mapError (.decoding path)
  if json then return Json.render (mapToJson m) ++ "\n"
  return s!"{m.width}x{m.height} cells, {m.walkableCount} walkable ({path})\n" ++ m.render

end Adventure.CommandLine
