import Adventure.CommandLine.Dump
import Adventure.CommandLine.Play
/-! The program. It plays, unless its first argument names one of the two tools. -/
namespace Adventure.CommandLine

/-- Adds what lies in a directory to a tree. -/
partial def readDirectory (directory : String) (tree : FileTree) : IO FileTree := do
  let mut tree := tree.add (directory ++ "/") []
  for entry in ← (← IO.FS.realPath directory).readDir do
    let path := directory ++ "/" ++ entry.fileName
    if ← entry.path.isDir then tree ← readDirectory path tree
    else tree := tree.add path (← IO.FS.readBinFile entry.path).toList
  return tree

/-- Adds the directory or the file at a path to a tree, if there is one. -/
def readPlace (path : String) (tree : FileTree) : IO FileTree := do
  try
    let place ← IO.FS.realPath path
    match (← place.metadata).type with
    | .dir => return tree.add (path ++ "/") []
    | .file => return tree.add path (← IO.FS.readBinFile place).toList
    | _ => return tree
  catch _ => return tree

/-- Adds what lies at a path and on the way to it. -/
def readWay (path : String) (tree : FileTree) : IO FileTree := do
  let names := path.splitOn "/"
  let mut tree := tree
  for count in [0:names.length] do
    tree ← readPlace ("/".intercalate (names.take (count + 1))) tree
  return tree

/-- Makes the directories that a run has made. -/
def makeDirectories (before after : FileTree) : IO Unit :=
  for place in after.directories.drop before.directories.length do
    IO.FS.createDirAll ("/".intercalate place)

/-- Writes the file at a path, if a run has changed it. -/
def writeFile (before after : FileTree) (path : String) : IO Unit := do
  if let .ok bytes := after.read path then
    if (before.read path).toOption != some bytes then
      IO.FS.writeBinFile path ⟨bytes.toArray⟩

def complain (message : String) (code : UInt32) : IO UInt32 := do
  IO.eprintln s!"Error: {message}"
  return code

def mainPlay (args : List String) : IO UInt32 := do
  match PlaySettings.ofArguments args with
  | .error (.usage _) => complain "the arguments are not understood" 2
  | .error e => complain e.message 1
  | .ok settings =>
    let mut tree := FileTree.empty
    try tree ← readDirectory settings.dataRoot tree
    catch _ => pure ()
    let written := settings.eventLog.toList ++ settings.saveTo.toList
    for path in written do tree ← readWay path tree
    if let .save path := settings.start then tree ← readWay path tree
    let played := play tree settings
    IO.print played.output
    makeDirectories tree played.tree
    for path in written do writeFile tree played.tree path
    match played.result with
    | .ok () => return 0
    | .error e => complain e.message 1

def mainDump (dump : FileTree → List String → Except DumpError String) (args : List String) :
    IO UInt32 := do
  let mut tree := FileTree.empty
  for path in args do tree ← readWay path tree
  match dump tree args with
  | .ok output =>
    IO.print output
    return 0
  | .error (.usage _) => complain "the arguments are not understood" 2
  | .error e => complain e.message 1

end Adventure.CommandLine

open Adventure.CommandLine in
def main (args : List String) : IO UInt32 :=
  match args with
  | "script_dump" :: args => mainDump dumpScript args
  | "walkmap_dump" :: args => mainDump dumpWalkMap args
  | args => mainPlay args
