import Adventure.Resources
/-! A directory with everything below it. Paths are read relative to it. -/
namespace Adventure

/-- The names on the way to a file or directory. The way to a place outside the tree begins with `..` or
with `/`. -/
abbrev TreePath := List String

structure FileTree where
  files : List (TreePath × List UInt8)
  /-- Directories besides those that hold files. -/
  directories : List TreePath
  deriving DecidableEq, Repr

namespace FileTree

inductive Error where
  | notFound
  | alreadyExists
  | notDirectory
  | isDirectory
  | nameTooLong
  | nullCharacter
  deriving DecidableEq, Repr

def Error.message : Error → String
  | .notFound => "No such file or directory (os error 2)"
  | .alreadyExists => "File exists (os error 17)"
  | .notDirectory => "Not a directory (os error 20)"
  | .isDirectory => "Is a directory (os error 21)"
  | .nameTooLong => "File name too long (os error 36)"
  | .nullCharacter => "file name contained an unexpected NUL byte"

def empty : FileTree :=
  { files := [], directories := [] }

def nameLimit : Nat := 255

def pathLimit : Nat := 4095

def file? (t : FileTree) (path : TreePath) : Option (List UInt8) :=
  t.files.lookup path

def isOutside (path : TreePath) : Bool :=
  path.head? == some ".." || path.head? == some "/"

/-- The directory above. The root of all directories is above itself. -/
def above (path : TreePath) : TreePath :=
  if path.all (· == "..") then path ++ [".."]
  else if path == ["/"] then path
  else path.dropLast

/-- Whether a directory lies at a path. The directories above the tree are there. -/
def isDirectory (t : FileTree) (path : TreePath) : Bool :=
  path.all (· == "..") || path == ["/"] || t.directories.any (path.isPrefixOf ·) ||
    t.files.any fun (file, _) => path.isPrefixOf file && path != file

def holds (t : FileTree) (path : TreePath) : Bool :=
  (t.file? path).isSome || t.isDirectory path

def putFile (t : FileTree) (path : TreePath) (bytes : List UInt8) : FileTree :=
  { t with files := t.files.filter (·.1 != path) ++ [(path, bytes)] }

def putDirectory (t : FileTree) (path : TreePath) : FileTree :=
  { t with directories := t.directories ++ [path] }

/-- The names that a path is made of. A path from the root of all directories starts with `/`. -/
def names (path : String) : List String :=
  if path.startsWith "/" then "/" :: path.splitOn "/" else path.splitOn "/"

/-- Adds a file under a path with slashes; a slash at the end makes it a directory. -/
def add (t : FileTree) (path : String) (bytes : List UInt8) : FileTree :=
  let names := (names path).filter fun name => name != "" && name != "."
  let (t, place) := names.foldl step (t, [])
  if path.endsWith "/" then t.putDirectory place else t.putFile place bytes
where
  /-- A directory that is left again by `..` is there as well. -/
  step : FileTree × TreePath → String → FileTree × TreePath
    | (t, place), name =>
      if name == ".." then (t.putDirectory place, above place) else (t, place ++ [name])

def absence (name : String) : Error :=
  if nameLimit < name.utf8ByteSize then .nameTooLong else .notFound

def walk (t : FileTree) (path : TreePath) : List String → Except Error TreePath
  | [] => .ok path
  | name :: names =>
    if !t.isDirectory path then .error .notDirectory
    else if name == "" || name == "." then walk t path names
    else if name == ".." then walk t (above path) names
    else if t.holds (path ++ [name]) then walk t (path ++ [name]) names
    else .error (absence name)

def route (path : String) : Except Error (List String) :=
  if path.any (· == '\x00') then .error .nullCharacter
  else if path.isEmpty then .error .notFound
  else if pathLimit < path.utf8ByteSize then .error .nameTooLong
  else .ok (names path)

def resolve (t : FileTree) (path : String) : Except Error TreePath := do
  t.walk [] (← route path)

def directoryAt (t : FileTree) (names : List String) : Except Error TreePath := do
  let path ← t.walk [] names
  if t.isDirectory path then return path else throw .notDirectory

def read (t : FileTree) (path : String) : Except Error (List UInt8) := do
  match t.file? (← t.resolve path) with
  | some bytes => return bytes
  | none => throw .isDirectory

def write (t : FileTree) (path : String) (bytes : List UInt8) : Except Error FileTree := do
  let names ← route path
  let last := names.getLast?.getD ""
  let directory ← t.directoryAt (names.reverse.dropWhile (· == "")).tail.reverse
  if last == "" || last == "." || last == ".." then throw .isDirectory
  if t.isDirectory (directory ++ [last]) then throw .isDirectory
  if nameLimit < last.utf8ByteSize then throw .nameTooLong
  return t.putFile (directory ++ [last]) bytes

/-- Makes the directory `name` where the names before it lead. It may be there already. -/
def makeDirectory (t : FileTree) (parents : List String) (name : String) :
    Except Error FileTree := do
  let directory ← t.directoryAt parents
  if name == ".." || t.isDirectory (directory ++ [name]) then return t
  if (t.file? (directory ++ [name])).isSome then throw .alreadyExists
  if nameLimit < name.utf8ByteSize then throw .nameTooLong
  return t.putDirectory (directory ++ [name])

/-- Makes the directory that names lead to, the last name first, and before it those that are missing on the
way. What was made before a failure stays. -/
def makeWay (t : FileTree) : List String → Except Error Unit × FileTree
  | [] => (.ok (), t)
  | name :: parents =>
    match t.makeDirectory parents.reverse name with
    | .ok t => (.ok (), t)
    | .error .notFound =>
      match makeWay t parents with
      | (.ok (), t) =>
        match t.makeDirectory parents.reverse name with
        | .ok t => (.ok (), t)
        | .error e => (.error e, t)
      | failed => failed
    | .error e => (.error e, t)

/-- Makes a directory and those that are missing on the way to it. -/
def makeDirectories (t : FileTree) (path : String) : Except Error Unit × FileTree :=
  if path.isEmpty then (.ok (), t)
  else match route path with
  | .error e => (.error e, t)
  | .ok names => t.makeWay (names.filter fun name => name != "" && name != ".").reverse

/-- The order of paths by their names, from the first on. -/
def inOrder : TreePath → TreePath → Bool
  | [], _ => true
  | _ :: _, [] => false
  | a :: as, b :: bs => a < b || (a == b && inOrder as bs)

/-- The files below a directory with their last names, in the order of a walk through it: the entries of
every directory by name, and a directory's content in the place of its name. -/
def filesBelow (t : FileTree) (directory : TreePath) : List (String × List UInt8) :=
  let below := t.files.filter fun (path, _) =>
    directory.isPrefixOf path && path != directory && isOutside path == isOutside directory
  (below.mergeSort fun a b => inOrder a.1 b.1).filterMap fun (path, bytes) =>
    path.getLast?.map (·, bytes)

def resources? (t : FileTree) (root : String) : Option Resources :=
  match t.resolve root with
  | .ok path => if t.isDirectory path then some (.ofFiles root (t.filesBelow path)) else none
  | .error _ => none

end FileTree
end Adventure
