import Adventure.Table
import Adventure.Text.Blank
import Adventure.Text.Letter
/-! Resources of a game: bytes under names that ignore case and outer blanks. -/
namespace Adventure

structure Resources where
  entries : Table (List UInt8)
  /-- The directory that the resources were found in. -/
  root : Option String
  deriving DecidableEq, Repr

/-- There is no resource of the name. -/
structure ResourceError where
  name : String
  root : Option String
  deriving DecidableEq, Repr

def ResourceError.message (e : ResourceError) : String :=
  match e.root with
  | some root => s!"resource {e.name} not found under {root}"
  | none => s!"resource {e.name} not found"

namespace Resources

def key (name : String) : String :=
  Text.lower (Text.trim name)

def inMemory : Resources :=
  { entries := ∅, root := none }

def insert (r : Resources) (name : String) (bytes : List UInt8) : Resources :=
  { r with entries := r.entries.insert (key name) bytes }

/-- Adds a resource unless there is one of the name. -/
def insertNew (r : Resources) (name : String) (bytes : List UInt8) : Resources :=
  if r.entries.contains (key name) then r else r.insert name bytes

/-- The files of a directory under their last names; of files with the same name the first counts. -/
def ofFiles (root : String) (files : List (String × List UInt8)) : Resources :=
  files.foldl (fun r (name, bytes) => r.insertNew name bytes) { entries := ∅, root := some root }

def get? (r : Resources) (name : String) : Option (List UInt8) :=
  r.entries.get? (key name)

def contains (r : Resources) (name : String) : Bool :=
  r.entries.contains (key name)

def fetch (r : Resources) (name : String) : Except ResourceError (List UInt8) :=
  match r.get? name with
  | some bytes => .ok bytes
  | none => .error ⟨name, r.root⟩

def size (r : Resources) : Nat :=
  r.entries.size

end Resources
end Adventure
