import Adventure.Script.Store
/-! The library of scripts: the loaded chunks, and a register of how far each signature has come. A
signature that is not loaded may have a position waiting for it; one marked as removed never runs
again. -/
namespace Adventure.Script

inductive Progress where
  | live (id : ChunkId)
  | cached (line : UInt32)
  | removed
  deriving DecidableEq, Repr

/-- The line recorded for chunks that never run again. -/
def removedLine : UInt32 := 0xFFFFFFFF

def Progress.ofLine (line : UInt32) : Progress :=
  if line == removedLine then .removed else .cached line

structure Library where
  store : Store
  register : Table Progress
  deriving DecidableEq, Repr

namespace Library

def empty : Library :=
  { store := .empty, register := ∅ }

instance : Inhabited Library := ⟨empty⟩

/-- Takes a freshly read chunk. It is dropped if its signature is marked as removed, and moved to the
position that waits for it. -/
def adopt (l : Library) (chunk : Chunk) : Option ChunkId × Library :=
  let place := fun (chunk : Chunk) =>
    let (id, store) := l.store.insert chunk
    (some id, { store, register := l.register.insert chunk.signature (.live id) })
  match l.register.get? chunk.signature with
  | some .removed => (none, l)
  | some (.cached line) => place (chunk.seek line.toNat)
  | _ => place chunk

def adoptAll : List Chunk → Library → List ChunkId × Library
  | [], l => ([], l)
  | chunk :: chunks, l =>
    let (id, l) := l.adopt chunk
    let (ids, l) := adoptAll chunks l
    (id.toList ++ ids, l)

/-- Takes a chunk out with its owner. Its progress is forgotten unless it is marked as removed or
another chunk has the signature by now. -/
def release (l : Library) (id : ChunkId) : Library :=
  match l.store.remove id with
  | (none, _) => l
  | (some chunk, store) =>
    if l.register.get? chunk.signature = some (.live id) then
      { store, register := l.register.erase chunk.signature }
    else { l with store }

def releaseAll (l : Library) (ids : List ChunkId) : Library :=
  ids.foldl release l

/-- Marks a chunk as never to run again. -/
def retire (l : Library) (id : ChunkId) : Library :=
  match l.store.get? id with
  | some chunk => {
      store := l.store.modify id Chunk.retire
      register := l.register.insert chunk.signature .removed }
  | none => l

def live? (l : Library) (signature : String) : Option ChunkId :=
  match l.register.get? signature with
  | some (.live id) => some id
  | _ => none

def lineOf? (l : Library) (signature : String) : Option UInt32 :=
  match l.register.get? signature with
  | some (.live id) => (l.store.get? id).map fun chunk => chunk.position.toUInt32
  | some (.cached line) => some line
  | some .removed => some removedLine
  | none => none

/-- The lines worth keeping: those of chunks under way, waiting or removed. -/
def lines (l : Library) : List (String × UInt32) :=
  l.register.keys.filterMap fun signature =>
    match l.lineOf? signature with
    | some line => if line == 0 then none else some (signature, line)
    | none => none

/-- Replaces the register by positions that wait for their chunks. -/
def restoreLines (l : Library) (lines : List (String × UInt32)) : Library :=
  { l with register := Table.ofList (lines.map fun (signature, line) => (signature, .ofLine line)) }

end Library
end Adventure.Script
