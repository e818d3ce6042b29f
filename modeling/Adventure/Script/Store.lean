import Adventure.Script.Chunk
/-! The store of loaded chunks. A handle names a slot and the generation of the chunk in it; when the
chunk is removed the slot's generation moves on, so that an old handle finds nothing. -/
namespace Adventure.Script

structure ChunkId where
  index : Nat
  generation : UInt32
  deriving DecidableEq, Repr

/-- The chunk of a slot belongs to the slot's generation. -/
structure Slot where
  generation : UInt32
  chunk : Option Chunk
  deriving DecidableEq, Repr

structure Store where
  slots : List Slot
  /-- The empty slots, the latest emptied first. -/
  free : List Nat
  deriving DecidableEq, Repr

namespace Store

def empty : Store :=
  { slots := [], free := [] }

instance : Inhabited Store := ⟨empty⟩

/-- Puts a chunk into the latest emptied slot, or into a new one. -/
def insert (s : Store) (chunk : Chunk) : ChunkId × Store :=
  match s.free with
  | index :: free =>
    let generation := (s.slots[index]?.map Slot.generation).getD 0
    (⟨index, generation⟩, { slots := s.slots.set index ⟨generation, some chunk⟩, free })
  | [] => (⟨s.slots.length, 0⟩, { s with slots := s.slots ++ [⟨0, some chunk⟩] })

def get? (s : Store) (id : ChunkId) : Option Chunk :=
  match s.slots[id.index]? with
  | some slot => if slot.generation = id.generation then slot.chunk else none
  | none => none

/-- Changes the chunk that a handle finds. -/
def modify (s : Store) (id : ChunkId) (f : Chunk → Chunk) : Store :=
  match s.get? id with
  | some chunk => { s with slots := s.slots.set id.index ⟨id.generation, some (f chunk)⟩ }
  | none => s

/-- Takes out the chunk that a handle finds. -/
def remove (s : Store) (id : ChunkId) : Option Chunk × Store :=
  match s.get? id with
  | some chunk =>
    (some chunk, {
      slots := s.slots.set id.index ⟨id.generation + 1, none⟩
      free := id.index :: s.free })
  | none => (none, s)

def size (s : Store) : Nat :=
  s.slots.length - s.free.length

end Store
end Adventure.Script
